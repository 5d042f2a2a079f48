import NodeSentinel.Controller.Ownership

/-!
# Dry run

A controller with `DryRun` set, as its start-up and its loops call it: reports at any
time and, where the resize tier is on, `Recover` and the restore loop.  Only `act` looks
at the flag, so what a dry run writes are the restores of records a previous controller
left on the ledger; `dryRuns_untouched_iff` says which ledgers those are.
-/

open Function (update)

universe u

/-! ## What may be written -/

/-- Nothing on the API server has changed: no pod, no Event, no ConfigMap. -/
structure Untouched (w w' : World) : Prop where
  cluster : w'.cluster = w.cluster
  events : w'.events = w.events
  configMap : w'.configMap = w.configMap

/-- `Recover` may bring the record into memory. -/
def World.Recoverable (r : Remediator) (w : World) (st : ThrottleState) : Prop :=
  r.cfg.resize = true ∧ ∃ key raw, (w.ledger r).lookup key = some raw ∧ raw.record = some st

/-- Restoring the record writes: its patch is accepted, or its pod is gone and the ledger
has an entry to drop. -/
def World.Touches (r : Remediator) (w : World) (st : ThrottleState) : Prop :=
  match w.cluster.pod st.ns st.pod with
  | none => cmKey st.key ∈ w.ledger r
  | some p => p.container? st.container ≠ none ∧ st.originalCPULimit ≠ none

namespace World

variable {r : Remediator} {w w' : World} {st : ThrottleState}

theorem Recoverable.configMap (h : w.Recoverable r st) : ∃ cm, w.configMap r.stateNS = some cm := by
  obtain ⟨-, key, raw, hl, -⟩ := h
  cases hcm : w.configMap r.stateNS with
  | none => simp [ledger_of_none hcm] at hl
  | some cm => exact ⟨cm, rfl⟩

theorem touches_of_pod {p : Pod} (hp : w.cluster.pod st.ns st.pod = some p) :
    w.Touches r st ↔ p.container? st.container ≠ none ∧ st.originalCPULimit ≠ none := by
  rw [Touches, hp]

theorem touches_of_gone (hp : w.cluster.pod st.ns st.pod = none) :
    w.Touches r st ↔ cmKey st.key ∈ w.ledger r := by
  rw [Touches, hp]

instance (r : Remediator) (w : World) (st : ThrottleState) : Decidable (w.Touches r st) :=
  match hp : w.cluster.pod st.ns st.pod with
  | none => decidable_of_iff _ (touches_of_gone hp).symm
  | some _ => decidable_of_iff _ (touches_of_pod hp).symm

end World

/-! ## The invariant -/

/-- What is known of a call of a dry run, `w` being the world it started in: it throttles
nothing, and the records it handles come from the ledger. -/
def Phase.Dry (r : Remediator) (w : World) : Phase → Prop
  | lowered _ _ _ _ _ | stamped _ | announcing => False
  | starting => r.cfg.resize = true
  | restoring rest => ∀ st ∈ rest, w.Recoverable r st
  | restored lifted st rest => lifted = false ∧ w.cluster.pod st.ns st.pod = none ∧
      ∀ st' ∈ st :: rest, w.Recoverable r st'
  | ledger stage k v rest => v = none ∧ stage ≠ .creating ∧ cmKey k ∉ w.ledger r ∧
      (∃ cm, w.configMap r.stateNS = some cm ∧ ∀ cm', stage = .loaded cm' → cm' = cm) ∧
      ∀ st ∈ rest, w.Recoverable r st
  | recovering cm => r.cfg.resize = true ∧ w.configMap r.stateNS = some cm
  | _ => True

variable {ι : Type u} [DecidableEq ι]

/-- Nothing is touched, and all records come from the ledger. -/
structure DryRun (r : Remediator) (w₀ w : World) (φ : ι → Phase) : Prop where
  untouched : Untouched w₀ w
  records : ∀ {k st}, w.throttled.lookup k = some st → w₀.Recoverable r st
  phases : ∀ i, (φ i).Dry r w₀

namespace DryRun

variable {r : Remediator} {w₀ w w' : World} {φ : ι → Phase} {i : ι} {ψ : Phase}

/-- Transitions that write nothing. -/
theorem move (h : DryRun r w₀ w φ) (hu : Untouched w w')
    (hT : ∀ {k st}, w'.throttled.lookup k = some st → w₀.Recoverable r st) (hψ : ψ.Dry r w₀) :
    DryRun r w₀ w' (update φ i ψ) where
  untouched := ⟨hu.cluster.trans h.untouched.cluster, hu.events.trans h.untouched.events,
    hu.configMap.trans h.untouched.configMap⟩
  records := hT
  phases := (Function.forall_update_iff φ fun _ s ↦ s.Dry r w₀).mpr ⟨hψ, fun j _ ↦ h.phases j⟩

/-- Every transition keeps the run dry, if no record on the ledger touches anything. -/
theorem act (hdry : r.cfg.dryRun = true) (hsafe : ∀ st, w₀.Recoverable r st → ¬ w₀.Touches r st)
    (h : DryRun r w₀ w φ) {pol : Policy} {e : Act} {s : Phase} (hφ : φ i = s)
    (hx : Phase.Trans r pol w s e w' ψ) : DryRun r w₀ w' (update φ i ψ) := by
  have hi := h.phases i
  rw [hφ] at hi
  have hcm : w.configMap = w₀.configMap := h.untouched.configMap
  have hpod : w.cluster = w₀.cluster := h.untouched.cluster
  have quiet : ∀ {w' ψ}, Untouched w w' → w'.throttled = w.throttled → ψ.Dry r w₀ →
      DryRun r w₀ w' (update φ i ψ) := fun hu ht hψ ↦ h.move hu (ht ▸ h.records) hψ
  cases hx with
  | stay | clearCooldown => exact quiet ⟨rfl, rfl, rfl⟩ rfl hi
  | skip | unthrottled | cooldown | read => exact quiet ⟨rfl, rfl, rfl⟩ rfl trivial
  | event _ _ he =>
      rcases he with rfl | ⟨st, rest, rfl⟩ | hf
      · exact hi.elim
      · cases hi.1
      · cases hdry.symm.trans hf
  | lower _ _ hf => cases hdry.symm.trans hf
  | stamp => exact hi.elim
  | record => exact hi.elim
  | sweep => exact quiet ⟨rfl, rfl, rfl⟩ rfl trivial
  | collect hd =>
      refine quiet ⟨rfl, rfl, rfl⟩ rfl fun st hst ↦ ?_
      obtain ⟨⟨k, hk⟩, -⟩ := World.mem_due.mp (hd ▸ Multiset.mem_coe.mpr hst)
      exact h.records hk
  | lift _ hp hc hq =>
      rw [hpod] at hp
      refine absurd ((World.touches_of_pod hp).mpr ⟨?_, ?_⟩) (hsafe _ (hi _ (.head _)))
      · simp [hc]
      · simp [hq]
  | gone _ _ hp => exact quiet ⟨rfl, rfl, rfl⟩ rfl ⟨rfl, hpod ▸ hp, hi⟩
  | keep => exact quiet ⟨rfl, rfl, rfl⟩ rfl fun st hst ↦ hi st (.tail _ hst)
  | drop _ st rest =>
      obtain ⟨-, hp, hrest⟩ := hi
      refine h.move ⟨rfl, rfl, rfl⟩ (fun hk ↦ ?_) ?_
      · exact h.records (Finmap.lookup_erase_eq_some_iff.mp hk).2
      · have htail : ∀ st' ∈ rest, w₀.Recoverable r st' := fun st' hst' ↦ hrest st' (.tail _ hst')
        split
        · exact htail
        · obtain ⟨cm, hcm₀⟩ := (hrest st (.head _)).configMap
          exact ⟨rfl, nofun, fun hm ↦ hsafe st (hrest st (.head _))
            ((World.touches_of_gone hp).mpr hm), ⟨cm, hcm₀, nofun⟩, htail⟩
  | lock =>
      obtain ⟨hv, -, hk, ⟨cm, hcm₀, -⟩, hrest⟩ := hi
      exact quiet ⟨rfl, rfl, rfl⟩ rfl ⟨hv, nofun, hk, ⟨cm, hcm₀, nofun⟩, hrest⟩
  | load _ _ _ hl =>
      obtain ⟨hv, -, hk, ⟨cm, hcm₀, -⟩, hrest⟩ := hi
      refine quiet ⟨rfl, rfl, rfl⟩ rfl ⟨hv, nofun, hk, ⟨cm, hcm₀, ?_⟩, hrest⟩
      rintro _ ⟨⟩
      rw [hcm, hcm₀] at hl
      exact (Option.some.inj hl).symm
  | miss _ hn =>
      obtain ⟨-, -, -, ⟨cm, hcm₀, -⟩, -⟩ := hi
      rw [hcm, hcm₀] at hn
      cases hn
  | create => exact absurd rfl hi.2.1
  | race => exact absurd rfl hi.2.1
  | abandon | writeFails =>
      obtain ⟨hv, -, hk, ⟨cm, hcm₀, -⟩, hrest⟩ := hi
      exact quiet ⟨rfl, rfl, rfl⟩ rfl ⟨hv, nofun, hk, ⟨cm, hcm₀, nofun⟩, hrest⟩
  | write _ _ hk =>
      -- an entry to drop would have to be on the ledger
      obtain ⟨hv, -, hn, ⟨cm, hcm₀, hcm'⟩, -⟩ := hi
      obtain rfl := hcm' _ rfl
      exact absurd (hk hv) (World.ledger_of_eq hcm₀ ▸ hn)
  | unlock =>
      obtain ⟨rfl, -, -, -, hrest⟩ := hi
      exact quiet ⟨rfl, rfl, rfl⟩ rfl hrest
  | begin _ _ hl => exact quiet ⟨rfl, rfl, rfl⟩ rfl ⟨hi, hcm ▸ hl⟩
  | begin_none => exact quiet ⟨rfl, rfl, rfl⟩ rfl trivial
  | @recover cm scan hscan =>
      obtain ⟨hres, hcm₀⟩ := hi
      refine h.move ⟨rfl, rfl, rfl⟩ (fun {k st} hk ↦ ?_) trivial
      rcases World.lookup_foldl_recoverEntry hk with hm | ⟨e, he, hr, -⟩
      · exact h.records hm
      · refine ⟨hres, e.1, e.2, ?_, hr⟩
        rw [World.ledger_of_eq hcm₀]
        exact Finmap.mem_lookup_iff.mpr (hscan ▸ Multiset.mem_coe.mpr he)

end DryRun

/-! ## The runs that write -/

section Writes

variable {r : Remediator} {w : World} {st : ThrottleState}

/-- An action with a given choice. -/
theorem runs_choose {e : Act} {k : Resp e → Ctl Unit} {w w₁ w' : World} {p' : Ctl Unit}
    {ans : Resp e} (ch : Choice) (hx : exec ch e w = some (ans, w₁))
    (hk : System.Runs (Exec .unreliable) (k ans) w₁ p' w') :
    System.Runs (Exec .unreliable) (.act e k) w p' w' :=
  .act ⟨ch, rfl, hx⟩ hk

/-- `Recover` may read the entry of a record last, so that it ends up in memory. -/
theorem recover_runs (hns : r.stateNS ≠ "") (h : w.Recoverable r st) :
    ∃ T, T.lookup st.key = some st ∧
      System.Runs (Exec .unreliable) (recover r) w (.pure ⟨⟩) { w with throttled := T } := by
  obtain ⟨cm, hcm⟩ := h.configMap
  obtain ⟨-, key, raw, hl, hr⟩ := h
  rw [World.ledger_of_eq hcm] at hl
  obtain ⟨t, ht⟩ := Multiset.exists_cons_of_mem (Finmap.mem_lookup_iff.mp hl)
  let scan := t.toList ++ [⟨key, raw⟩]
  have hscan : (scan : Multiset _) = cm.data.entries := by
    rw [ht, ← Multiset.coe_add, Multiset.coe_toList, add_comm]
    rfl
  have hget : exec {} (.getConfigMap r.stateNS) w = some (.ok cm, w) := by
    simp [exec, Choice.api, World.getConfigMap, hcm]
  have hload : exec { scan } (.recoverThrottled cm) w =
      some ((), { w with throttled := scan.foldl World.recoverEntry w.throttled }) := by
    simp only [exec, if_pos hscan]
  refine ⟨scan.foldl World.recoverEntry w.throttled, ?_, ?_⟩
  · rw [List.foldl_append, List.foldl_cons, List.foldl_nil, World.recoverEntry_eq, hr]
    exact Finmap.lookup_insert _
  · rw [recover, if_neg hns]
    exact runs_choose _ hget (runs_choose _ hload (.refl _ _))

/-- `forget` drops the entry it finds. -/
theorem forget_runs {key : String} {cm : ConfigMap} (hns : r.stateNS ≠ "")
    (hm : w.persistMu = false) (hcm : w.configMap r.stateNS = some cm)
    (hk : cmKey key ∈ cm.data) :
    ∃ p', System.Runs (Exec .unreliable) (forget r key) w p' { w with
      persistMu := true
      configMap := update w.configMap r.stateNS (some ⟨cm.data.erase (cmKey key)⟩) } := by
  have hlock : exec {} .lockPersist w = some ((), { w with persistMu := true }) := by
    simp [exec, hm]
  have hget : exec {} (.getConfigMap r.stateNS) { w with persistMu := true } =
      some (.ok cm, { w with persistMu := true }) := by
    simp [exec, Choice.api, World.getConfigMap, hcm]
  have hupd : exec {} (.updateConfigMap r.stateNS ⟨cm.data.erase (cmKey key)⟩)
      { w with persistMu := true } = some (.ok (), { w with
        persistMu := true
        configMap := update w.configMap r.stateNS (some ⟨cm.data.erase (cmKey key)⟩) }) := by
    simp [exec, Choice.api, World.updateConfigMap, hcm]
  refine ⟨perform .unlockPersist, ?_⟩
  rw [forget, if_neg hns]
  refine runs_choose {} hlock (runs_choose {} hget ?_)
  change System.Runs _ (if cmKey key ∉ cm.data then _ else _) _ _ _
  rw [if_neg (not_not.mpr hk)]
  exact runs_choose {} hupd (.refl _ _)

/-- `restoreOne` writes if the record touches anything. -/
theorem restoreOne_runs (hns : r.stateNS ≠ "") (hm : w.persistMu = false) (h : w.Touches r st) :
    ∃ p' w', System.Runs (Exec .unreliable) (restoreOne r st) w p' w' ∧ ¬ Untouched w w' := by
  cases hp : w.cluster.pod st.ns st.pod with
  | none =>
      rw [World.touches_of_gone hp] at h
      cases hcm : w.configMap r.stateNS with
      | none => exact absurd (World.ledger_of_none hcm ▸ h) Finmap.notMem_empty
      | some cm =>
          rw [World.ledger_of_eq hcm] at h
          have hpatch : exec {} (.patchCPULimit (.restore st) st.ns st.pod st.container
              st.originalCPULimit) w = some (.error .notFound, w) := by
            simp [exec, Choice.api, World.patchCPULimit, hp]
          obtain ⟨p', hrun⟩ := forget_runs
            (w := { w with throttled := w.throttled.erase st.key }) hns hm hcm h
          refine ⟨_, _, runs_choose {} hpatch (runs_choose {} rfl hrun), fun hu ↦ ?_⟩
          have hmap := congrFun hu.configMap r.stateNS
          simp only [Function.update_self, hcm, Option.some.injEq] at hmap
          exact Finmap.notMem_erase_self (hmap ▸ h)
  | some p =>
      rw [World.touches_of_pod hp] at h
      obtain ⟨c, hc⟩ := Option.ne_none_iff_exists'.mp h.1
      obtain ⟨q, hq⟩ := Option.ne_none_iff_exists'.mp h.2
      have hpatch : exec {} (.patchCPULimit (.restore st) st.ns st.pod st.container
          st.originalCPULimit) w = some (.ok (), w.patch (.restore st)
            ⟨st.ns, st.pod, st.container, p.uid, c.cpuLimit, q, w.clock⟩) := by
        simp [exec, Choice.api, World.patchCPULimit, hp, hc, hq, World.patch]
      refine ⟨_, _, runs_choose {} hpatch (runs_choose {} rfl (runs_choose {} rfl
        (runs_choose {} rfl (.refl _ _)))), fun hu ↦ ?_⟩
      exact List.cons_ne_self _ _ hu.events

/-- `restoreDue` may come to a due record first, and then writes if the record touches
anything. -/
theorem restoreDue_runs (hns : r.stateNS ≠ "") (hm : w.persistMu = false)
    (hst : w.throttled.lookup st.key = some st) (hdue : st.restoreAt < w.clock)
    (h : w.Touches r st) :
    ∃ p' w', System.Runs (Exec .unreliable) (restoreDue r) w p' w' ∧ ¬ Untouched w w' := by
  obtain ⟨t, ht⟩ := Multiset.exists_cons_of_mem (World.mem_due.mpr ⟨⟨_, hst⟩, hdue⟩)
  have hdue' : ((st :: t.toList : List _) : Multiset _) = w.due w.clock := by
    rw [ht, ← Multiset.cons_coe, Multiset.coe_toList]
  have hcollect : exec { due := st :: t.toList } (.dueThrottles w.clock) w =
      some (st :: t.toList, w) := by
    simp only [exec, if_pos hdue']
  obtain ⟨p', w', hrun, hw⟩ := restoreOne_runs hns hm h
  exact ⟨_, w', runs_choose {} rfl (runs_choose _ hcollect (hrun.bind _)), hw⟩

end Writes

/-! ## The result -/

variable {ι : Type u} [DecidableEq ι]

/-- The calls of start-up and loops: `Recover` and the restore loop only where the resize
tier is on.  API calls may fail and the clock may advance; nobody else touches anything. -/
def dryRuns (resize : Bool) : Scenario ι where
  pol := .unreliable
  calls _ call := match call with
    | .report _ => true
    | .sweep | .startup => resize
  moves _ m := match m with
    | .tick _ => true
    | _ => false

theorem dryRuns_isInductive {r : Remediator} (hdry : r.cfg.dryRun = true) {w₀ : World}
    (hsafe : ∀ st, w₀.Recoverable r st → ¬ w₀.Touches r st) :
    System.Inductive ((dryRuns (ι := ι) r.cfg.resize).system r) (Phase.protocol r) Phase.Final
      (DryRun r w₀) := by
  refine Scenario.inductive_final (fun {w φ i call} h _ hcall ↦ ?_)
    (fun h _ hx ↦ h.act hdry hsafe rfl hx) (fun {c m c'} h hm hap ↦ ?_)
  · refine h.move ⟨rfl, rfl, rfl⟩ h.records ?_
    cases call with
    | report s => trivial
    | sweep => trivial
    | startup =>
        simp only [Call.phase]
        split
        · trivial
        · exact hcall
  · cases m with
    | tick t =>
        obtain ⟨-, rfl⟩ := Move.apply_tick hap
        exact ⟨⟨h.untouched.cluster, h.untouched.events, h.untouched.configMap⟩, h.records,
          h.phases⟩
    | _ => cases hm

/-- Start-up recovers the record, and after its window the restore loop writes. -/
theorem World.Touches.exists_run {r : Remediator} (hns : r.stateNS ≠ "") {w : World} (i : ι)
    (hm : w.persistMu = false) {st : ThrottleState} (hrec : w.Recoverable r st)
    (h : w.Touches r st) :
    ∃ c : State ι, ((dryRuns r.cfg.resize).system r).Reachable w.quiet c ∧
      ¬ Untouched w c.world := by
  have hguard : ∀ w φ (i : ι) e, ((dryRuns r.cfg.resize).system r).guard w φ i e :=
    fun _ _ _ _ ↦ trivial
  obtain ⟨T, hT, hload⟩ := recover_runs hns hrec
  obtain ⟨φ, hrecovered⟩ := System.Reachable.call_runs hguard (c := w.quiet) (i := i) rfl
    ⟨.startup, hrec.1, rfl, rfl⟩ hload
  let t := max w.clock (st.restoreAt + 1)
  let w₁ : World := { w with throttled := T, clock := t }
  obtain ⟨p', w', hsweep, hw'⟩ := restoreDue_runs (w := w₁) hns hm hT
    (lt_of_lt_of_le (Int.lt_succ _) (le_max_right _ _)) h
  obtain ⟨φ', hrestored⟩ := System.Reachable.call_runs hguard
    (c := ⟨w₁, φ, update (World.quiet w : State ι).prog i (.pure ⟨⟩)⟩)
    (i := i) (by simp) ⟨.sweep, hrec.1, rfl, rfl⟩ hsweep
  exact ⟨_, hrecovered.trans (.head (.env ⟨.tick t, rfl, if_pos (le_max_left _ _)⟩) hrestored),
    fun hu ↦ hw' ⟨hu.cluster, hu.events, hu.configMap⟩⟩

/-- A dry run touches nothing, whatever it is made of, if and only if no record on the
ledger is one whose restore is accepted, or whose pod is gone. -/
theorem dryRuns_untouched_iff [Inhabited ι] {r : Remediator} (hdry : r.cfg.dryRun = true)
    (hns : r.cfg.resize = true → r.stateNS ≠ "") {w : World} (hT : w.throttled = ∅)
    (hm : w.persistMu = false) :
    (∀ c : State ι, ((dryRuns r.cfg.resize).system r).Reachable w.quiet c →
      Untouched w c.world) ↔ ∀ st, w.Recoverable r st → ¬ w.Touches r st := by
  constructor
  · intro h st hrec ht
    obtain ⟨c, hr, hc⟩ := ht.exists_run (hns hrec.1) (default : ι) hm hrec
    exact hc (h c hr)
  · intro hsafe c hr
    have hinit : DryRun r w w fun _ : ι ↦ .idle :=
      ⟨⟨rfl, rfl, rfl⟩, fun hk ↦ by simp [hT] at hk, fun _ ↦ trivial⟩
    exact ((World.invariant_quiet hinit).reachable
      (dryRuns_isInductive hdry hsafe) hr).global.untouched

/-- A dry-run remediator as `enableResizeRestore` sets it up. -/
def dryRemediator : Remediator :=
  (newRemediator { resize := true, dryRun := true }).enablePersistence "sentinel-system"

/-- A world in which a previous controller has left a record on the ledger. -/
def World.left (st : ThrottleState) : World :=
  { World.fresh .web with
    configMap := update (fun _ ↦ none) "sentinel-system"
      (some ⟨Finmap.singleton (cmKey st.key) st.raw⟩) }

/-- The one record of the ledger is all that can be recovered. -/
theorem World.Recoverable.eq_left {st st' : ThrottleState}
    (h : (World.left st).Recoverable dryRemediator st') : st' = st := by
  obtain ⟨-, key, raw, hl, hr⟩ := h
  have hledger : (World.left st).ledger dryRemediator = Finmap.singleton (cmKey st.key) st.raw := by
    simp [World.left, World.ledger, dryRemediator, Remediator.enablePersistence]
  rw [hledger] at hl
  have hk : key = cmKey st.key := by
    rw [← Finmap.mem_singleton (β := fun _ ↦ Raw) _ _ st.raw]
    exact Finmap.mem_of_lookup_eq_some hl
  rw [hk, Finmap.lookup_singleton_eq, Option.some.injEq] at hl
  exact ThrottleState.eq_of_record_raw (hl ▸ hr)

/-- A record of a container that is no longer there: its restore is refused. -/
def staleRecord : ThrottleState := ⟨"web", "a", "sidecar", some 200, 0⟩

theorem staleRecord_untouched :
    (∀ c : State Unit, ((dryRuns dryRemediator.cfg.resize).system dryRemediator).Reachable
      (World.left staleRecord).quiet c → Untouched (World.left staleRecord) c.world) ∧
    (World.left staleRecord).Recoverable dryRemediator staleRecord :=
  ⟨(dryRuns_untouched_iff rfl (fun _ ↦ by decide) rfl rfl).mpr fun st h ↦ by
      obtain rfl := h.eq_left
      decide +kernel,
    rfl, cmKey staleRecord.key, staleRecord.raw, by decide +kernel, by decide +kernel⟩

/-- A record of a throttled container: the dry run restores it and emits an Event. -/
theorem leftThrottle_not_untouched :
    ¬ ∀ c : State Unit, ((dryRuns true).system dryRemediator).Reachable
      (World.left (webRecord 0)).quiet c → Untouched (World.left (webRecord 0)) c.world := by
  intro h
  obtain ⟨c, hr, hc⟩ := Scenario.exists_reachable (dryRuns true) dryRemediator (fun _ _ _ _ ↦ true)
    (fun _ _ _ _ _ ↦ trivial)
    (.call () .startup :: .act () {} ::
      .act () { scan := [⟨cmKey (webRecord 0).key, (webRecord 0).raw⟩] } :: .move (.tick minute) ::
      .call () .sweep :: .act () {} :: .act () { due := [webRecord 0] } :: Cmd.acts () 4)
    (World.left (webRecord 0)).quiet (fun c ↦ c.world.events ≠ []) (by decide +kernel)
  exact hc (h c hr).events
