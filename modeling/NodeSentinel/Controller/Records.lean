import NodeSentinel.Controller.Keys

/-!
# Records under concurrent reports

Any number of `Remediate` calls run at once; no restore runs.  The record of a
throttle is entered long after `isThrottled` and `takeCooldown` were asked, and
`r.throttled` has one slot per pod while a throttle is of a container.  Every lowered
container keeps its record as long as no call enters a record over one of another
container of the same pod; a run in which that happens is given at the end.
-/

open Function (update)

universe u

/-- The container `c₀` with its limit lowered to its request. -/
def Container.LoweredFrom (c c₀ : Container) (limit request : Quantity) : Prop :=
  c₀.cpuLimit = some limit ∧ c₀.cpuRequest = some request ∧ request < limit ∧
    c = { c₀ with cpuLimit := some request }

/-- A pod in which there is room below a container's limit was read before that container
was lowered. -/
theorem Container.LoweredFrom.room_eq_none {c c₀ : Container} {limit request : Quantity}
    (h : c.LoweredFrom c₀ limit request) {p : Pod} {name : String}
    (hc : p.container? name = some c) : p.room name = none := by
  obtain ⟨-, hq, -, rfl⟩ := h
  simp [Pod.room, hc, hq]

/-- The call has lowered the limit of a container from `limit` and not recorded it yet. -/
def Phase.Holds (φ : Phase) (ns name container : String) (limit : Quantity) : Prop :=
  (∃ request, φ = .lowered ns name container limit request) ∨
    ∃ t, φ = .stamped ⟨ns, name, container, some limit, t⟩

theorem Phase.Free.not_holds {φ : Phase} (h : φ.Free) {ns name container : String}
    {limit : Quantity} : ¬ φ.Holds ns name container limit := by
  rintro (⟨_, rfl⟩ | ⟨_, rfl⟩) <;> exact h

variable {ι : Type u} [DecidableEq ι]

/-- A lowered container is recorded, or the call that lowered it has still to do so. -/
def Held (w : World) (φ : ι → Phase) (ns name container : String) (limit : Quantity) : Prop :=
  (∃ st, w.throttled.lookup (podKey ns name) = some st ∧ st.container = container ∧
    st.originalCPULimit = some limit) ∨ ∃ i, (φ i).Holds ns name container limit

/-- What a call knows about the cluster, whose initial state was `C₀`. -/
def Phase.Knows (C₀ : Cluster) : Phase → Prop
  | read ns name p => ∀ k c, p.container? k = some c → ∃ c₀, C₀.container? ns name k = some c₀ ∧
      (c = c₀ ∨ ∃ limit request, c.LoweredFrom c₀ limit request)
  | lowered ns name k orig _ => ∃ c₀, C₀.container? ns name k = some c₀ ∧ c₀.cpuLimit = some orig
  | stamped st => ∃ c₀, C₀.container? st.ns st.pod st.container = some c₀ ∧
      st.originalCPULimit = c₀.cpuLimit
  | waking | starting | sweeping _ | restoring _ | restored _ _ _ | recovering _ => False
  | ledger _ _ v _ => v ≠ none
  | _ => True

/-- Every container is as it was at the start, or lowered and held. -/
structure Recorded (C₀ : Cluster) (w : World) (φ : ι → Phase) : Prop where
  container : ∀ {ns name k c}, w.cluster.container? ns name k = some c →
    ∃ c₀, C₀.container? ns name k = some c₀ ∧
      (c = c₀ ∨ ∃ limit request, c.LoweredFrom c₀ limit request ∧ Held w φ ns name k limit)
  knows : ∀ i, (φ i).Knows C₀

/-- A report writes its record over a slot that is empty or of the same container. -/
def overwritesNone (w : World) (_ : ι → Phase) (_ : ι) : Act → Prop
  | .setThrottled key st =>
      ∀ st', w.throttled.lookup key = some st' → st'.container = st.container
  | _ => True

instance (w : World) (φ : ι → Phase) (i : ι) (e : Act) : Decidable (overwritesNone w φ i e) :=
  match e with
  | .setThrottled key st => decidable_of_iff
      (((w.throttled.lookup key).all fun st' ↦ st'.container = st.container) = true)
      (by cases h : w.throttled.lookup key <;> simp [overwritesNone, h])
  | .getPod .. | .patchCPULimit .. | .createEvent .. | .getConfigMap .. | .createConfigMap ..
  | .updateConfigMap .. | .now | .isThrottled .. | .takeCooldown .. | .clearCooldown ..
  | .deleteThrottled .. | .dueThrottles .. | .recoverThrottled .. | .lockPersist
  | .unlockPersist => .isTrue trivial

/-- Concurrent `Remediate` calls; every API call is served. -/
def reports : Scenario ι where
  pol := .reliable
  calls _ call := match call with
    | .report _ => true
    | _ => false
  moves _ m := match m with
    | .tick _ => true
    | _ => false

/-- The runs of `reports` in which no record is written over another container's. -/
def reportsApart : Scenario ι := { reports with guard := overwritesNone }

namespace Recorded

variable {C₀ : Cluster} {w w' : World} {φ : ι → Phase} {r : Remediator} {i : ι}

/-- Transitions that change neither the cluster nor the records. -/
theorem move (h : Recorded C₀ w φ) {ψ : Phase} (hC : w'.cluster = w.cluster)
    (hT : w'.throttled = w.throttled) (hψ : ψ.Knows C₀)
    (hh : ∀ {ns name k limit}, (φ i).Holds ns name k limit → ψ.Holds ns name k limit) :
    Recorded C₀ w' (update φ i ψ) where
  container {ns name k c} hc := by
    obtain ⟨c₀, hc₀, rfl | ⟨limit, request, hl, hheld⟩⟩ := h.container (hC ▸ hc)
    · exact ⟨c, hc₀, .inl rfl⟩
    · refine ⟨c₀, hc₀, .inr ⟨limit, request, hl, ?_⟩⟩
      rcases hheld with hrec | ⟨j, hj⟩
      · exact .inl (hT ▸ hrec)
      · by_cases hji : j = i
        · subst hji; exact .inr ⟨j, by simpa using hh hj⟩
        · exact .inr ⟨j, by simpa [hji] using hj⟩
  knows j := by
    by_cases hji : j = i
    · subst hji; simpa using hψ
    · simpa [hji] using h.knows j

/-- `throttle` lowers a limit: the container becomes held by the call. -/
theorem lower (h : Recorded C₀ w φ) {ns name : String} {p p' : Pod} {c : Container}
    {limit request : Quantity} (hφ : φ i = .read ns name p)
    (hroom : p.room c.name = some (limit, request)) (hp : w.cluster.pod ns name = some p')
    (hc : p'.container? c.name = some c) :
    Recorded C₀ (w.patch .throttle (w.limitChange ns name p' c request))
      (update φ i (.lowered ns name c.name limit request)) := by
  obtain ⟨d, hd, hdl, hdq, hlt⟩ := Pod.room_eq_some hroom
  have hk := h.knows i
  rw [hφ] at hk
  obtain ⟨c₀, hc₀, rfl | ⟨_, _, hlow⟩⟩ := hk _ _ hd
  · -- the pod was read before its container was lowered
    have hcur : w.cluster.container? ns name c.name = some c := by
      rw [Cluster.container?_of_pod hp, hc]
    constructor
    · intro a b k x hx
      by_cases hn : a = ns ∧ b = name ∧ k = c.name
      · obtain ⟨rfl, rfl, rfl⟩ := hn
        change (w.cluster.setCPULimit a b c.name request).container? a b c.name = some x at hx
        rw [Cluster.container?_setCPULimit_self, hcur, Option.map_some, Option.some.injEq] at hx
        refine ⟨d, hc₀, .inr ⟨limit, request, ⟨hdl, hdq, hlt, ?_⟩, .inr ⟨i, .inl ⟨request, ?_⟩⟩⟩⟩
        · obtain ⟨c₁, hc₁, hcc⟩ := h.container hcur
          obtain rfl := Option.some.inj (hc₁.symm.trans hc₀)
          rcases hcc with rfl | ⟨_, _, ⟨-, -, -, rfl⟩, -⟩ <;> exact hx.symm
        · simp
      · change (w.cluster.setCPULimit ns name c.name request).container? a b k = some x at hx
        rw [Cluster.container?_setCPULimit_of_ne hn] at hx
        obtain ⟨x₀, hx₀, rfl | ⟨l, q, hl, hheld⟩⟩ := h.container hx
        · exact ⟨x, hx₀, .inl rfl⟩
        · refine ⟨x₀, hx₀, .inr ⟨l, q, hl, ?_⟩⟩
          rcases hheld with hrec | ⟨j, hj⟩
          · exact .inl hrec
          · refine .inr ⟨j, ?_⟩
            have hji : j ≠ i := by
              rintro rfl
              rw [hφ] at hj
              exact Phase.Free.not_holds (φ := .read _ _ _) trivial hj
            simpa [hji] using hj
    · intro j
      by_cases hji : j = i
      · subst hji
        simpa using ⟨d, hc₀, hdl⟩
      · simpa [hji] using h.knows j
  · rw [hlow.room_eq_none hd] at hroom
    cases hroom

/-- The call enters its record; by the guard no other container loses one. -/
theorem record (h : Recorded C₀ w φ) {st : ThrottleState} {ψ : Phase} (hφ : φ i = .stamped st)
    (hg : overwritesNone w φ i (.setThrottled st.key st)) (hψ : ψ.Knows C₀) :
    Recorded C₀ { w with
      throttled := w.throttled.insert st.key st, history := .recorded st :: w.history }
      (update φ i ψ) := by
  have hk := h.knows i
  rw [hφ] at hk
  obtain ⟨c₀, hc₀, horig⟩ := hk
  have hnamed : PodName st.ns st.pod := by
    obtain ⟨p, hp, -⟩ := Option.bind_eq_some_iff.mp hc₀
    exact C₀.podName hp
  constructor
  · intro ns name k c hc
    obtain ⟨c₁, hc₁, rfl | ⟨limit, request, hl, hheld⟩⟩ := h.container hc
    · exact ⟨c, hc₁, .inl rfl⟩
    · refine ⟨c₁, hc₁, .inr ⟨limit, request, hl, ?_⟩⟩
      by_cases hkey : podKey ns name = st.key
      · -- a container of the pod that is being recorded
        obtain ⟨rfl, rfl⟩ := hnamed.podKey_inj.mp hkey.symm
        have hown : k = st.container → Held { w with
            throttled := w.throttled.insert st.key st, history := .recorded st :: w.history }
            (update φ i ψ) st.ns st.pod k limit := by
          rintro rfl
          obtain rfl := Option.some.inj (hc₁.symm.trans hc₀)
          exact .inl ⟨st, by rw [hkey]; exact Finmap.lookup_insert _, rfl, horig.trans hl.1⟩
        rcases hheld with ⟨st', hst', hcont, -⟩ | ⟨j, hj⟩
        · exact hown (hcont ▸ hg st' (hkey ▸ hst'))
        · by_cases hji : j = i
          · subst hji
            rw [hφ] at hj
            rcases hj with ⟨_, hj⟩ | ⟨_, hj⟩
            · cases hj
            · exact hown (congrArg ThrottleState.container (Phase.stamped.inj hj)).symm
          · exact .inr ⟨j, by simpa [hji] using hj⟩
      · rcases hheld with ⟨st', hst', hcont⟩ | ⟨j, hj⟩
        · exact .inl ⟨st', by rw [Finmap.lookup_insert_of_ne _ hkey]; exact hst', hcont⟩
        · have hji : j ≠ i := by
            rintro rfl
            rw [hφ] at hj
            rcases hj with ⟨_, hj⟩ | ⟨_, hj⟩
            · cases hj
            · cases hj
              exact hkey rfl
          exact .inr ⟨j, by simpa [hji] using hj⟩
  · intro j
    by_cases hji : j = i
    · subst hji; simpa using hψ
    · simpa [hji] using h.knows j

/-- Every transition of a report preserves the invariant. -/
theorem act (h : Recorded C₀ w φ) {e : Act} {s ψ : Phase} (hφ : φ i = s)
    (hg : overwritesNone w φ i e) (ht : Phase.Trans r .reliable w s e w' ψ) :
    Recorded C₀ w' (update φ i ψ) := by
  have hk := h.knows i
  rw [hφ] at hk
  cases ht with
  | stay => exact h.move rfl rfl hk (hφ ▸ id)
  | clearCooldown => exact h.move rfl rfl hk (hφ ▸ id)
  | event => exact h.move rfl rfl hk (hφ ▸ id)
  | skip _ hf => exact h.move rfl rfl trivial fun hh ↦ (hf.not_holds (hφ ▸ hh)).elim
  | unthrottled _ hf => exact h.move rfl rfl trivial fun hh ↦ (hf.not_holds (hφ ▸ hh)).elim
  | cooldown => exact h.move rfl rfl trivial fun hh ↦
      (Phase.Free.not_holds (φ := .unthrottled _) trivial (hφ ▸ hh)).elim
  | @read _ ns name p hat hp =>
      refine h.move rfl rfl ?_ fun hh ↦ ?_
      · intro k c hc
        obtain ⟨c₀, hc₀, rfl | ⟨l, q, hl, -⟩⟩ := h.container
          (by rw [Cluster.container?_of_pod hp]; exact hc)
        · exact ⟨c, hc₀, .inl rfl⟩
        · exact ⟨c₀, hc₀, .inr ⟨l, q, hl⟩⟩
      · rw [hφ] at hh
        rcases hat with rfl | ⟨_, rfl⟩
        · exact (Phase.Free.not_holds (φ := .acting _) trivial hh).elim
        · exact (Phase.Free.not_holds (φ := .read _ _ _) trivial hh).elim
  | lower _ _ _ _ hroom hp hc => exact h.lower hφ hroom hp hc
  | stamp ns pod c orig request =>
      refine h.move rfl rfl ?_ fun hh ↦ ?_
      · obtain ⟨c₀, hc₀, horig⟩ := hk
        exact ⟨c₀, hc₀, horig.symm⟩
      · rw [hφ] at hh
        rcases hh with ⟨_, hh⟩ | ⟨_, hh⟩
        · cases hh
          exact .inr ⟨_, rfl⟩
        · cases hh
  | record st =>
      refine h.record hφ hg ?_
      split
      · trivial
      · exact nofun
  | lock | load | miss | create | race | abandon | write | writeFails =>
      refine h.move rfl rfl hk fun hh ↦ ?_
      rw [hφ] at hh
      rcases hh with ⟨_, hh⟩ | ⟨_, hh⟩ <;> cases hh
  | @unlock stage k v rest =>
      refine h.move rfl rfl ?_ fun hh ↦ ?_
      · cases v with
        | none => exact absurd rfl hk
        | some st => trivial
      · rw [hφ] at hh
        rcases hh with ⟨_, hh⟩ | ⟨_, hh⟩ <;> cases hh
  | sweep => exact hk.elim
  | collect => exact hk.elim
  | lift => exact hk.elim
  | gone => exact hk.elim
  | keep => exact hk.elim
  | drop => exact hk.elim
  | begin => exact hk.elim
  | begin_none => exact hk.elim
  | recover => exact hk.elim

omit [DecidableEq ι] in
/-- At the start nothing is lowered. -/
theorem init (w : World) : Recorded w.cluster w fun _ : ι ↦ .idle where
  container hc := ⟨_, hc, .inl rfl⟩
  knows _ := trivial

theorem isInductive (r : Remediator) (C₀ : Cluster) :
    System.Inductive ((reportsApart (ι := ι)).system r) (Phase.protocol r) Phase.Final
      (Recorded C₀) := by
  refine Scenario.inductive_final (fun {w φ i call} h hf hcall ↦ ?_)
    (fun h hg ht ↦ h.act rfl hg ht) (fun {c m c'} h hm hap ↦ ?_)
  · cases call with
    | report s =>
        refine h.move rfl rfl trivial fun hh ↦ ?_
        rcases hh with ⟨_, hh⟩ | ⟨_, hh⟩ <;> exact (hh ▸ hf :).elim
    | sweep => cases hcall
    | startup => cases hcall
  · cases m with
    | tick t =>
        obtain ⟨-, rfl⟩ := Move.apply_tick hap
        exact ⟨fun hc ↦ h.container hc, h.knows⟩
    | delete => cases hm
    | create => cases hm
    | edit => cases hm
    | restart => cases hm

end Recorded

/-! ## The result -/

/-- Every container whose limit is below its initial value has its own record, with that
initial value. -/
def LoweredRecorded (C₀ : Cluster) (w : World) : Prop :=
  ∀ {ns name k c₀ c limit₀ limit}, C₀.container? ns name k = some c₀ →
    w.cluster.container? ns name k = some c → c₀.cpuLimit = some limit₀ →
    c.cpuLimit = some limit → limit < limit₀ →
    ∃ st, w.throttled.lookup (podKey ns name) = some st ∧ st.container = k ∧
      st.originalCPULimit = some limit₀

omit [DecidableEq ι] in
/-- Where no call is in flight, nothing is held but by the records. -/
theorem Recorded.loweredRecorded {C₀ : Cluster} {w : World} {φ : ι → Phase}
    (h : Recorded C₀ w φ) (hφ : ∀ i, (φ i).Final) : LoweredRecorded C₀ w := by
  intro ns name k c₀ c limit₀ limit h₀ hc hl₀ hl hlt
  obtain ⟨c₁, h₁, rfl | ⟨l, q, ⟨hl₁, -, -, -⟩, hheld⟩⟩ := h.container hc
  · obtain rfl := Option.some.inj (h₁.symm.trans h₀)
    obtain rfl := Option.some.inj (hl.symm.trans hl₀)
    exact absurd hlt (lt_irrefl _)
  · obtain rfl := Option.some.inj (h₁.symm.trans h₀)
    obtain rfl := Option.some.inj (hl₁.symm.trans hl₀)
    rcases hheld with hrec | ⟨i, ⟨_, hi⟩ | ⟨_, hi⟩⟩
    · exact hrec
    · exact ((hi ▸ hφ i : Phase.Final (.lowered _ _ _ _ _)) :).elim
    · exact ((hi ▸ hφ i : Phase.Final (.stamped _)) :).elim

/-- In every run of concurrent `Remediate` calls in which no record is written over one
of another container of the pod, each lowered container has its record whenever no call
is in flight. -/
theorem reportsApart_loweredRecorded {r : Remediator} {w : World} {c : State ι}
    (hr : ((reportsApart (ι := ι)).system r).Reachable w.quiet c) (hq : c.Quiet) :
    LoweredRecorded w.cluster c.world :=
  have hinv := (World.invariant_quiet (Recorded.init w)).reachable
    (Recorded.isInductive r w.cluster) hr
  hinv.global.loweredRecorded (hinv.quiet hq)

/-! ## Two containers of one pod -/

/-- Two containers whose limits have room. -/
def twinPod : Pod where
  uid := 1
  containers := [⟨"app", some 100, some 200⟩, ⟨"side", some 300, some 400⟩]
  nodup := by decide

def twinWorld : World := .fresh (Cluster.empty.create "web" "a" webNamed twinPod)

def twinRemediator : Remediator := newRemediator { resize := true }

/-- Both containers are reported, one after the other. -/
def twinReport (container : String) : Call := .report (.ofLabels ["web/a/" ++ container])

/-- The first call records its throttle and returns before the second starts; the second
finds the pod throttled. -/
def twinApart : List (Cmd Bool) :=
  .call true (twinReport "app") :: Cmd.acts true 10 ++
    .move (.tick (5 * minute)) :: .call false (twinReport "side") :: Cmd.acts false 1

/-- The cooldown of the first call has run out before it records its throttle; the second
call throttles the other container and enters its record first. -/
def twinRace : List (Cmd Bool) :=
  .call true (twinReport "app") :: Cmd.acts true 5 ++
    .move (.tick (5 * minute)) :: .call false (twinReport "side") :: Cmd.acts false 10 ++
    Cmd.acts true 5

/-- The run of `twinApart` exists, lowers a limit, and ends with its record. -/
theorem twinApart_loweredRecorded :
    ∃ c : State Bool, (reportsApart.system twinRemediator).Reachable twinWorld.quiet c ∧ c.Quiet ∧
      c.world.cluster.container? "web" "a" "app" = some ⟨"app", some 100, some 100⟩ ∧
      LoweredRecorded twinWorld.cluster c.world := by
  obtain ⟨c, hr, hq, hc⟩ := Scenario.exists_reachable reportsApart twinRemediator
    (fun w φ i e ↦ decide (overwritesNone w φ i e)) (fun _ _ _ _ ↦ of_decide_eq_true) twinApart
    (twinWorld.quiet : State Bool) (fun c ↦ (∀ i, (c.prog i).isPure) ∧
      c.world.cluster.container? "web" "a" "app" = some ⟨"app", some 100, some 100⟩)
    (by decide +kernel)
  have hq := Configuration.quiet_of_isPure hq
  exact ⟨c, hr, hq, hc, reportsApart_loweredRecorded hr hq⟩

/-- After `twinRace` the record of `side` is gone, and its limit stays lowered. -/
theorem twinRace_not_loweredRecorded :
    ¬ ∀ c : State Bool, (reports.system twinRemediator).Reachable twinWorld.quiet c → c.Quiet →
      LoweredRecorded twinWorld.cluster c.world := by
  intro h
  obtain ⟨c, hr, hq, hc, hrec⟩ := Scenario.exists_reachable reports twinRemediator
    (fun _ _ _ _ ↦ true) (fun _ _ _ _ _ ↦ trivial) twinRace (twinWorld.quiet : State Bool)
    (fun c ↦ (∀ i, (c.prog i).isPure) ∧
      c.world.cluster.container? "web" "a" "side" = some ⟨"side", some 300, some 300⟩ ∧
      (c.world.throttled.lookup (podKey "web" "a")).map ThrottleState.container = some "app")
    (by decide +kernel)
  have h₀ : twinWorld.cluster.container? "web" "a" "side" = some ⟨"side", some 300, some 400⟩ := by
    decide +kernel
  obtain ⟨st, hst, hside, -⟩ := h c hr (Configuration.quiet_of_isPure hq) h₀ hc rfl rfl (by decide)
  rw [hst, Option.map_some, hside] at hrec
  exact absurd hrec (by decide)
