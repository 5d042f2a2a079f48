import NodeSentinel.Controller.Phase
import NodeSentinel.Data.AList

/-!
# The transitions of a controller call

One action of a call changes the world and the phase of the call together.  `Trans`
lists the ways in which it can, with the condition of each; `Phase.trans` derives
the list from the effect of the actions (`exec`) and the protocol.  Every invariant
of the controller is proved by cases on `Trans`, so the actions are unfolded once,
here.
-/

/-! ## The effect of an API call -/

/-- An API call is served, or it fails without effect. -/
theorem exec_api {pol : Policy} {w w' : World} {α : Type} {x : Except ApiError α × World}
    {ans : Except ApiError α} :
    (∃ ch : Choice, pol w ch.ok ∧ some (ch.api w x) = some (ans, w')) ↔
      (pol w true ∧ x = (ans, w')) ∨ (pol w false ∧ ans = .error .failed ∧ w' = w) := by
  constructor
  · rintro ⟨⟨ok, due, scan⟩, hp, h⟩
    cases ok with
    | true => exact .inl ⟨hp, by simpa [Choice.api] using h⟩
    | false =>
        refine .inr ⟨hp, ?_⟩
        simp only [Choice.api, Bool.false_eq_true, if_false, Option.some.injEq,
          Prod.mk.injEq] at h
        exact ⟨h.1.symm, h.2.symm⟩
  · rintro (⟨hp, rfl⟩ | ⟨hp, rfl, rfl⟩)
    · exact ⟨{ ok := true }, hp, rfl⟩
    · exact ⟨{ ok := false }, hp, rfl⟩

/-- An action without an API call has its effect whatever the choice is. -/
theorem exec_local {pol : Policy} {w w' : World} {β : Type} {y : β × World} {ans : β}
    (h : ∃ ch : Choice, pol w ch.ok ∧ some y = some (ans, w')) : y = (ans, w') := by
  obtain ⟨_, _, h⟩ := h
  exact Option.some.inj h

section

variable {pol : Policy} {w w' : World}

/-- A pod is read as it is. -/
theorem exec_getPod {ns name : String} {ans : Except ApiError Pod}
    (h : Exec pol (.getPod ns name) w ans w') :
    w' = w ∧ ∀ pod, ans = .ok pod → w.cluster.pod ns name = some pod := by
  rcases exec_api.mp h with ⟨-, h⟩ | ⟨-, rfl, rfl⟩
  · obtain ⟨rfl, rfl⟩ := Prod.mk.inj h
    refine ⟨rfl, fun pod hpod ↦ ?_⟩
    unfold World.getPod at hpod
    split at hpod
    · cases hpod
    · next hp => exact hp.trans (congrArg some (Except.ok.inj hpod))
  · exact ⟨rfl, fun _ he ↦ by cases he⟩

/-- A cooldown is taken where none is under way. -/
theorem exec_takeCooldown {key : String} {now cooldown : Time} {ok : Bool}
    (h : Exec pol (.takeCooldown key now cooldown) w ok w') :
    (ok = false ∧ w' = w) ∨
    (ok = true ∧ (∀ last, w.lastActed key = some last → cooldown ≤ now - last) ∧
      w' = { w with lastActed := Function.update w.lastActed key (some now) }) := by
  replace h := exec_local h
  unfold World.takeCooldown at h
  split at h
  · next last hlast =>
      split at h <;> obtain ⟨rfl, rfl⟩ := Prod.mk.inj h
      · exact .inl ⟨rfl, rfl⟩
      · next hcd =>
          refine .inr ⟨rfl, fun l hl ↦ ?_, rfl⟩
          obtain rfl := Option.some.inj (hlast.symm.trans hl)
          exact not_lt.mp hcd
  · next hlast =>
      obtain ⟨rfl, rfl⟩ := Prod.mk.inj h
      refine .inr ⟨rfl, fun l hl ↦ ?_, rfl⟩
      rw [hlast] at hl
      cases hl

/-- The due records are collected in some order. -/
theorem exec_dueThrottles {now : Time} {due : List ThrottleState}
    (h : Exec pol (.dueThrottles now) w due w') : (due : Multiset _) = w.due now ∧ w' = w := by
  obtain ⟨ch, -, h⟩ := h
  simp only [exec] at h
  split at h
  · next hd =>
      obtain ⟨rfl, rfl⟩ := Prod.mk.inj (Option.some.inj h)
      exact ⟨hd, rfl⟩
  · cases h

/-- The entries of a ledger are taken over in some order. -/
theorem exec_recoverThrottled {cm : ConfigMap} {u : Unit}
    (h : Exec pol (.recoverThrottled cm) w u w') :
    ∃ scan : List (Sigma fun _ : String ↦ Raw), (scan : Multiset _) = cm.data.entries ∧
      w' = { w with throttled := scan.foldl World.recoverEntry w.throttled } := by
  obtain ⟨ch, -, h⟩ := h
  simp only [exec] at h
  split at h
  · next hscan =>
      obtain ⟨-, rfl⟩ := Prod.mk.inj (Option.some.inj h)
      exact ⟨ch.scan, hscan, rfl⟩
  · cases h

/-- The mutex is taken where nobody has it. -/
theorem exec_lockPersist {u : Unit} (h : Exec pol .lockPersist w u w') :
    w.persistMu = false ∧ w' = { w with persistMu := true } := by
  obtain ⟨ch, -, h⟩ := h
  simp only [exec] at h
  split at h
  · cases h
  · next hmu =>
      obtain ⟨-, rfl⟩ := Prod.mk.inj (Option.some.inj h)
      exact ⟨by simpa using hmu, rfl⟩

end

namespace World

/-- The records that are due. -/
theorem mem_due {w : World} {now : Time} {st : ThrottleState} :
    st ∈ w.due now ↔ (∃ k, w.throttled.lookup k = some st) ∧ st.restoreAt < now := by
  rw [due, Multiset.mem_filter, Multiset.mem_map]
  refine and_congr_left fun _ ↦ ⟨?_, ?_⟩
  · rintro ⟨⟨k, st'⟩, hmem, rfl⟩
    exact ⟨k, Finmap.mem_lookup_iff.mpr hmem⟩
  · rintro ⟨k, hk⟩
    exact ⟨⟨k, st⟩, Finmap.mem_lookup_iff.mp hk, rfl⟩

/-- The world after a patch that changes a limit as `x` says. -/
def patch (w : World) (site : PatchSite) (x : LimitChange) : World :=
  { w with
    cluster := w.cluster.setCPULimit x.ns x.pod x.container x.new
    history := site.change x :: w.history }

/-- The change a patch of a container makes. -/
def limitChange (w : World) (ns pod : String) (p : Pod) (c : Container) (q : Quantity) :
    LimitChange := ⟨ns, pod, c.name, p.uid, c.cpuLimit, q, w.clock⟩

/-- What a patch that is served does. -/
theorem patchCPULimit_cases {w w' : World} {site : PatchSite} {ns pod c : String} {cpu : CPUText}
    {ans : Except ApiError Unit} (h : w.patchCPULimit site ns pod c cpu = (ans, w')) :
    (∃ p ct q, w.cluster.pod ns pod = some p ∧ p.container? c = some ct ∧ cpu = some q ∧
      ans = .ok () ∧ w' = w.patch site (w.limitChange ns pod p ct q)) ∨
    (w.cluster.pod ns pod = none ∧ ans = .error .notFound ∧ w' = w) ∨
    (∃ p, w.cluster.pod ns pod = some p ∧ (p.container? c = none ∨ cpu = none) ∧
      ans = .error .failed ∧ w' = w) := by
  unfold patchCPULimit at h
  cases hp : w.cluster.pod ns pod with
  | none =>
      rw [hp] at h
      obtain ⟨rfl, rfl⟩ := Prod.mk.inj h
      exact .inr (.inl ⟨rfl, rfl, rfl⟩)
  | some p =>
      simp only [hp] at h
      cases hc : p.container? c with
      | none =>
          rw [hc] at h
          obtain ⟨rfl, rfl⟩ := Prod.mk.inj h
          exact .inr (.inr ⟨p, rfl, .inl hc, rfl, rfl⟩)
      | some ct =>
          rw [hc] at h
          cases cpu with
          | none =>
              obtain ⟨rfl, rfl⟩ := Prod.mk.inj h
              exact .inr (.inr ⟨p, rfl, .inr rfl, rfl, rfl⟩)
          | some q =>
              obtain ⟨rfl, rfl⟩ := Prod.mk.inj h
              obtain rfl := (Pod.container?_eq_some_iff.mp hc).2
              exact .inl ⟨p, ct, q, rfl, hc, rfl, rfl, rfl⟩

end World

/-! ## Transitions -/

open Phase

/-- One action of a call, with its effect on the world and on the phase. -/
inductive Phase.Trans (r : Remediator) (pol : Policy) (w : World) :
    Phase → Act → World → Phase → Prop
  /-- A reading that decides nothing, or a call that fails and leaves the call where it is. -/
  | stay (φ : Phase) (e : Act) : Trans r pol w φ e w φ
  | clearCooldown (φ : Phase) (key : String) :
      Trans r pol w φ (.clearCooldown key)
        { w with lastActed := Function.update w.lastActed key none } φ
  | event (φ : Phase) (ev : Event)
      (h : φ = announcing ∨ (∃ st rest, φ = restored true st rest) ∨ r.cfg.dryRun = false) :
      Trans r pol w φ (.createEvent ev) (w.createEvent ev) φ
  /-- The target is in cooldown, or throttled. -/
  | skip {φ : Phase} (e : Act) (h : φ.Free) : Trans r pol w φ e w idle
  | unthrottled {φ : Phase} (key : String) (h : φ.Free) (hk : w.throttled.lookup key = none) :
      Trans r pol w φ (.isThrottled key) w (unthrottled key)
  | cooldown (key : String) (now : Time)
      (h : ∀ last, w.lastActed key = some last → r.cfg.cooldown ≤ now - last) :
      Trans r pol w (unthrottled key) (.takeCooldown key now r.cfg.cooldown)
        { w with lastActed := Function.update w.lastActed key (some now) } (acting key)
  | read {φ : Phase} {ns name : String} {p : Pod}
      (h : φ = acting (podKey ns name) ∨ ∃ p, φ = read ns name p)
      (hp : w.cluster.pod ns name = some p) :
      Trans r pol w φ (.getPod ns name) w (read ns name p)
  /-- `throttle` lowers the limit. -/
  | lower {ns name : String} {p p' : Pod} {c : Container} {limit request : Quantity}
      (hpol : pol w true) (hres : r.cfg.resize = true) (hdry : r.cfg.dryRun = false)
      (hns : r.allows ns = true) (hroom : p.room c.name = some (limit, request))
      (hp : w.cluster.pod ns name = some p') (hc : p'.container? c.name = some c) :
      Trans r pol w (read ns name p) (.patchCPULimit .throttle ns name c.name (some request))
        (w.patch .throttle (w.limitChange ns name p' c request))
        (lowered ns name c.name limit request)
  | stamp (ns pod c : String) (orig request : Quantity) :
      Trans r pol w (lowered ns pod c orig request) .now w
        (stamped ⟨ns, pod, c, some orig, w.clock + r.cfg.restoreAfter⟩)
  | record (st : ThrottleState) :
      Trans r pol w (stamped st) (.setThrottled st.key st)
        { w with throttled := w.throttled.insert st.key st, history := .recorded st :: w.history }
        (if r.stateNS = "" then announcing else ledger .waiting st.key (some st) [])
  | sweep : Trans r pol w waking .now w (sweeping w.clock)
  | collect {now : Time} {due : List ThrottleState} (h : (due : Multiset _) = w.due now) :
      Trans r pol w (sweeping now) (.dueThrottles now) w (restoring due)
  /-- `restore` puts the limit back. -/
  | lift {st : ThrottleState} {rest : List ThrottleState} {p : Pod} {c : Container} {q : Quantity}
      (hpol : pol w true) (hp : w.cluster.pod st.ns st.pod = some p)
      (hc : p.container? st.container = some c) (hq : st.originalCPULimit = some q) :
      Trans r pol w (restoring (st :: rest))
        (.patchCPULimit (.restore st) st.ns st.pod st.container (some q))
        (w.patch (.restore st) (w.limitChange st.ns st.pod p c q)) (restored true st rest)
  | gone {st : ThrottleState} {rest : List ThrottleState} (e : Act) (hpol : pol w true)
      (hp : w.cluster.pod st.ns st.pod = none) :
      Trans r pol w (restoring (st :: rest)) e w (restored false st rest)
  /-- The restore fails; its record is kept. -/
  | keep {st : ThrottleState} {rest : List ThrottleState} (e : Act)
      (h : pol w false ∨ ∃ p, w.cluster.pod st.ns st.pod = some p ∧
        (p.container? st.container = none ∨ st.originalCPULimit = none)) :
      Trans r pol w (restoring (st :: rest)) e w (restoring rest)
  | drop (l : Bool) (st : ThrottleState) (rest : List ThrottleState) :
      Trans r pol w (restored l st rest) (.deleteThrottled st.key)
        { w with throttled := w.throttled.erase st.key }
        (if r.stateNS = "" then restoring rest else ledger .waiting st.key none rest)
  | lock (k : String) (v : Option ThrottleState) (rest : List ThrottleState)
      (h : w.persistMu = false) :
      Trans r pol w (ledger .waiting k v rest) .lockPersist { w with persistMu := true }
        (ledger .locked k v rest)
  | load {stage : Stage} {k : String} {v : Option ThrottleState} {rest : List ThrottleState}
      {cm : ConfigMap} (e : Act) (hpol : pol w true) (hs : stage = .locked ∨ stage = .rereading)
      (h : w.configMap r.stateNS = some cm) :
      Trans r pol w (ledger stage k v rest) e w (ledger (.loaded cm) k v rest)
  | miss {k : String} {v : Option ThrottleState} {rest : List ThrottleState} (e : Act)
      (h : w.configMap r.stateNS = none) :
      Trans r pol w (ledger .locked k v rest) e w (ledger .creating k v rest)
  | create {k : String} {v : Option ThrottleState} {rest : List ThrottleState} (e : Act)
      (hpol : pol w true) (h : w.configMap r.stateNS = none) :
      Trans r pol w (ledger .creating k v rest) e
        { w with configMap := Function.update w.configMap r.stateNS (some ⟨∅⟩) }
        (ledger (.loaded ⟨∅⟩) k v rest)
  | race {k : String} {v : Option ThrottleState} {rest : List ThrottleState} (e : Act)
      (h : w.configMap r.stateNS ≠ none) :
      Trans r pol w (ledger .creating k v rest) e w (ledger .rereading k v rest)
  /-- The ledger cannot be fetched; the section is given up. -/
  | abandon {stage : Stage} {k : String} {v : Option ThrottleState} {rest : List ThrottleState}
      (e : Act) (hs : stage = .locked ∨ stage = .creating ∨ stage = .rereading)
      (h : pol w false ∨ (stage = .rereading ∧ w.configMap r.stateNS = none)) :
      Trans r pol w (ledger stage k v rest) e w (ledger .leaving k v rest)
  /-- The section writes the ledger back. -/
  | write {cm cm₀ : ConfigMap} {k : String} {v : Option ThrottleState} {rest : List ThrottleState}
      (hpol : pol w true) (h : w.configMap r.stateNS = some cm₀)
      (hk : v = none → cmKey k ∈ cm.data) :
      Trans r pol w (ledger (.loaded cm) k v rest) (.updateConfigMap r.stateNS (cm.edit k v))
        { w with configMap := Function.update w.configMap r.stateNS (some (cm.edit k v)) }
        (ledger .leaving k v rest)
  | writeFails {cm : ConfigMap} {k : String} {v : Option ThrottleState}
      {rest : List ThrottleState} (e : Act) (h : pol w false ∨ w.configMap r.stateNS = none) :
      Trans r pol w (ledger (.loaded cm) k v rest) e w (ledger .leaving k v rest)
  | unlock {stage : Stage} {k : String} {v : Option ThrottleState} {rest : List ThrottleState}
      (h : stage = .leaving ∨ ∃ cm, stage = .loaded cm ∧ v = none ∧ cmKey k ∉ cm.data) :
      Trans r pol w (ledger stage k v rest) .unlockPersist { w with persistMu := false }
        (afterLedger v rest)
  | begin {cm : ConfigMap} (e : Act) (hpol : pol w true) (h : w.configMap r.stateNS = some cm) :
      Trans r pol w starting e w (recovering cm)
  | begin_none (e : Act) (h : pol w false ∨ w.configMap r.stateNS = none) :
      Trans r pol w starting e w idle
  | recover {cm : ConfigMap} {scan : List (Sigma fun _ : String ↦ Raw)}
      (h : (scan : Multiset _) = cm.data.entries) :
      Trans r pol w (recovering cm) (.recoverThrottled cm)
        { w with throttled := scan.foldl World.recoverEntry w.throttled } idle

namespace Phase

variable {r : Remediator} {pol : Policy} {w w' : World} {φ : Phase}

private theorem trans_getPod {ns name : String} {ans : Except ApiError Pod}
    (ha : allowed r φ (.getPod ns name)) (hx : Exec pol (.getPod ns name) w ans w') :
    Trans r pol w φ (.getPod ns name) w' (next r φ (.getPod ns name) ans) := by
  have key : (∃ err, ans = .error err) ∨ (∃ p, ans = .ok p ∧ w.cluster.pod ns name = some p) := by
    rcases exec_api.mp hx with ⟨-, h⟩ | ⟨-, rfl, -⟩
    · obtain ⟨rfl, rfl⟩ := Prod.mk.inj h
      cases hp : w.cluster.pod ns name with
      | none => exact .inl ⟨.notFound, by simp [World.getPod, hp]⟩
      | some p => exact .inr ⟨p, by simp [World.getPod, hp], rfl⟩
    · exact .inl ⟨_, rfl⟩
  have hw : w' = w := by
    rcases exec_api.mp hx with ⟨-, h⟩ | ⟨-, -, rfl⟩
    · exact (Prod.mk.inj h).2.symm
    · rfl
  subst hw
  rcases key with ⟨err, rfl⟩ | ⟨p, rfl, hp⟩
  · have : next r φ (.getPod ns name) (.error err) = φ := by cases φ <;> rfl
    rw [this]
    exact .stay _ _
  · rcases ha with rfl | rfl | rfl | ⟨p₀, rfl⟩ | ⟨st, rest, rfl⟩
    · exact .stay _ _
    · exact .stay _ _
    · exact .read (.inl rfl) hp
    · exact .read (.inr ⟨p₀, rfl⟩) hp
    · exact .stay _ _

private theorem trans_patch {site : PatchSite} {ns pod c : String} {cpu : CPUText}
    {ans : Except ApiError Unit} (ha : allowed r φ (.patchCPULimit site ns pod c cpu))
    (hx : Exec pol (.patchCPULimit site ns pod c cpu) w ans w') :
    Trans r pol w φ (.patchCPULimit site ns pod c cpu) w'
      (next r φ (.patchCPULimit site ns pod c cpu) ans) := by
  cases site with
  | throttle =>
      obtain ⟨p, limit, request, rfl, hroom, rfl, hres, hdry, hns⟩ := ha
      rcases exec_api.mp hx with ⟨hpol, h⟩ | ⟨-, rfl, rfl⟩
      · rcases World.patchCPULimit_cases h with
          ⟨p', ct, q, hp, hc, hq, rfl, rfl⟩ | ⟨-, rfl, rfl⟩ | ⟨p', -, -, rfl, rfl⟩
        · obtain rfl := (Pod.container?_eq_some_iff.mp hc).2
          obtain rfl : request = q := Option.some.inj hq
          have : next r (read ns pod p) (.patchCPULimit .throttle ns pod ct.name (some request))
              (.ok ()) = lowered ns pod ct.name limit request := by simp [next, hroom]
          rw [this]
          exact .lower hpol hres hdry hns hroom hp hc
        · exact .stay _ _
        · exact .stay _ _
      · exact .stay _ _
  | restore st =>
      obtain ⟨rest, rfl, rfl, rfl, rfl, rfl⟩ := ha
      rcases exec_api.mp hx with ⟨hpol, h⟩ | ⟨hpol, rfl, rfl⟩
      · rcases World.patchCPULimit_cases h with
          ⟨p, ct, q, hp, hc, hq, rfl, rfl⟩ | ⟨hp, rfl, rfl⟩ | ⟨p, hp, hf, rfl, rfl⟩
        · rw [hq]
          exact .lift hpol hp hc hq
        · exact .gone _ hpol hp
        · exact .keep _ (.inr ⟨p, hp, hf⟩)
      · exact .keep _ (.inl hpol)

private theorem trans_getConfigMap {ns : String} {ans : Except ApiError ConfigMap}
    (ha : allowed r φ (.getConfigMap ns)) (hx : Exec pol (.getConfigMap ns) w ans w') :
    Trans r pol w φ (.getConfigMap ns) w' (next r φ (.getConfigMap ns) ans) := by
  obtain ⟨rfl, ha⟩ := ha
  rcases exec_api.mp hx with ⟨hpol, h⟩ | ⟨hpol, rfl, rfl⟩
  · obtain ⟨rfl, rfl⟩ := Prod.mk.inj h
    cases hcm : w.configMap r.stateNS with
    | none =>
        rw [World.getConfigMap, hcm]
        rcases ha with rfl | ⟨k, v, rest, rfl⟩ | ⟨k, v, rest, rfl⟩
        · exact .begin_none _ (.inr hcm)
        · exact .miss _ hcm
        · exact .abandon _ (.inr (.inr rfl)) (.inr ⟨rfl, hcm⟩)
    | some cm =>
        rw [World.getConfigMap, hcm]
        rcases ha with rfl | ⟨k, v, rest, rfl⟩ | ⟨k, v, rest, rfl⟩
        · exact .begin _ hpol hcm
        · exact .load _ hpol (.inl rfl) hcm
        · exact .load _ hpol (.inr rfl) hcm
  · rcases ha with rfl | ⟨k, v, rest, rfl⟩ | ⟨k, v, rest, rfl⟩
    · exact .begin_none _ (.inl hpol)
    · exact .abandon _ (.inl rfl) (.inl hpol)
    · exact .abandon _ (.inr (.inr rfl)) (.inl hpol)

private theorem trans_createConfigMap {ns : String} {ans : Except ApiError ConfigMap}
    (ha : allowed r φ (.createConfigMap ns)) (hx : Exec pol (.createConfigMap ns) w ans w') :
    Trans r pol w φ (.createConfigMap ns) w' (next r φ (.createConfigMap ns) ans) := by
  obtain ⟨rfl, k, v, rest, rfl⟩ := ha
  rcases exec_api.mp hx with ⟨hpol, h⟩ | ⟨hpol, rfl, rfl⟩
  · cases hcm : w.configMap r.stateNS with
    | none =>
        rw [World.createConfigMap, hcm] at h
        obtain ⟨rfl, rfl⟩ := Prod.mk.inj h
        exact .create _ hpol hcm
    | some cm =>
        rw [World.createConfigMap, hcm] at h
        obtain ⟨rfl, rfl⟩ := Prod.mk.inj h
        exact .race _ (by simp [hcm])
  · exact .abandon _ (.inr (.inl rfl)) (.inl hpol)

private theorem trans_updateConfigMap {ns : String} {cm : ConfigMap} {ans : Except ApiError Unit}
    (ha : allowed r φ (.updateConfigMap ns cm)) (hx : Exec pol (.updateConfigMap ns cm) w ans w') :
    Trans r pol w φ (.updateConfigMap ns cm) w' (next r φ (.updateConfigMap ns cm) ans) := by
  obtain ⟨rfl, cm, k, v, rest, rfl, rfl, hk⟩ := ha
  rcases exec_api.mp hx with ⟨hpol, h⟩ | ⟨hpol, rfl, rfl⟩
  · cases hcm : w.configMap r.stateNS with
    | none =>
        rw [World.updateConfigMap, hcm] at h
        obtain ⟨rfl, rfl⟩ := Prod.mk.inj h
        exact .writeFails _ (.inr hcm)
    | some cm₀ =>
        rw [World.updateConfigMap, hcm] at h
        obtain ⟨rfl, rfl⟩ := Prod.mk.inj h
        exact .write hpol hcm hk
  · exact .writeFails _ (.inl hpol)

private theorem trans_takeCooldown {key : String} {now cd : Time} {ans : Bool}
    (ha : allowed r φ (.takeCooldown key now cd)) (hx : Exec pol (.takeCooldown key now cd) w ans w') :
    Trans r pol w φ (.takeCooldown key now cd) w' (next r φ (.takeCooldown key now cd) ans) := by
  obtain ⟨rfl, rfl⟩ := ha
  rcases exec_takeCooldown hx with ⟨rfl, rfl⟩ | ⟨rfl, hcd, rfl⟩
  · exact .skip _ trivial
  · exact .cooldown _ _ hcd

/-- Every action a call takes is one of the transitions. -/
theorem trans {e : Act} {ans : Resp e} (ha : allowed r φ e) (hx : Exec pol e w ans w') :
    Trans r pol w φ e w' (next r φ e ans) := by
  cases e with
  | getPod ns name => exact trans_getPod ha hx
  | patchCPULimit site ns pod c cpu => exact trans_patch ha hx
  | createEvent ev =>
      rcases exec_api.mp hx with ⟨-, h⟩ | ⟨-, rfl, rfl⟩
      · obtain ⟨-, rfl⟩ := Prod.mk.inj h
        exact .event _ _ (ha.imp id (Or.imp id And.left))
      · exact .stay _ _
  | getConfigMap ns => exact trans_getConfigMap ha hx
  | createConfigMap ns => exact trans_createConfigMap ha hx
  | updateConfigMap ns cm => exact trans_updateConfigMap ha hx
  | now =>
      obtain ⟨rfl, rfl⟩ := Prod.mk.inj (exec_local hx)
      rcases ha with rfl | ⟨_, rfl⟩ | ⟨_, rfl⟩ | ⟨_, _, _, rfl⟩ | rfl | ⟨_, _, rfl⟩ |
        ⟨_, _, _, _, _, rfl⟩
      · exact .sweep
      · exact .stay _ _
      · exact .stay _ _
      · exact .stay _ _
      · exact .stay _ _
      · exact .stay _ _
      · exact .stamp _ _ _ _ _
  | isThrottled key =>
      obtain ⟨rfl, rfl⟩ := Prod.mk.inj (exec_local hx)
      cases hk : w.throttled.lookup key with
      | none => simpa [next] using Trans.unthrottled key ha hk
      | some st => simpa [next] using Trans.skip _ ha
  | takeCooldown key now cd => exact trans_takeCooldown ha hx
  | clearCooldown key =>
      obtain ⟨-, rfl⟩ := Prod.mk.inj (exec_local hx)
      exact .clearCooldown _ _
  | setThrottled key st =>
      obtain ⟨rfl, rfl⟩ := ha
      obtain ⟨-, rfl⟩ := Prod.mk.inj (exec_local hx)
      exact .record _
  | deleteThrottled key =>
      obtain ⟨_, st, rest, rfl, rfl⟩ := ha
      obtain ⟨-, rfl⟩ := Prod.mk.inj (exec_local hx)
      exact .drop _ _ _
  | dueThrottles now =>
      obtain rfl : φ = sweeping now := ha
      obtain ⟨hdue, rfl⟩ := exec_dueThrottles hx
      exact .collect hdue
  | recoverThrottled cm =>
      obtain rfl : φ = recovering cm := ha
      obtain ⟨scan, hscan, rfl⟩ := exec_recoverThrottled hx
      exact .recover hscan
  | lockPersist =>
      obtain ⟨k, v, rest, rfl⟩ := ha
      obtain ⟨hmu, rfl⟩ := exec_lockPersist hx
      exact .lock _ _ _ hmu
  | unlockPersist =>
      obtain ⟨-, rfl⟩ := Prod.mk.inj (exec_local hx)
      obtain ⟨k, v, rest, rfl | ⟨cm, rfl, rfl, hk⟩⟩ := ha
      · exact .unlock (.inl rfl)
      · exact .unlock (.inr ⟨cm, rfl, rfl, hk⟩)

/-- A transition is also one under a policy that admits more. -/
theorem Trans.mono {pol' : Policy} {e : Act} {ψ : Phase} (ht : Trans r pol w φ e w' ψ)
    (h : ∀ ok, pol w ok → pol' w ok) : Trans r pol' w φ e w' ψ := by
  cases ht with
  | stay => exact .stay _ _
  | clearCooldown => exact .clearCooldown _ _
  | event _ _ h' => exact .event _ _ h'
  | skip _ hf => exact .skip _ hf
  | unthrottled _ hf hk => exact .unthrottled _ hf hk
  | cooldown _ _ h' => exact .cooldown _ _ h'
  | read hat hp => exact .read hat hp
  | lower hpol hres hdry hns hroom hp hc => exact .lower (h _ hpol) hres hdry hns hroom hp hc
  | stamp => exact .stamp _ _ _ _ _
  | record => exact .record _
  | sweep => exact .sweep
  | collect hd => exact .collect hd
  | lift hpol hp hc hq => exact .lift (h _ hpol) hp hc hq
  | gone _ hpol hp => exact .gone _ (h _ hpol) hp
  | keep _ h' => exact .keep _ (h'.imp_left (h _))
  | drop => exact .drop _ _ _
  | lock _ _ _ h' => exact .lock _ _ _ h'
  | load _ hpol hs h' => exact .load _ (h _ hpol) hs h'
  | miss _ h' => exact .miss _ h'
  | create _ hpol h' => exact .create _ (h _ hpol) h'
  | race _ h' => exact .race _ h'
  | abandon _ hs h' => exact .abandon _ hs (h'.imp_left (h _))
  | write hpol h' hk => exact .write (h _ hpol) h' hk
  | writeFails _ h' => exact .writeFails _ (h'.imp_left (h _))
  | unlock h' => exact .unlock h'
  | begin _ hpol h' => exact .begin _ (h _ hpol) h'
  | begin_none _ h' => exact .begin_none _ (h'.imp_left (h _))
  | recover h' => exact .recover h'

end Phase
