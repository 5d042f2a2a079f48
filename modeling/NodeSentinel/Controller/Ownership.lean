import NodeSentinel.Controller.Ledger

/-!
# What a restore touches

Any number of calls, any API failures, crashes and other actors: pods deleted and
created again under the same name, limits edited.  A record names a container and
carries neither the UID of its pod nor the limit the throttle set, so a restore is sure
of one thing only: a controller has throttled a container of that name before.  Whether
it still is the throttled instance depends on what happened in between; `lastChange`
reads that off the history.
-/

open Function (update)

universe u

/-! ## Reading the history -/

/-- The change is about the CPU limit of a container, or replaces its pod. -/
def Change.about (ns pod k : String) : Change → Bool
  | throttled x | restored _ x | edited x => x.ns = ns ∧ x.pod = pod ∧ x.container = k
  | replaced ns' pod' => ns' = ns ∧ pod' = pod
  | recorded _ => false

/-- The last change of a container's limit or of its pod. -/
def lastChange (ns pod k : String) (h : List Change) : Option Change :=
  h.find? (Change.about ns pod k)

/-- A controller has throttled a container of that name. -/
def WasThrottled (h : List Change) (ns pod k : String) : Prop :=
  ∃ y, .throttled y ∈ h ∧ y.ns = ns ∧ y.pod = pod ∧ y.container = k

/-- What is certain of a restore: the container of that name was throttled before; and if
that was the last change of its limit and of its pod, then it is the throttled instance
and still carries the throttled limit. -/
def Owned (h : List Change) (x : LimitChange) : Prop :=
  WasThrottled h x.ns x.pod x.container ∧
    ∀ y, lastChange x.ns x.pod x.container h = some (.throttled y) →
      x.uid = y.uid ∧ x.old = some y.new

theorem WasThrottled.mono {h h' : List Change} {ns pod k : String} (ht : WasThrottled h ns pod k)
    (hsub : ∀ {x}, x ∈ h → x ∈ h') : WasThrottled h' ns pod k := by
  obtain ⟨y, hy, hrest⟩ := ht
  exact ⟨y, hsub hy, hrest⟩

/-- The record's container was throttled. -/
def ThrottleState.Earned (st : ThrottleState) (w : World) : Prop :=
  WasThrottled w.history st.ns st.pod st.container

/-- The texts only read back as records of containers that were throttled. -/
def ConfigMap.Earned (cm : ConfigMap) (w : World) : Prop :=
  ∀ key raw st, cm.data.lookup key = some raw → raw.record = some st → st.Earned w

/-- The text of a record reads back as nothing else. -/
theorem ThrottleState.eq_of_record_raw {st st' : ThrottleState} (h : st.raw.record = some st') :
    st' = st := by
  unfold Raw.record at h
  split at h
  · cases h
  · next p hp =>
      split at h
      · cases h
      · have hraw := (Raw.unmarshal_eq_some.mp hp).2
        by_cases hr : st.restoreAt.InJSONRange
        · have hp' : st.raw.unmarshal = some st.persisted := unmarshal_eq_some.mpr ⟨hr, rfl⟩
          rw [hp'] at hp
          obtain rfl := Option.some.inj hp
          exact (Option.some.inj h).symm
        · simp [raw, Raw.marshal, persisted, hr, Raw.unmarshal] at hp

namespace Phase

/-- Every record a call handles was earned. -/
def Earned (w : World) : Phase → Prop
  | lowered ns pod k _ _ => WasThrottled w.history ns pod k
  | stamped st => st.Earned w
  | restoring rest => ∀ st ∈ rest, st.Earned w
  | restored _ _ rest => ∀ st ∈ rest, st.Earned w
  | ledger stage _ v rest => (∀ st ∈ v, st.Earned w) ∧ (∀ st ∈ rest, st.Earned w) ∧
      ∀ cm, stage = .loaded cm → cm.Earned w
  | recovering cm => cm.Earned w
  | _ => True

variable {s : Phase} {w w' : World}

theorem Earned.mono (h : s.Earned w) (hH : ∀ {x}, x ∈ w.history → x ∈ w'.history) :
    s.Earned w' := by
  have hst : ∀ {st : ThrottleState}, st.Earned w → st.Earned w' := fun h ↦ h.mono hH
  cases s with
  | lowered => exact WasThrottled.mono h hH
  | stamped => exact hst h
  | restoring => exact fun st hst' ↦ hst (h st hst')
  | restored => exact fun st hst' ↦ hst (h st hst')
  | ledger =>
      exact ⟨fun st hst' ↦ hst (h.1 st hst'), fun st hst' ↦ hst (h.2.1 st hst'),
        fun cm hcm key raw st hl hr ↦ hst (h.2.2 cm hcm key raw st hl hr)⟩
  | recovering cm => exact fun key raw st hl hr ↦ hst (h key raw st hl hr)
  | _ => trivial

end Phase

/-! ## The invariant -/

variable {ι : Type u} [DecidableEq ι]

/-- Every record, wherever it is, was earned; the history tells the instance and limit of
a container that was throttled last; and every restore so far was owned. -/
structure Ownership (r : Remediator) (w : World) (φ : ι → Phase) : Prop where
  records : ∀ {k st}, w.throttled.lookup k = some st → st.Earned w
  ledger : ConfigMap.Earned ⟨w.ledger r⟩ w
  phases : ∀ i, (φ i).Earned w
  last : ∀ {ns pod k y}, lastChange ns pod k w.history = some (.throttled y) →
    ∃ p c, w.cluster.pod ns pod = some p ∧ p.container? k = some c ∧ p.uid = y.uid ∧
      c.cpuLimit = some y.new
  owned : ∀ {h₁ h₂ st x}, w.history = h₁ ++ .restored st x :: h₂ → Owned h₂ x

namespace Ownership

variable {r : Remediator} {w w' : World} {φ : ι → Phase} {i : ι} {ψ : Phase}

/-- Transitions that change neither the cluster nor the history. -/
theorem move (h : Ownership r w φ) (hC : w'.cluster = w.cluster) (hH : w'.history = w.history)
    (hT : ∀ {k st}, w'.throttled.lookup k = some st → st.Earned w)
    (hL : ConfigMap.Earned ⟨w'.ledger r⟩ w) (hψ : ψ.Earned w) :
    Ownership r w' (update φ i ψ) := by
  have hmono : ∀ {s : Phase}, s.Earned w → s.Earned w' := fun h ↦ h.mono fun hx ↦ hH ▸ hx
  refine ⟨fun hk ↦ (hT hk).mono fun hx ↦ hH ▸ hx,
    fun key raw st hl hr ↦ (hL key raw st hl hr).mono fun hx ↦ hH ▸ hx,
    (Function.forall_update_iff φ fun _ s ↦ s.Earned w').mpr
      ⟨hmono hψ, fun j _ ↦ hmono (h.phases j)⟩, ?_, ?_⟩
  · rw [hH, hC]; exact h.last
  · rw [hH]; exact h.owned

omit [DecidableEq ι] in
/-- The history grows by a change that is no restore, or an owned one. -/
theorem owned_cons (h : Ownership r w φ) {x : Change}
    (hx : ∀ st y, x = .restored st y → Owned w.history y) {h₁ h₂ st y}
    (he : x :: w.history = h₁ ++ .restored st y :: h₂) : Owned h₂ y := by
  cases h₁ with
  | nil =>
      obtain ⟨rfl, rfl⟩ := List.cons.inj he
      exact hx st y rfl
  | cons z h₁ => exact h.owned (List.cons.inj he).2

omit [DecidableEq ι] in
/-- The limit of a container is set, and the change `z` logged. -/
theorem last_set (h : Ownership r w φ) {ns name : String} {p : Pod} {c : Container} {q : Quantity}
    (hp : w.cluster.pod ns name = some p) (hc : p.container? c.name = some c) {z : Change}
    (hz : ∀ {a b k}, z.about a b k = decide (ns = a ∧ name = b ∧ c.name = k))
    (hzy : ∀ {y}, z = .throttled y → y.uid = p.uid ∧ y.new = q) {a b k : String} {y : LimitChange}
    (hl : lastChange a b k (z :: w.history) = some (.throttled y)) :
    ∃ p' c', (w.cluster.setCPULimit ns name c.name q).pod a b = some p' ∧
      p'.container? k = some c' ∧ p'.uid = y.uid ∧ c'.cpuLimit = some y.new := by
  rw [lastChange, List.find?_cons, hz] at hl
  rw [Cluster.pod_setCPULimit]
  by_cases he : ns = a ∧ name = b ∧ c.name = k
  · obtain ⟨rfl, rfl, rfl⟩ := he
    simp only [and_self, decide_true] at hl
    obtain ⟨huid, rfl⟩ := hzy (Option.some.inj hl)
    refine ⟨p.setCPULimit c.name y.new, { c with cpuLimit := some y.new }, by simp [hp], ?_,
      huid.symm, rfl⟩
    simp [Pod.container?_setCPULimit, hc, Container.setCPULimit]
  · simp only [he, decide_false] at hl
    obtain ⟨p', c', hp', hc', huid, hlim⟩ := h.last hl
    by_cases hpod : a = ns ∧ b = name
    · obtain ⟨rfl, rfl⟩ := hpod
      have hk : c'.name ≠ c.name := fun hk ↦
        he ⟨rfl, rfl, hk.symm.trans (Pod.container?_eq_some_iff.mp hc').2⟩
      refine ⟨p'.setCPULimit c.name q, c', by simp [hp'], ?_, huid, hlim⟩
      rw [Pod.container?_setCPULimit, hc', Option.map_some, Container.setCPULimit_of_ne hk]
    · exact ⟨p', c', by simp [hpod, hp'], hc', huid, hlim⟩

omit [DecidableEq ι] in
/-- A pod is deleted or created. -/
theorem last_replaced (h : Ownership r w φ) {ns name : String} {C : Cluster}
    (hC : ∀ {a b}, ¬ (ns = a ∧ name = b) → C.pod a b = w.cluster.pod a b) {a b k : String}
    {y : LimitChange} (hl : lastChange a b k (.replaced ns name :: w.history) = some (.throttled y)) :
    ∃ p' c', C.pod a b = some p' ∧ p'.container? k = some c' ∧ p'.uid = y.uid ∧
      c'.cpuLimit = some y.new := by
  rw [lastChange, List.find?_cons] at hl
  by_cases he : ns = a ∧ name = b
  · simp [Change.about, he] at hl
  · simp only [Change.about, he, decide_false] at hl
    obtain ⟨p', c', hp', hrest⟩ := h.last hl
    exact ⟨p', c', (hC he).trans hp', hrest⟩

/-- A patch changes the cluster and the history only. -/
theorem patch (h : Ownership r w φ) {site : PatchSite} {ns name : String} {p : Pod}
    {c : Container} {q : Quantity} (hp : w.cluster.pod ns name = some p)
    (hc : p.container? c.name = some c)
    (hown : ∀ st, site = .restore st → Owned w.history (w.limitChange ns name p c q))
    (hψ : ψ.Earned (w.patch site (w.limitChange ns name p c q))) :
    Ownership r (w.patch site (w.limitChange ns name p c q)) (update φ i ψ) := by
  have hsub : ∀ {x}, x ∈ w.history →
      x ∈ (w.patch site (w.limitChange ns name p c q)).history := .tail _
  refine ⟨fun hk ↦ (h.records hk).mono hsub,
    fun key raw st hl hr ↦ (h.ledger key raw st hl hr).mono hsub,
    (Function.forall_update_iff φ fun _ s ↦ s.Earned _).mpr
      ⟨hψ, fun j _ ↦ (h.phases j).mono hsub⟩, ?_, ?_⟩
  · refine h.last_set hp hc (by cases site <;> exact rfl) fun {y} hy ↦ ?_
    cases site with
    | throttle => obtain rfl := Change.throttled.inj hy; exact ⟨rfl, rfl⟩
    | restore st => cases hy
  · refine h.owned_cons fun st y he ↦ ?_
    cases site with
    | throttle => cases he
    | restore st' =>
        obtain ⟨-, rfl⟩ := Change.restored.inj he
        exact hown st' rfl

omit [DecidableEq ι] in
/-- The ledger as it is fetched. -/
theorem earned_configMap (h : Ownership r w φ) {cm : ConfigMap}
    (hcm : w.configMap r.stateNS = some cm) : cm.Earned w := fun key raw st hl hr ↦
  h.ledger key raw st (World.ledger_of_eq hcm ▸ hl) hr

/-- A restore is owned: its record was earned, and the history is right about the
container. -/
theorem lift (h : Ownership r w φ) {st : ThrottleState} {rest : List ThrottleState} {p : Pod}
    {c : Container} {q : Quantity} (hφ : φ i = .restoring (st :: rest))
    (hp : w.cluster.pod st.ns st.pod = some p) (hc : p.container? st.container = some c) :
    Ownership r (w.patch (.restore st) (w.limitChange st.ns st.pod p c q))
      (update φ i (.restored true st rest)) := by
  have hi := h.phases i
  rw [hφ] at hi
  have hname : c.name = st.container := (Pod.container?_eq_some_iff.mp hc).2
  refine h.patch hp (hname.symm ▸ hc) (fun _ _ ↦ ⟨?_, fun y hy ↦ ?_⟩)
    fun st' hst' ↦ (hi st' (.tail _ hst')).mono (.tail _)
  · change WasThrottled w.history st.ns st.pod c.name
    rw [hname]
    exact hi st (.head _)
  · obtain ⟨p', c', hp', hc', huid, hlim⟩ := h.last hy
    obtain rfl := Option.some.inj (hp.symm.trans hp')
    change p.container? c.name = some c' at hc'
    rw [hname, hc, Option.some.injEq] at hc'
    subst hc'
    exact ⟨huid, hlim⟩

/-- Every transition keeps the restores owned. -/
theorem act (h : Ownership r w φ) {pol : Policy} {e : Act} {s : Phase} (hφ : φ i = s)
    (hx : Phase.Trans r pol w s e w' ψ) : Ownership r w' (update φ i ψ) := by
  have hi := h.phases i
  rw [hφ] at hi
  cases hx with
  | stay | clearCooldown | event => exact h.move rfl rfl h.records h.ledger hi
  | skip | unthrottled | cooldown | read => exact h.move rfl rfl h.records h.ledger trivial
  | lower _ _ _ _ _ hp hc => exact h.patch hp hc (fun _ he ↦ nomatch he) ⟨_, .head _, rfl, rfl, rfl⟩
  | stamp => exact h.move rfl rfl h.records h.ledger hi
  | record st =>
      have hsub : ∀ {x}, x ∈ w.history → x ∈ Change.recorded st :: w.history := .tail _
      refine ⟨fun {k st'} hk ↦ ?_, fun key raw st' hl hr ↦ (h.ledger key raw st' hl hr).mono hsub,
        (Function.forall_update_iff φ fun _ s ↦ s.Earned _).mpr
          ⟨?_, fun j _ ↦ (h.phases j).mono hsub⟩, h.last,
        h.owned_cons (by rintro _ _ ⟨⟩)⟩
      · rcases Finmap.lookup_insert_eq_some hk with ⟨-, rfl⟩ | ⟨-, hk⟩
        · exact WasThrottled.mono hi hsub
        · exact (h.records hk).mono hsub
      · split
        · trivial
        · refine ⟨?_, nofun, nofun⟩
          rintro _ ⟨⟩
          exact WasThrottled.mono hi hsub
  | sweep => exact h.move rfl rfl h.records h.ledger trivial
  | collect hd =>
      refine h.move rfl rfl h.records h.ledger fun st hst ↦ ?_
      obtain ⟨⟨k, hk⟩, -⟩ := World.mem_due.mp (hd ▸ Multiset.mem_coe.mpr hst)
      exact h.records hk
  | lift _ hp hc _ => exact h.lift hφ hp hc
  | gone => exact h.move rfl rfl h.records h.ledger fun st hst ↦ hi st (.tail _ hst)
  | keep => exact h.move rfl rfl h.records h.ledger fun st hst ↦ hi st (.tail _ hst)
  | drop _ st rest =>
      refine h.move rfl rfl (fun hk ↦ ?_) h.ledger ?_
      · exact h.records (Finmap.lookup_erase_eq_some_iff.mp hk).2
      · split
        · exact hi
        · exact ⟨nofun, hi, nofun⟩
  | lock => exact h.move rfl rfl h.records h.ledger ⟨hi.1, hi.2.1, nofun⟩
  | load _ _ _ hcm =>
      refine h.move rfl rfl h.records h.ledger ⟨hi.1, hi.2.1, ?_⟩
      rintro _ ⟨⟩
      exact h.earned_configMap hcm
  | miss => exact h.move rfl rfl h.records h.ledger ⟨hi.1, hi.2.1, nofun⟩
  | race => exact h.move rfl rfl h.records h.ledger ⟨hi.1, hi.2.1, nofun⟩
  | create =>
      have hempty : ConfigMap.Earned ⟨∅⟩ w := fun key raw st hl _ ↦ by simp at hl
      refine h.move rfl rfl h.records (by rw [World.ledger_update]; exact hempty)
        ⟨hi.1, hi.2.1, ?_⟩
      rintro _ ⟨⟩
      exact hempty
  | abandon => exact h.move rfl rfl h.records h.ledger ⟨hi.1, hi.2.1, nofun⟩
  | @write cm _ k v rest =>
      refine h.move rfl rfl h.records ?_ ⟨hi.1, hi.2.1, nofun⟩
      rw [World.ledger_update]
      intro key raw st hl hr
      rw [ConfigMap.lookup_edit] at hl
      split at hl
      · obtain ⟨st', hst', rfl⟩ := Option.map_eq_some_iff.mp hl
        obtain rfl := ThrottleState.eq_of_record_raw hr
        exact hi.1 _ hst'
      · exact hi.2.2 cm rfl key raw st hl hr
  | writeFails => exact h.move rfl rfl h.records h.ledger ⟨hi.1, hi.2.1, nofun⟩
  | @unlock _ _ v =>
      refine h.move rfl rfl h.records h.ledger ?_
      cases v with
      | none => exact hi.2.1
      | some st => trivial
  | begin _ _ hcm => exact h.move rfl rfl h.records h.ledger (h.earned_configMap hcm)
  | begin_none => exact h.move rfl rfl h.records h.ledger trivial
  | @recover cm scan hscan =>
      refine h.move rfl rfl (fun {k st} hk ↦ ?_) h.ledger trivial
      rcases World.lookup_foldl_recoverEntry hk with hm | ⟨e, he, hr, -⟩
      · exact h.records hm
      · refine hi e.1 e.2 st (Finmap.mem_lookup_iff.mpr ?_) hr
        rw [← hscan]
        exact Multiset.mem_coe.mpr he

end Ownership

/-! ## The result -/

/-- Any number of calls at once, restarts, failures, and other actors on the same pods. -/
def anything : Scenario ι where
  pol := .unreliable
  calls _ _ := true
  moves _ _ := true

omit [DecidableEq ι] in
theorem Ownership.edit {r : Remediator} {w : World} {φ : ι → Phase} (h : Ownership r w φ)
    (ns name k : String) (q : Quantity) : Ownership r (w.editLimit ns name k q) φ := by
  unfold World.editLimit
  split
  · exact h
  · next p hp =>
      split
      · exact h
      · next c hc =>
          obtain rfl := (Pod.container?_eq_some_iff.mp hc).2
          refine ⟨fun hk ↦ (h.records hk).mono (.tail _),
            fun key raw st hl hr ↦ (h.ledger key raw st hl hr).mono (.tail _),
            fun i ↦ (h.phases i).mono (.tail _), ?_,
            h.owned_cons (by rintro _ _ ⟨⟩)⟩
          exact h.last_set hp hc rfl (by rintro _ ⟨⟩)

theorem anything_isInductive (r : Remediator) :
    System.Inductive ((anything (ι := ι)).system r) (Phase.protocol r) Phase.Final
      (Ownership r) := by
  refine Scenario.inductive_final (fun {w φ i call} h _ _ ↦ ?_) (fun h _ hx ↦ h.act rfl hx)
    (fun {c m c'} h _ hap ↦ ?_)
  · refine h.move rfl rfl h.records h.ledger ?_
    cases call with
    | report s => trivial
    | sweep => trivial
    | startup =>
        simp only [Call.phase]
        split <;> trivial
  · have hsub : ∀ {x z}, x ∈ c.world.history → x ∈ z :: c.world.history := .tail _
    cases m with
    | tick t =>
        obtain ⟨-, rfl⟩ := Move.apply_tick hap
        exact ⟨h.records, h.ledger, fun i ↦ (h.phases i).mono id, h.last, h.owned⟩
    | delete ns name =>
        obtain rfl := Option.some.inj hap
        refine ⟨fun hk ↦ (h.records hk).mono hsub,
          fun key raw st hl hr ↦ (h.ledger key raw st hl hr).mono hsub,
          fun i ↦ (h.phases i).mono hsub, h.last_replaced fun {a b} hne ↦ ?_,
            h.owned_cons (by rintro _ _ ⟨⟩)⟩
        change (c.world.cluster.delete ns name).pod a b = _
        rw [Cluster.pod_delete, if_neg fun he ↦ hne ⟨he.1.symm, he.2.symm⟩]
    | create ns name p =>
        obtain ⟨-, hn, rfl⟩ := Move.apply_create hap
        refine ⟨fun hk ↦ (h.records hk).mono hsub,
          fun key raw st hl hr ↦ (h.ledger key raw st hl hr).mono hsub,
          fun i ↦ (h.phases i).mono hsub, h.last_replaced fun {a b} hne ↦ ?_,
            h.owned_cons (by rintro _ _ ⟨⟩)⟩
        exact if_neg fun he ↦ hne ⟨he.1.symm, he.2.symm⟩
    | edit ns name k q =>
        obtain rfl := Option.some.inj hap
        exact h.edit ns name k q
    | restart i =>
        obtain rfl := Option.some.inj hap
        refine ⟨fun hk ↦ by simp [World.reset] at hk, h.ledger, ?_, h.last, h.owned⟩
        refine (Function.forall_update_iff _ fun _ (s : Phase) ↦ s.Earned _).mpr
          ⟨?_, fun _ _ ↦ trivial⟩
        simp only [Call.phase]
        split <;> trivial

/-- Every restore of every run is owned: it patches a container that a controller throttled
before, and the throttled instance with the throttled limit if nothing has happened to
them since. -/
theorem anything_owned {r : Remediator} {w : World} (hT : w.throttled = ∅)
    (hL : w.ledger r = ∅) (hh : w.history = []) {c : State ι}
    (hr : ((anything (ι := ι)).system r).Reachable w.quiet c) {h₁ h₂ : List Change}
    {st : ThrottleState} {x : LimitChange} (hx : c.world.history = h₁ ++ .restored st x :: h₂) :
    Owned h₂ x := by
  have hinit : Ownership r w fun _ : ι ↦ .idle :=
    ⟨fun hk ↦ by simp [hT] at hk, fun key raw st hl _ ↦ by simp [hL] at hl, fun _ ↦ trivial,
      fun hl ↦ by simp [hh, lastChange] at hl, fun he ↦ by simp [hh] at he⟩
  have hinv := (World.invariant_quiet hinit).reachable (anything_isInductive r) hr
  exact hinv.global.owned hx

/-! ## An instance the controller never throttled -/

/-- The restore meets what the controller did: it throttled that instance of the pod, has
not restored it since, and the limit it set is still there. -/
def MeetsThrottle (h : List Change) (x : LimitChange) : Prop :=
  ∃ h₃ y h₄, h = h₃ ++ .throttled y :: h₄ ∧ y.uid = x.uid ∧ y.container = x.container ∧
    (∀ st z, .restored st z ∈ h₃ → z.uid = x.uid → z.container ≠ x.container) ∧
    x.old = some y.new

/-- The pod is throttled, what `moves` says happens, and the restore loop comes to the patch. -/
def throttleThenRestore (moves : List (Move Unit)) : List (Cmd Unit) :=
  .call () .web :: Cmd.acts () 15 ++ moves.map .move ++ .move (.tick (11 * minute)) ::
    .call () .sweep :: .act () {} :: .act () { due := [webRecord (10 * minute)] } :: Cmd.acts () 1

/-- A pod that is left alone is restored as it was throttled. -/
theorem throttleThenRestore_owned :
    ∃ c : State Unit, (anything.system webRemediator).Reachable (World.fresh .web).quiet c ∧
      ∃ st x h₂, c.world.history = .restored st x :: h₂ ∧
        lastChange x.ns x.pod x.container h₂ = some (.throttled webThrottle) ∧ Owned h₂ x := by
  obtain ⟨c, hr, hc⟩ := Scenario.exists_reachable anything webRemediator (fun _ _ _ _ ↦ true)
    (fun _ _ _ _ _ ↦ trivial) (throttleThenRestore []) (World.fresh .web).quiet
    (fun c ↦ c.world.history =
      [.restored (webRecord (10 * minute)) ⟨"web", "a", "app", 1, some 100, 200, 11 * minute⟩,
        .recorded (webRecord (10 * minute)), .throttled webThrottle]) (by decide +kernel)
  exact ⟨c, hr, _, _, _, hc, by decide +kernel,
    anything_owned rfl rfl rfl hr (hc.trans (List.nil_append _).symm)⟩

/-- A pod created under the name of a throttled one gets the other's limit. -/
theorem recreatedPod_not_meetsThrottle :
    ¬ ∀ c : State Unit, (anything.system webRemediator).Reachable (World.fresh .web).quiet c →
      ∀ h₁ h₂ st x, c.world.history = h₁ ++ .restored st x :: h₂ → MeetsThrottle h₂ x := by
  intro h
  obtain ⟨c, hr, hc⟩ := Scenario.exists_reachable anything webRemediator (fun _ _ _ _ ↦ true)
    (fun _ _ _ _ _ ↦ trivial)
    (throttleThenRestore [.delete "web" "a",
      .create "web" "a" ⟨2, [⟨"app", some 100, some 300⟩], by decide⟩])
    (World.fresh .web).quiet
    (fun c ↦ c.world.history =
      [.restored (webRecord (10 * minute)) ⟨"web", "a", "app", 2, some 300, 200, 11 * minute⟩,
        .replaced "web" "a", .replaced "web" "a", .recorded (webRecord (10 * minute)),
        .throttled webThrottle]) (by decide +kernel)
  obtain ⟨h₃, y, h₄, hy, huid, -⟩ := h c hr [] _ _ _ hc
  have hm : Change.throttled y ∈ h₃ ++ .throttled y :: h₄ := by simp
  rw [← hy] at hm
  obtain rfl : y = webThrottle := by simpa using hm
  exact absurd huid (by decide)
