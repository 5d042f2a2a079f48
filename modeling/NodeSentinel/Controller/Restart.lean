import NodeSentinel.Controller.Sequential

/-!
# Restarts

The process may be killed at any action and started again; it then runs `Recover`
first.  `outstanding` reads off the history which containers are lowered and not put
back.  In a run that is never killed between the patch of a throttle and the ledger
update that follows it, each of them is on the ledger or about to be, so the restarted
controller finds it: `Backed` is the invariant.  A run killed in that gap is given at
the end.
-/

open Function (update)

/-! ## What is outstanding -/

/-- The container is lowered and has not been put back: the limit it had before, and the
time its throttle is to be restored once there is a record. -/
def outstanding (ns pod k : String) : List Change → Option (Option Quantity × Option Time)
  | [] => none
  | .throttled x :: h =>
      if x.ns = ns ∧ x.pod = pod ∧ x.container = k then
        some (((outstanding ns pod k h).map Prod.fst).getD x.old, none)
      else outstanding ns pod k h
  | .recorded st :: h =>
      if st.ns = ns ∧ st.pod = pod ∧ st.container = k then
        (outstanding ns pod k h).map fun (o, _) ↦ (o, some st.restoreAt)
      else outstanding ns pod k h
  | .restored _ x :: h =>
      if x.ns = ns ∧ x.pod = pod ∧ x.container = k then none else outstanding ns pod k h
  | .edited _ :: h => outstanding ns pod k h
  | .replaced _ _ :: h => outstanding ns pod k h

/-- Every outstanding container has its record, with its original limit and restore time. -/
def OutstandingRecorded (w : World) : Prop :=
  ∀ ns pod k o t, outstanding ns pod k w.history = some (o, t) →
    ∃ t', t = some t' ∧ w.throttled.lookup (podKey ns pod) = some ⟨ns, pod, k, o, t'⟩

/-- The container's record is on the ledger. -/
def World.Saved (w : World) (r : Remediator) (ns pod k : String) (o : CPUText)
    (t : Option Time) : Prop :=
  ∃ t', t = some t' ∧ t'.InJSONRange ∧ (w.ledger r).lookup (cmKey (podKey ns pod)) =
    some (ThrottleState.raw ⟨ns, pod, k, o, t'⟩)

/-- No container of the pod with key `key` is outstanding. -/
def World.Cleared (w : World) (key : String) : Prop :=
  ∀ ns pod k, podKey ns pod = key → outstanding ns pod k w.history = none

/-- A text tells the record it was made of. -/
theorem ThrottleState.raw_inj {st st' : ThrottleState} (h : st.restoreAt.InJSONRange)
    (he : st.raw = st'.raw) : st = st' := by
  have hst : st.raw.unmarshal = some st.persisted := unmarshal_eq_some.mpr ⟨h, rfl⟩
  by_cases h' : st'.restoreAt.InJSONRange
  · have hst' : st'.raw.unmarshal = some st'.persisted := unmarshal_eq_some.mpr ⟨h', rfl⟩
    rw [he, hst', Option.some.injEq] at hst
    cases st; cases st'
    simpa [persisted, eq_comm] using hst
  · rw [he] at hst
    simp [raw, Raw.marshal, persisted, h', Raw.unmarshal] at hst

namespace Phase

/-- The call has lowered the container's limit and its ledger entry is still to be
written. -/
def Saving (ns pod k : String) (o : CPUText) (t : Option Time) : Phase → Prop
  | lowered ns' pod' k' orig _ => ns' = ns ∧ pod' = pod ∧ k' = k ∧ o = some orig
  | stamped st => ∃ t', st = ⟨ns, pod, k, o, t'⟩
  | ledger stage _ (some st) _ => stage ≠ .leaving ∧ ∃ t', t = some t' ∧ st = ⟨ns, pod, k, o, t'⟩
  | _ => False

/-- Whether the call has lowered a limit whose ledger entry is still to be written. -/
def saving : Phase → Bool
  | lowered .. | stamped _ => true
  | ledger stage _ (some _) _ => stage ≠ .leaving
  | _ => false

/-- What a call that runs alone knows about the cluster, the ledger and what is
outstanding. -/
def Settled (r : Remediator) (w : World) : Phase → Prop
  | read ns name p => w.cluster.pod ns name = some p
  | lowered ns pod _ _ _ => (w.ledger r).lookup (cmKey (podKey ns pod)) = none
  | stamped st => (w.ledger r).lookup (cmKey st.key) = none
  | restored _ st _ => w.Cleared st.key
  | ledger stage k (some _) _ => stage ≠ .leaving → (w.ledger r).lookup (cmKey k) = none
  | ledger _ k none _ => w.Cleared k
  | _ => True

variable {s ψ : Phase} {ns pod k : String} {o : CPUText} {t : Option Time}

theorem Saving.saving (h : s.Saving ns pod k o t) : s.saving = true := by
  cases s with
  | ledger stage _ v _ =>
      cases v with
      | none => exact h.elim
      | some st => simpa [Phase.saving] using h.1
  | lowered | stamped => rfl
  | _ => exact h.elim

theorem Final.not_saving (h : s.Final) : ¬ s.Saving ns pod k o t := by
  cases s <;> first | exact h.elim | exact id

end Phase

/-- A throttle is on the ledger, or the call in flight is about to write it. -/
structure Backed (r : Remediator) (w : World) (s : Phase) : Prop where
  exists_pod : ∀ {ns pod k o}, outstanding ns pod k w.history = some o →
    ∃ p, w.cluster.pod ns pod = some p
  saved : ∀ {ns pod k o t}, outstanding ns pod k w.history = some (o, t) →
    w.Saved r ns pod k o t ∨ s.Saving ns pod k o t
  settled : s.Settled r w

/-- The records this file is about. -/
abbrev Dated (st : ThrottleState) : Prop := st.restoreAt.InJSONRange

namespace Backed

variable {r : Remediator} {w w' : World} {s ψ : Phase}

/-- Transitions that change neither the cluster nor the ledger nor what is outstanding. -/
theorem move (h : Backed r w s) (hC : w'.cluster = w.cluster) (hL : w'.ledger r = w.ledger r)
    (hH : w'.history = w.history) (hψ : ψ.Settled r w')
    (hs : ∀ {ns pod k o t}, s.Saving ns pod k o t → ψ.Saving ns pod k o t) : Backed r w' ψ where
  exists_pod ho := hC ▸ h.exists_pod (hH ▸ ho)
  saved ho := (h.saved (hH ▸ ho)).imp (by simpa only [World.Saved, hL] using id) hs
  settled := hψ

/-- A ledger section before its write. -/
theorem stage {stage stage' : Stage} {k : String} {v : Option ThrottleState}
    {rest : List ThrottleState} (h : Backed r w (.ledger stage k v rest))
    (hs : stage ≠ .leaving) (hs' : stage' ≠ .leaving) (hC : w'.cluster = w.cluster)
    (hL : w'.ledger r = w.ledger r) (hH : w'.history = w.history) :
    Backed r w' (.ledger stage' k v rest) := by
  cases v with
  | none => exact h.move hC hL hH (fun ns pod k hk ↦ hH ▸ h.settled ns pod k hk) id
  | some st => exact h.move hC hL hH (fun _ ↦ hL ▸ h.settled hs) fun ⟨_, h'⟩ ↦ ⟨hs', h'⟩

/-- A pod without a record and without a section in flight has nothing outstanding. -/
theorem outstanding_eq_none (h : Backed r w s) {ns pod k : String}
    (hl : (w.ledger r).lookup (cmKey (podKey ns pod)) = none)
    (hs : ∀ {o t}, ¬ s.Saving ns pod k o t) : outstanding ns pod k w.history = none := by
  rw [Option.eq_none_iff_forall_ne_some]
  rintro ⟨o, t⟩ ho
  rcases h.saved ho with ⟨t', -, -, hl'⟩ | hs'
  · rw [hl] at hl'; cases hl'
  · exact hs hs'

/-- `throttle` lowers a limit. -/
theorem lower {ns name : String} {p p' : Pod} {c : Container} {limit request : Quantity}
    (h : Backed r w (.read ns name p)) (hroom : p.room c.name = some (limit, request))
    (hp : w.cluster.pod ns name = some p') (hc : p'.container? c.name = some c)
    (hl : (w.ledger r).lookup (cmKey (podKey ns name)) = none) :
    Backed r (w.patch .throttle (w.limitChange ns name p' c request))
      (.lowered ns name c.name limit request) := by
  obtain rfl := Option.some.inj (h.settled.symm.trans hp)
  obtain ⟨d, hd, hlim, -⟩ := Pod.room_eq_some hroom
  obtain rfl := Option.some.inj (hd.symm.trans hc)
  have hnone : ∀ k, outstanding ns name k w.history = none := fun k ↦
    h.outstanding_eq_none hl id
  constructor
  · intro a b k o ho
    change ∃ p, (w.cluster.setCPULimit ns name d.name request).pod a b = some p
    rw [Cluster.pod_setCPULimit]
    split
    · next hab => exact ⟨_, by rw [hab.1, hab.2, hp]; rfl⟩
    · next hab =>
        have hne : ¬ (ns = a ∧ name = b ∧ d.name = k) := fun he ↦ hab ⟨he.1.symm, he.2.1.symm⟩
        simp only [World.patch, PatchSite.change, outstanding, World.limitChange, if_neg hne] at ho
        exact h.exists_pod ho
  · intro a b k o t ho
    simp only [World.patch, PatchSite.change, outstanding, World.limitChange] at ho
    split at ho
    · next he =>
        obtain ⟨rfl, rfl, rfl⟩ := he
        rw [hnone, hlim] at ho
        cases ho
        exact .inr ⟨rfl, rfl, rfl, rfl⟩
    · exact .inl ((h.saved ho).resolve_right id)
  · exact hl

/-- The call enters its record. -/
theorem record {st : ThrottleState} (h : Backed r w (.stamped st)) :
    Backed r { w with
      throttled := w.throttled.insert st.key st, history := .recorded st :: w.history }
      (.ledger .waiting st.key (some st) []) := by
  constructor
  · intro ns pod k o ho
    simp only [outstanding] at ho
    split at ho
    · obtain ⟨o', ho', -⟩ := Option.map_eq_some_iff.mp ho
      exact h.exists_pod ho'
    · exact h.exists_pod ho
  · intro ns pod k o t ho
    simp only [outstanding] at ho
    split at ho
    · next he =>
        obtain ⟨rfl, rfl, rfl⟩ := he
        obtain ⟨⟨o', t'⟩, ho', he⟩ := Option.map_eq_some_iff.mp ho
        obtain ⟨rfl, rfl⟩ := Prod.mk.inj he
        rcases h.saved ho' with ⟨_, -, -, hl⟩ | ⟨_, hst⟩
        · exact absurd (h.settled.symm.trans hl) nofun
        · refine .inr ⟨nofun, st.restoreAt, rfl, ?_⟩
          have := congrArg ThrottleState.originalCPULimit hst
          cases st
          simp_all
    · next he =>
        refine .inl ((h.saved ho).resolve_right ?_)
        rintro ⟨_, rfl⟩
        exact he ⟨rfl, rfl, rfl⟩
  · exact fun _ ↦ h.settled

/-- `restore` puts a limit back; no other container of the pod is outstanding, since the
ledger has one entry per pod. -/
theorem lift {st : ThrottleState} {rest : List ThrottleState} {p : Pod} {c : Container}
    {q : Quantity} (h : Backed r w (.restoring (st :: rest))) (hn : st.Named)
    (hc : p.container? st.container = some c)
    (hl : (w.ledger r).lookup (cmKey st.key) = some st.raw) :
    Backed r (w.patch (.restore st) (w.limitChange st.ns st.pod p c q)) (.restored true st rest) := by
  obtain hname := (Pod.container?_eq_some_iff.mp hc).2
  have hout : ∀ {a b k o}, outstanding a b k
      (w.patch (.restore st) (w.limitChange st.ns st.pod p c q)).history = some o →
      outstanding a b k w.history = some o ∧ ¬ (st.ns = a ∧ st.pod = b ∧ st.container = k) := by
    intro a b k o ho
    simp only [World.patch, PatchSite.change, outstanding, World.limitChange, hname] at ho
    split at ho
    · cases ho
    · exact ⟨ho, ‹_›⟩
  constructor
  · intro a b k o ho
    obtain ⟨p', hp'⟩ := h.exists_pod (hout ho).1
    change ∃ p, (w.cluster.setCPULimit st.ns st.pod c.name q).pod a b = some p
    rw [Cluster.pod_setCPULimit]
    split
    · exact ⟨_, by rw [hp']; rfl⟩
    · exact ⟨p', hp'⟩
  · intro a b k o t ho
    exact .inl ((h.saved (hout ho).1).resolve_right id)
  · intro a b k hk
    obtain ⟨rfl, rfl⟩ := hn.podKey_inj.mp (show podKey st.ns st.pod = podKey a b from hk.symm)
    rw [Option.eq_none_iff_forall_ne_some]
    rintro ⟨o, t⟩ ho
    obtain ⟨ho, hne⟩ := hout ho
    obtain ⟨t', -, hrange, hl'⟩ := (h.saved ho).resolve_right id
    have := ThrottleState.raw_inj hrange (Option.some.inj (hl'.symm.trans hl))
    exact hne ⟨rfl, rfl, (congrArg ThrottleState.container this).symm⟩

/-- A section writes its change: a new throttle is then on the ledger, and a throttle that
is erased is not outstanding. -/
theorem write {cm : ConfigMap} {k : String} {v : Option ThrottleState}
    {rest : List ThrottleState} (h : Backed r w (.ledger (.loaded cm) k v rest))
    (hcm : w.configMap r.stateNS = some cm) (hk : IsPodKey k)
    (hv : ∀ st ∈ v, st.Named ∧ k = st.key ∧ Dated st) :
    Backed r { w with configMap := update w.configMap r.stateNS (some (cm.edit k v)) }
      (.ledger .leaving k v rest) := by
  have hL := w.ledger_update r (cm.edit k v)
  refine ⟨h.exists_pod, fun {ns pod k' o t} ho ↦ .inl ?_, ?_⟩
  · rcases h.saved ho with ⟨t', ht, hrange, hl⟩ | hs
    · refine ⟨t', ht, hrange, ?_⟩
      obtain ⟨p, hp⟩ := h.exists_pod ho
      have hne : cmKey (podKey ns pod) ≠ cmKey k := by
        intro he
        have hkey := ((w.cluster.podName hp).isPodKey.cmKey_inj hk).mp he
        cases v with
        | none => exact absurd ((h.settled ns pod k' hkey).symm.trans ho) nofun
        | some st =>
            rw [he] at hl
            exact absurd ((h.settled nofun).symm.trans hl) nofun
      rw [hL, ConfigMap.lookup_edit, if_neg hne, ← World.ledger_of_eq hcm]
      exact hl
    · cases v with
      | none => exact hs.elim
      | some st =>
          obtain ⟨-, t', ht, hst⟩ := hs
          obtain ⟨-, rfl, hd⟩ := hv st rfl
          subst hst
          exact ⟨t', ht, hd, by rw [hL, ConfigMap.lookup_edit]; exact if_pos rfl⟩
  · cases v with
    | none => exact h.settled
    | some st => exact fun hne ↦ absurd rfl hne

/-- Every transition of a call outside `Recover` keeps the throttles backed. -/
theorem act {φ : Unit → Phase} (h : Backed r w s) (hns : r.stateNS ≠ "") (hφ : φ () = s)
    (ht : Tracked Dated r w φ) (ha : s.Alone w) {e : Act}
    (hx : Phase.Trans r .reliable w s e w' ψ) : Backed r w' ψ := by
  have hs := ht.tracks ()
  rw [hφ] at hs
  have free : ∀ {s' : Phase}, s.Final → s'.Settled r w → Backed r w s' := fun hf hs' ↦
    h.move rfl rfl rfl hs' fun h' ↦ (hf.not_saving h').elim
  cases hx with
  | stay | clearCooldown | event => exact h.move rfl rfl rfl h.settled id
  | skip _ hf => exact free hf.final trivial
  | unthrottled _ hf => exact free hf.final trivial
  | cooldown => exact h.move rfl rfl rfl trivial id
  | read hat hp =>
      refine h.move rfl rfl rfl hp ?_
      rcases hat with rfl | ⟨_, rfl⟩ <;> exact id
  | @lower ns name p _ _ _ _ _ _ _ _ hroom hp hc =>
      refine h.lower hroom hp hc ?_
      rw [ht.lookup_ledger (w.cluster.podName hp).isPodKey (fun v ↦ hφ ▸ id), ha, Option.map_none]
  | stamp ns pod c orig request =>
      refine h.move rfl rfl rfl h.settled ?_
      rintro _ _ _ _ _ ⟨rfl, rfl, rfl, rfl⟩
      exact ⟨_, rfl⟩
  | record => rw [if_neg hns]; exact h.record
  | sweep => exact h.move rfl rfl rfl trivial id
  | collect => exact h.move rfl rfl rfl trivial id
  | @lift st rest p c q _ hp hc hq =>
      have hn : st.Named := hs st (.head _)
      refine h.lift hn hc ?_
      rw [ht.lookup_ledger hn.isPodKey (fun v ↦ hφ ▸ id), ha.1 st (.head _), Option.map_some]
  | @gone st rest _ _ hp =>
      refine h.move rfl rfl rfl (fun ns pod k hk ↦ ?_) id
      have hn : st.Named := hs st (.head _)
      obtain ⟨rfl, rfl⟩ := hn.podKey_inj.mp (show podKey st.ns st.pod = podKey ns pod from hk.symm)
      rw [Option.eq_none_iff_forall_ne_some]
      intro o ho
      obtain ⟨p, hp'⟩ := h.exists_pod ho
      exact absurd (hp.symm.trans hp') nofun
  | keep => exact h.move rfl rfl rfl trivial id
  | drop => rw [if_neg hns]; exact h.move rfl rfl rfl h.settled id
  | lock => exact h.stage nofun nofun rfl rfl rfl
  | load _ _ hs' =>
      refine h.stage ?_ nofun rfl rfl rfl
      rcases hs' with rfl | rfl <;> exact nofun
  | miss => exact h.stage nofun nofun rfl rfl rfl
  | race => exact h.stage nofun nofun rfl rfl rfl
  | create _ _ hcm =>
      refine h.stage nofun nofun rfl ?_ rfl
      rw [World.ledger_of_none hcm, World.ledger_update]
  | abandon _ _ hf =>
      rcases hf with hf | ⟨rfl, hcm⟩
      · cases hf
      · exact absurd hcm hs.2
  | write => exact h.write hs.2 hs.1.1 hs.1.2.1
  | writeFails _ hf =>
      rcases hf with hf | hcm
      · cases hf
      · exact absurd (hs.2.symm.trans hcm) nofun
  | @unlock _ _ v _ hs' =>
      cases v with
      | none => exact h.move rfl rfl rfl trivial id
      | some st =>
          refine h.move rfl rfl rfl trivial ?_
          rcases hs' with rfl | ⟨_, _, hv, _⟩
          · exact fun h' ↦ (h'.1 rfl).elim
          · cases hv
  | begin => exact hs.elim
  | begin_none => exact hs.elim
  | recover => exact hs.elim

end Backed

/-! ## The process restarts -/

/-- `Recover` is still to read the ledger, or to enter what it has read. -/
structure Restarting (r : Remediator) (w : World) (s : Phase) : Prop where
  empty : w.throttled = ∅
  stored : ∀ {key raw}, (w.ledger r).lookup key = some raw →
    ∃ st : ThrottleState, st.Named ∧ Dated st ∧ key = cmKey st.key ∧ raw = st.raw
  phase : s = .starting ∨ ∃ cm, s = .recovering cm ∧ w.configMap r.stateNS = some cm

/-- Memory and ledger are in step, or the process is restarting; either way the throttles
are backed. -/
structure Durable (r : Remediator) (w : World) (φ : Unit → Phase) : Prop where
  mode : (Tracked Dated r w φ ∧ (φ ()).Alone w) ∨ Restarting r w (φ ())
  backed : Backed r w (φ ())

namespace Restarting

variable {r : Remediator} {w : World} {s : Phase}

/-- A call that is idle, over a memory that holds what the ledger holds. -/
theorem tracked {φ : Unit → Phase} (h : Restarting r w s) {m : Finmap fun _ : String ↦ ThrottleState}
    (hm : ∀ {k st}, m.lookup k = some st ↔
      k = st.key ∧ st.Named ∧ Dated st ∧ (w.ledger r).lookup (cmKey k) = some st.raw)
    (hφ : ∀ i, φ i = .idle) : Tracked Dated r { w with throttled := m } φ where
  keyed hst := by
    obtain ⟨hk, hn, hd, -⟩ := hm.mp hst
    exact ⟨hn, hk, hd⟩
  stored := h.stored
  synced {k} hk := by
    refine .inl ?_
    change (w.ledger r).lookup (cmKey k) = (m.lookup k).map ThrottleState.raw
    cases hl : (w.ledger r).lookup (cmKey k) with
    | none =>
        cases hst : m.lookup k with
        | none => rfl
        | some st => exact absurd (hl.symm.trans (hm.mp hst).2.2.2) nofun
    | some raw =>
        obtain ⟨st, hn, hd, he, rfl⟩ := h.stored hl
        obtain rfl := (hk.cmKey_inj hn.isPodKey).mp he
        rw [hm.mpr ⟨rfl, hn, hd, hl⟩, Option.map_some]
  unique {i _} hi := by rw [hφ i] at hi; exact hi.elim
  held {i} hi := by rw [hφ i] at hi; exact hi.elim
  tracks i := by rw [hφ i]; trivial

/-- `Recover` enters exactly the ledger. -/
theorem lookup_recovered {cm : ConfigMap} {scan : List (Sigma fun _ : String ↦ Raw)}
    (h : Restarting r w s) (hcm : w.configMap r.stateNS = some cm)
    (hscan : (scan : Multiset _) = cm.data.entries) {k : String} {st : ThrottleState} :
    (scan.foldl World.recoverEntry w.throttled).lookup k = some st ↔
      k = st.key ∧ st.Named ∧ Dated st ∧ (w.ledger r).lookup (cmKey k) = some st.raw := by
  have hmem : ∀ {e : Sigma fun _ : String ↦ Raw}, e ∈ scan ↔
      (w.ledger r).lookup e.1 = some e.2 := fun {e} ↦ by
    rw [World.ledger_of_eq hcm, ← Multiset.mem_coe, hscan]
    exact Finmap.mem_lookup_iff.symm
  have hrec : ∀ {e : Sigma fun _ : String ↦ Raw}, e ∈ scan → ∀ {st'}, e.2.record = some st' →
      st'.Named ∧ Dated st' ∧ e.1 = cmKey st'.key ∧ e.2 = st'.raw := fun {e} he st' hst' ↦ by
    obtain ⟨st₀, hn, hd, hk, hraw⟩ := h.stored (hmem.mp he)
    rw [hraw, ThrottleState.record_raw hn hd] at hst'
    obtain rfl := Option.some.inj hst'
    exact ⟨hn, hd, hk, hraw⟩
  rw [h.empty]
  constructor
  · intro hst
    rcases World.lookup_foldl_recoverEntry hst with hm | ⟨e, he, hst, hk⟩
    · simp at hm
    · obtain ⟨hn, hd, hek, hraw⟩ := hrec he hst
      exact ⟨hk, hn, hd, by rw [hk, ← hek, ← hraw]; exact hmem.mp he⟩
  · rintro ⟨rfl, hn, hd, hl⟩
    refine World.lookup_foldl_recoverEntry_of_unique (fun e he st' hst' hk ↦ ?_)
      (.inr ⟨⟨cmKey st.key, st.raw⟩, hmem.mpr hl, ThrottleState.record_raw hn hd, rfl⟩)
    obtain ⟨-, hd', hek, hraw⟩ := hrec he hst'
    have hl' := hmem.mp he
    rw [hek, hk, hl, hraw, Option.some.injEq] at hl'
    exact (ThrottleState.raw_inj hd hl').symm

end Restarting

/-- Calls one at a time, killed anywhere; every API call is served. -/
def restarts : Scenario Unit where
  pol := .reliable
  calls _ call := match call with
    | .startup => false
    | _ => true
  moves _ m := match m with
    | .tick _ | .restart _ => true
    | _ => false

/-- The runs of `restarts` that are not killed between the patch of a throttle and its
ledger update, and whose times JSON can express. -/
def restartsSaved : Scenario Unit where
  pol := .reliable
  calls := restarts.calls
  moves c m := match m with
    | .tick _ => true
    | .restart _ => !(c.phase ()).saving
    | _ => false
  guard _ _ _ e := match e with
    | .setThrottled _ st => Dated st
    | _ => True

namespace Durable

variable {r : Remediator} {w w' : World} {φ : Unit → Phase} {ψ : Phase}

theorem not_restarting (h : Durable r w φ) (hf : (φ ()).Final) :
    Tracked Dated r w φ ∧ (φ ()).Alone w := by
  rcases h.mode with ht | hr
  · exact ht
  · rcases hr.phase with hs | ⟨_, hs, -⟩ <;> exact (hs ▸ hf :).elim

/-- What a restarting process does. -/
theorem act_restarting (h : Restarting r w (φ ())) (hb : Backed r w (φ ())) {e : Act} {s : Phase}
    (hφ : φ () = s) (hx : Phase.Trans r .reliable w s e w' ψ) :
    Durable r w' (update φ () ψ) := by
  rw [hφ] at h hb
  have hup : update φ () ψ () = ψ := Function.update_self ..
  have hidle : ∀ (i : Unit), update φ i Phase.idle i = .idle := fun i ↦ Function.update_self ..
  refine ⟨?_, hup ▸ ?_⟩
  · rw [hup]
    cases hx with
    | stay | clearCooldown | event => exact .inr ⟨h.empty, h.stored, h.phase⟩
    | begin _ _ hcm => exact .inr ⟨h.empty, h.stored, .inr ⟨_, rfl, hcm⟩⟩
    | begin_none _ hf =>
        have hcm : w.configMap r.stateNS = none := hf.resolve_left nofun
        refine .inl ⟨?_, trivial⟩
        have := h.tracked (m := w.throttled) (fun {k st} ↦ ?_) hidle
        · exact this
        · rw [h.empty, World.ledger_of_none hcm]
          simp
    | @recover cm scan hscan =>
        obtain hs | ⟨_, hs, hcm⟩ := h.phase
        · cases hs
        · cases hs
          exact .inl ⟨h.tracked (h.lookup_recovered hcm hscan) hidle, trivial⟩
    | skip _ hf | unthrottled _ hf =>
        rcases h.phase with rfl | ⟨_, rfl, -⟩ <;> exact hf.elim
    | read hat =>
        rcases h.phase with rfl | ⟨_, rfl, -⟩ <;> rcases hat with hat | ⟨_, hat⟩ <;> cases hat
    | _ => rcases h.phase with hs | ⟨_, hs, -⟩ <;> cases hs
  · cases hx with
    | stay | clearCooldown | event => exact hb.move rfl rfl rfl hb.settled id
    | begin | begin_none | recover => exact hb.move rfl rfl rfl trivial id
    | skip _ hf | unthrottled _ hf =>
        rcases h.phase with rfl | ⟨_, rfl, -⟩ <;> exact hf.elim
    | read hat =>
        rcases h.phase with rfl | ⟨_, rfl, -⟩ <;> rcases hat with hat | ⟨_, hat⟩ <;> cases hat
    | _ => rcases h.phase with hs | ⟨_, hs, -⟩ <;> cases hs

/-- Every transition keeps the throttles durable. -/
theorem act (h : Durable r w φ) (hns : r.stateNS ≠ "") {e : Act}
    (hg : restartsSaved.guard w φ () e) (hx : Phase.Trans r .reliable w (φ ()) e w' ψ) :
    Durable r w' (update φ () ψ) := by
  have hup : update φ () ψ () = ψ := Function.update_self ..
  rcases h.mode with ⟨ht, ha⟩ | hr
  · have hg' : writesInOrder Dated w φ () e := by
      cases e with
      | setThrottled => exact hg
      | updateConfigMap => exact fun k v hp ↦ .inl (ha.eq_lookup hp)
      | _ => trivial
    have hkeyed : w.Keyed := fun hst ↦ (ht.keyed hst).2.1
    exact ⟨.inl ⟨ht.act hns rfl hg' hx, hup ▸ hx.alone hkeyed ha⟩,
      hup ▸ h.backed.act hns rfl ht ha hx⟩
  · exact act_restarting hr h.backed rfl hx

/-- The process is killed outside the gap. -/
theorem reset (h : Durable r w φ) (hs : (φ ()).saving = false) (ψ : Unit → Phase)
    (hψ : ψ () = .starting) : Durable r w.reset ψ := by
  refine ⟨.inr ⟨rfl, ?_, .inl hψ⟩, ?_⟩
  · rcases h.mode with ⟨ht, -⟩ | hr
    · exact ht.stored
    · exact hr.stored
  · refine h.backed.move rfl rfl rfl (hψ ▸ trivial) fun hs' ↦ ?_
    rw [hs'.saving] at hs
    cases hs

theorem isInductive (hns : r.stateNS ≠ "") :
    System.Inductive (restartsSaved.system r) (Phase.protocol r) Phase.Final (Durable r) := by
  refine Scenario.inductive_final (fun {w φ i call} h hf hcall ↦ ?_)
    (fun h hg hx ↦ h.act hns hg hx) (fun {c m c'} h hm hap ↦ ?_)
  · obtain ⟨ht, -⟩ := h.not_restarting hf
    have hb : ∀ {s}, s.Settled r w → Backed r w s := fun hs ↦
      h.backed.move rfl rfl rfl hs fun h' ↦ (hf.not_saving h').elim
    cases call with
    | report s => exact ⟨.inl ⟨ht.outside rfl rfl rfl trivial hf.not_pending id, trivial⟩, hb trivial⟩
    | sweep => exact ⟨.inl ⟨ht.outside rfl rfl rfl trivial hf.not_pending id, trivial⟩, hb trivial⟩
    | startup => cases hcall
  · cases m with
    | tick t =>
        obtain ⟨-, rfl⟩ := Move.apply_tick hap
        have hb := h.backed.settled
        refine ⟨?_, h.backed.move rfl rfl rfl hb id⟩
        rcases h.mode with ⟨ht, ha⟩ | hr
        · exact .inl ⟨ht.tick t, ha.congr rfl⟩
        · exact .inr ⟨hr.empty, hr.stored, hr.phase⟩
    | restart i =>
        obtain rfl := Option.some.inj hap
        exact h.reset (by simpa [restartsSaved] using hm) _ (by simp [Call.phase, hns])
    | delete => cases hm
    | create => cases hm
    | edit => cases hm

/-- Where no call is in flight, what is outstanding is recorded. -/
theorem outstandingRecorded (h : Durable r w φ) (hf : (φ ()).Final) : OutstandingRecorded w := by
  obtain ⟨ht, -⟩ := h.not_restarting hf
  intro ns pod k o t ho
  obtain ⟨t', rfl, hd, hl⟩ := (h.backed.saved ho).resolve_right hf.not_saving
  obtain ⟨p, hp⟩ := h.backed.exists_pod ho
  rw [ht.lookup_ledger (w.cluster.podName hp).isPodKey fun _ ↦ hf.not_pending] at hl
  obtain ⟨st, hst, hraw⟩ := Option.map_eq_some_iff.mp hl
  obtain rfl := ThrottleState.raw_inj (ht.keyed hst).2.2 hraw
  exact ⟨t', rfl, hst⟩

end Durable

/-! ## The result -/

/-- A restart orphans no throttle, unless it falls between the patch and the ledger update
of one: whenever no call is in flight, every outstanding container has its record. -/
theorem restartsSaved_outstandingRecorded {r : Remediator} (hns : r.stateNS ≠ "") {w : World}
    (hw : Agree r w) (hh : w.history = []) {c : State Unit}
    (hr : (restartsSaved.system r).Reachable w.quiet c) (hq : c.Quiet) :
    OutstandingRecorded c.world := by
  have hinit : Durable r w fun _ ↦ .idle := by
    refine ⟨.inl ⟨.of_agree hw (fun _ ↦ id) fun _ ↦ rfl, trivial⟩, ?_, ?_, trivial⟩
    · simp [hh, outstanding]
    · simp [hh, outstanding]
  have hinv := (World.invariant_quiet hinit).reachable (Durable.isInductive hns) hr
  exact hinv.global.outstandingRecorded (hinv.quiet hq ())

/-! ## A kill between patch and ledger -/

/-- The pod is throttled and the process restarts; `Recover` finds the ledger entry. -/
def throttleAndRestart : List (Cmd Unit) :=
  .call () .web :: Cmd.acts () 15 ++ .move (.tick minute) :: .move (.restart ()) :: .act () {} ::
    .act () { scan := [⟨cmKey (podKey "web" "a"), (webRecord (10 * minute)).raw⟩] } :: []

theorem throttleAndRestart_outstandingRecorded :
    ∃ c : State Unit, (restartsSaved.system webRemediator).Reachable (World.fresh .web).quiet c ∧
      c.Quiet ∧ outstanding "web" "a" "app" c.world.history = some (some 200, some (10 * minute)) ∧
      OutstandingRecorded c.world := by
  obtain ⟨c, hr, hq, ho⟩ := Scenario.exists_reachable restartsSaved webRemediator
    (fun _ _ _ e ↦ match e with | .setThrottled _ st => decide (Dated st) | _ => true)
    (fun _ _ _ e h ↦ by cases e <;> first | trivial | simpa [restartsSaved] using h)
    throttleAndRestart (World.fresh .web).quiet
    (fun c ↦ (∀ i, (c.prog i).isPure) ∧
      outstanding "web" "a" "app" c.world.history = some (some 200, some (10 * minute)))
    (by decide +kernel)
  have hq := Configuration.quiet_of_isPure hq
  exact ⟨c, hr, hq, ho, restartsSaved_outstandingRecorded (by decide) (.fresh webRemediator .web)
    rfl hr hq⟩

/-- The process is killed before `persist`: the limit stays lowered, and nothing says so. -/
theorem killedBeforePersist_not_outstandingRecorded :
    ¬ ∀ c : State Unit, (restarts.system webRemediator).Reachable (World.fresh .web).quiet c →
      c.Quiet → OutstandingRecorded c.world := by
  intro h
  obtain ⟨c, hr, hq, ho, hl⟩ := Scenario.exists_reachable restarts webRemediator
    (fun _ _ _ _ ↦ true) (fun _ _ _ _ _ ↦ trivial)
    (.call () .web :: Cmd.acts () 7 ++ .move (.restart ()) :: Cmd.acts () 1)
    (World.fresh .web).quiet
    (fun c ↦ (∀ i, (c.prog i).isPure) ∧
      outstanding "web" "a" "app" c.world.history = some (some 200, some (10 * minute)) ∧
      c.world.throttled.lookup (podKey "web" "a") = none) (by decide +kernel)
  obtain ⟨t', -, hst⟩ := h c hr (Configuration.quiet_of_isPure hq) _ _ _ _ _ ho
  exact absurd (hl.symm.trans hst) nofun
