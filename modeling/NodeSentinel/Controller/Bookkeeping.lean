import NodeSentinel.Controller.Records
import NodeSentinel.Controller.Sequential

/-!
# The books of one remediator

Calls run one at a time, API calls may fail, pods may be deleted; nobody else sets a
limit.  `Booked` ties the live limits to the records: a pod is as it was at the start,
or it is that pod with one container lowered, and that container is the one its record
(or the call in flight) names.  `Timed` ties the records to the clock.  From the two
come the three results: the books are exact between calls, no limit is raised before
its time, and a sweep without failures that finds everything due puts everything back.
-/

open Function (update)

/-! ## Pods against the books -/

namespace World

variable {w : World} {ns name a b k : String}

/-- The pods that a deletion leaves. -/
theorem pod_deletePod {p : Pod} (h : (w.deletePod ns name).cluster.pod a b = some p) :
    w.cluster.pod a b = some p := by
  change (w.cluster.delete ns name).pod a b = some p at h
  rw [Cluster.pod_delete] at h
  split at h
  · cases h
  · exact h

theorem container?_deletePod {c : Container}
    (h : (w.deletePod ns name).cluster.container? a b k = some c) :
    w.cluster.container? a b k = some c := by
  obtain ⟨p, hp, hc⟩ := Option.bind_eq_some_iff.mp h
  rw [Cluster.container?_of_pod (pod_deletePod hp), hc]

end World

namespace Pod

/-- The pod `p₀` with the claimed container lowered to its request, where one is claimed. -/
def Matches (p₀ p : Pod) : Option (String × CPUText) → Prop
  | none => p = p₀
  | some (k, orig) => ∃ limit request, p₀.room k = some (limit, request) ∧ orig = some limit ∧
      p = p₀.setCPULimit k request

/-- Putting a lowered limit back gives the pod back. -/
theorem setCPULimit_back {p₀ : Pod} {k : String} {limit request : Quantity}
    (h : p₀.room k = some (limit, request)) :
    (p₀.setCPULimit k request).setCPULimit k limit = p₀ := by
  obtain ⟨c, hc, hl, -⟩ := room_eq_some h
  rw [setCPULimit_setCPULimit, setCPULimit_self hc hl]

end Pod

/-- The container of a pod that its record names, with the limit to put back. -/
def World.claim (w : World) (ns name : String) : Option (String × CPUText) :=
  (w.throttled.lookup (podKey ns name)).map fun st ↦ (st.container, st.originalCPULimit)

namespace Phase

/-- The container of a pod that is lowered, as the books and the call in flight have it. -/
def claim (w : World) (ns name : String) : Phase → Option (String × CPUText)
  | lowered ns' name' k limit _ =>
      if ns' = ns ∧ name' = name then some (k, some limit) else w.claim ns name
  | stamped st =>
      if st.ns = ns ∧ st.pod = name then some (st.container, st.originalCPULimit)
      else w.claim ns name
  | restored _ st _ => if st.ns = ns ∧ st.pod = name then none else w.claim ns name
  | _ => w.claim ns name

/-- What a call knows about the pods. -/
def KnowsPods (w : World) : Phase → Prop
  | read ns name p => ∀ p', w.cluster.pod ns name = some p' → p' = p
  | starting | recovering _ => False
  | _ => True

theorem Free.claim_eq {s : Phase} (h : s.Free) (w : World) (ns name : String) :
    s.claim w ns name = w.claim ns name := by
  cases s <;> first | rfl | exact h.elim

theorem Final.claim_eq {s : Phase} (h : s.Final) (w : World) (ns name : String) :
    s.claim w ns name = w.claim ns name := by
  cases s <;> first | rfl | exact h.elim

end Phase

/-- The live limits are those of `C₀`, but for the containers that the books or the call
in flight claim. -/
structure Booked (C₀ : Cluster) (w : World) (s : Phase) : Prop where
  alone : s.Alone w
  keyed : w.Keyed
  pods : ∀ {ns name p}, w.cluster.pod ns name = some p →
    ∃ p₀, C₀.pod ns name = some p₀ ∧ p₀.Matches p (s.claim w ns name)
  knows : s.KnowsPods w

namespace Booked

variable {C₀ : Cluster} {r : Remediator} {pol : Policy} {w w' : World} {s ψ : Phase} {e : Act}

/-- Transitions that change neither the cluster nor what is claimed. -/
theorem move (h : Booked C₀ w s) (ha : ψ.Alone w') (hk : w'.Keyed) (hC : w'.cluster = w.cluster)
    (hc : ∀ {ns name p}, w.cluster.pod ns name = some p →
      ψ.claim w' ns name = s.claim w ns name)
    (hψ : ψ.KnowsPods w') : Booked C₀ w' ψ where
  alone := ha
  keyed := hk
  pods hp := by
    rw [hC] at hp
    rw [hc hp]
    exact h.pods hp
  knows := hψ

/-- `throttle` lowers a limit. -/
theorem lower {ns name : String} {p p' : Pod} {c : Container} {limit request : Quantity}
    (h : Booked C₀ w (.read ns name p)) (hroom : p.room c.name = some (limit, request))
    (hp : w.cluster.pod ns name = some p') :
    Booked C₀ (w.patch .throttle (w.limitChange ns name p' c request))
      (.lowered ns name c.name limit request) := by
  obtain rfl := h.knows p' hp
  have hnone : w.throttled.lookup (podKey ns name) = none := h.alone
  refine ⟨h.alone, h.keyed, fun {a b q} hq ↦ ?_, trivial⟩
  change (w.cluster.setCPULimit ns name c.name request).pod a b = some q at hq
  rw [Cluster.pod_setCPULimit] at hq
  split at hq
  · next hab =>
      obtain ⟨rfl, rfl⟩ := hab
      obtain ⟨p₀, h₀, hm⟩ := h.pods hp
      obtain rfl : p' = p₀ := by
        simpa [Phase.claim, World.claim, hnone, Pod.Matches] using hm
      rw [hp, Option.map_some, Option.some.injEq] at hq
      refine ⟨p', h₀, ?_⟩
      simp only [Phase.claim, and_self, if_true]
      exact ⟨limit, request, hroom, rfl, hq.symm⟩
  · next hab =>
      obtain ⟨p₀, h₀, hm⟩ := h.pods hq
      have hne : ¬ (ns = a ∧ name = b) := fun he ↦ hab ⟨he.1.symm, he.2.symm⟩
      exact ⟨p₀, h₀, by simp only [Phase.claim, if_neg hne]; exact hm⟩

/-- `restore` puts a limit back. -/
theorem lift {st : ThrottleState} {rest : List ThrottleState} {p : Pod} {c : Container}
    {q : Quantity} (h : Booked C₀ w (.restoring (st :: rest)))
    (hp : w.cluster.pod st.ns st.pod = some p) (hc : p.container? st.container = some c)
    (hq : st.originalCPULimit = some q) :
    Booked C₀ (w.patch (.restore st) (w.limitChange st.ns st.pod p c q)) (.restored true st rest) := by
  have hname := (Pod.container?_eq_some_iff.mp hc).2
  refine ⟨h.alone, h.keyed, fun {a b q'} hq' ↦ ?_, trivial⟩
  change (w.cluster.setCPULimit st.ns st.pod c.name q).pod a b = some q' at hq'
  rw [Cluster.pod_setCPULimit] at hq'
  split at hq'
  · next hab =>
      obtain ⟨rfl, rfl⟩ := hab
      obtain ⟨p₀, h₀, hm⟩ := h.pods hp
      have hst : w.throttled.lookup (podKey st.ns st.pod) = some st := h.alone.1 st (.head _)
      simp only [Phase.claim, World.claim, hst, Option.map_some, Pod.Matches] at hm
      obtain ⟨limit, request, hroom, horig, rfl⟩ := hm
      obtain rfl := Option.some.inj (hq.symm.trans horig)
      rw [hp, Option.map_some, Option.some.injEq, hname, Pod.setCPULimit_back hroom] at hq'
      refine ⟨p₀, h₀, ?_⟩
      simp only [Phase.claim, and_self, if_true]
      exact hq'.symm
  · next hab =>
      obtain ⟨p₀, h₀, hm⟩ := h.pods hq'
      have hne : ¬ (st.ns = a ∧ st.pod = b) := fun he ↦ hab ⟨he.1.symm, he.2.symm⟩
      exact ⟨p₀, h₀, by simp only [Phase.claim, if_neg hne]; exact hm⟩

/-- The key of a record against the key of a pod that exists. -/
theorem key_eq {st : ThrottleState} {ns name : String} {p : Pod}
    (hp : w.cluster.pod ns name = some p) :
    podKey ns name = st.key ↔ st.ns = ns ∧ st.pod = name := by
  rw [ThrottleState.key, (w.cluster.podName hp).podKey_inj, eq_comm, @eq_comm _ name]

/-- A record claims its container. -/
theorem claim_insert {st : ThrottleState} {H : List Change} {ns name : String} {p : Pod}
    (hp : w.cluster.pod ns name = some p) :
    World.claim { w with throttled := w.throttled.insert st.key st, history := H } ns name =
      (Phase.stamped st).claim w ns name := by
  simp only [World.claim, Phase.claim]
  by_cases hkey : podKey ns name = st.key
  · rw [if_pos ((key_eq hp).mp hkey), hkey, Finmap.lookup_insert, Option.map_some]
  · rw [if_neg (mt (key_eq hp).mpr hkey), Finmap.lookup_insert_of_ne _ hkey]

/-- Without its record, a pod has no container claimed. -/
theorem claim_erase {l : Bool} {st : ThrottleState} {rest : List ThrottleState}
    {ns name : String} {p : Pod} (hp : w.cluster.pod ns name = some p) :
    World.claim { w with throttled := w.throttled.erase st.key } ns name =
      (Phase.restored l st rest).claim w ns name := by
  simp only [World.claim, Phase.claim]
  by_cases hkey : podKey ns name = st.key
  · rw [if_pos ((key_eq hp).mp hkey), hkey, Finmap.lookup_erase, Option.map_none]
  · rw [if_neg (mt (key_eq hp).mpr hkey), Finmap.lookup_erase_ne hkey]

/-- Every transition of a report or a sweep keeps the books. -/
theorem act (h : Booked C₀ w s) (hx : Phase.Trans r pol w s e w' ψ) : Booked C₀ w' ψ := by
  have ha : ψ.Alone w' := hx.alone h.keyed h.alone
  have hk : w'.Keyed := hx.keyed h.keyed
  have hs := h.knows
  cases hx with
  | stay | clearCooldown | event => exact h.move ha hk rfl (fun _ ↦ rfl) hs
  | skip _ hf => exact h.move ha hk rfl (fun _ ↦ (hf.claim_eq _ _ _).symm) trivial
  | unthrottled _ hf => exact h.move ha hk rfl (fun _ ↦ (hf.claim_eq _ _ _).symm) trivial
  | cooldown => exact h.move ha hk rfl (fun _ ↦ rfl) trivial
  | read hat hp =>
      refine h.move ha hk rfl (fun _ ↦ ?_) fun p' hp' ↦ Option.some.inj (hp'.symm.trans hp)
      rcases hat with rfl | ⟨_, rfl⟩ <;> rfl
  | lower _ _ _ _ hroom hp => exact h.lower hroom hp
  | stamp ns pod k orig request => exact h.move ha hk rfl (fun _ ↦ rfl) trivial
  | record st =>
      split
      · exact h.move trivial hk rfl claim_insert trivial
      · exact h.move ⟨Finmap.lookup_insert _, by simp [World.Records]⟩ hk rfl claim_insert trivial
  | sweep => exact h.move ha hk rfl (fun _ ↦ rfl) trivial
  | collect => exact h.move ha hk rfl (fun _ ↦ rfl) trivial
  | lift _ hp hc hq => exact h.lift hp hc hq
  | @gone st rest _ _ hp =>
      refine h.move ha hk rfl (fun {ns name p} hp' ↦ if_neg fun he ↦ ?_) trivial
      obtain ⟨rfl, rfl⟩ := he
      exact absurd (hp.symm.trans hp') (by simp)
  | keep => exact h.move ha hk rfl (fun _ ↦ rfl) trivial
  | drop _ st rest =>
      split
      · exact h.move h.alone.erase hk rfl claim_erase trivial
      · exact h.move ⟨Finmap.lookup_erase _ _, h.alone.erase⟩ hk rfl claim_erase trivial
  | lock | load | miss | create | race | abandon | write | writeFails =>
      exact h.move ha hk rfl (fun _ ↦ rfl) trivial
  | @unlock _ _ v => cases v <;> exact h.move ha hk rfl (fun _ ↦ rfl) trivial
  | begin | begin_none | recover => exact hs.elim

/-- A pod is deleted. -/
theorem delete (h : Booked C₀ w s) (ns name : String) : Booked C₀ (w.deletePod ns name) s := by
  have hsub : ∀ {a b p}, (w.deletePod ns name).cluster.pod a b = some p →
      w.cluster.pod a b = some p := World.pod_deletePod
  refine ⟨h.alone.congr rfl, h.keyed, fun {a b p} hp ↦ ?_, ?_⟩
  · have hc : s.claim (w.deletePod ns name) a b = s.claim w a b := by cases s <;> rfl
    rw [hc]
    exact h.pods (hsub hp)
  · have hs := h.knows
    cases s with
    | read a b p => exact fun p' hp' ↦ hs p' (hsub hp')
    | starting | recovering => exact hs.elim
    | _ => trivial

end Booked

/-! ## Records against the clock -/

/-- The record was made for a throttle of its container, `RestoreAfter` before its restore
time at least. -/
def Begun (r : Remediator) (w : World) (st : ThrottleState) : Prop :=
  ∃ y, .throttled y ∈ w.history ∧ y.ns = st.ns ∧ y.pod = st.pod ∧ y.container = st.container ∧
    y.time + r.cfg.restoreAfter ≤ st.restoreAt

/-- What a call knows about times: what it restores is due. -/
def Phase.Times (r : Remediator) (w : World) : Phase → Prop
  | lowered ns pod k _ _ => ∃ y, .throttled y ∈ w.history ∧ y.ns = ns ∧ y.pod = pod ∧
      y.container = k ∧ y.time ≤ w.clock
  | stamped st => Begun r w st
  | sweeping now => now ≤ w.clock
  | restoring rest | restored _ _ rest | ledger _ _ _ rest => ∀ st ∈ rest, st.restoreAt < w.clock
  | starting | recovering _ => False
  | _ => True

structure Timed (r : Remediator) (w : World) (s : Phase) : Prop where
  records : ∀ {k st}, w.throttled.lookup k = some st → Begun r w st
  times : s.Times r w

namespace Timed

variable {r : Remediator} {pol : Policy} {w w' : World} {s ψ : Phase} {e : Act}

theorem begun_mono {st : ThrottleState} (h : Begun r w st)
    (hH : ∀ {x}, x ∈ w.history → x ∈ w'.history) : Begun r w' st := by
  obtain ⟨y, hy, hrest⟩ := h
  exact ⟨y, hH hy, hrest⟩

theorem move (h : Timed r w s) (hT : ∀ {k st}, w'.throttled.lookup k = some st →
    w.throttled.lookup k = some st) (hH : ∀ {x}, x ∈ w.history → x ∈ w'.history)
    (hψ : ψ.Times r w') : Timed r w' ψ :=
  ⟨fun hk ↦ begun_mono (h.records (hT hk)) hH, hψ⟩

/-- Every transition keeps the records and the calls in time. -/
theorem act (h : Timed r w s) (hx : Phase.Trans r pol w s e w' ψ) : Timed r w' ψ := by
  have hs := h.times
  cases hx with
  | stay | clearCooldown | event => exact h.move id id hs
  | skip | unthrottled | cooldown | read => exact h.move id id trivial
  | lower => exact h.move id (.tail _) ⟨_, .head _, rfl, rfl, rfl, le_rfl⟩
  | stamp ns pod k orig request =>
      obtain ⟨y, hy, h₁, h₂, h₃, ht⟩ := hs
      exact h.move id id ⟨y, hy, h₁, h₂, h₃, add_le_add_left ht _⟩
  | record st =>
      refine ⟨fun {k st'} hk ↦ ?_, ?_⟩
      · rcases Finmap.lookup_insert_eq_some hk with ⟨-, rfl⟩ | ⟨-, hk⟩
        · exact begun_mono hs (.tail _)
        · exact begun_mono (h.records hk) (.tail _)
      · split
        · trivial
        · exact fun st hst ↦ nomatch hst
  | sweep => exact h.move id id le_rfl
  | collect hd =>
      refine h.move id id fun st hst ↦ ?_
      exact (World.mem_due.mp (hd ▸ Multiset.mem_coe.mpr hst)).2.trans_le hs
  | lift => exact h.move id (.tail _) fun st' hst' ↦ hs st' (.tail _ hst')
  | gone => exact h.move id id fun st' hst' ↦ hs st' (.tail _ hst')
  | keep => exact h.move id id fun st' hst' ↦ hs st' (.tail _ hst')
  | drop _ st rest =>
      refine h.move (fun hk ↦ (Finmap.lookup_erase_eq_some_iff.mp hk).2) id ?_
      split <;> exact hs
  | lock | load | miss | create | race | abandon | write | writeFails => exact h.move id id hs
  | @unlock _ _ v =>
      refine h.move id id ?_
      cases v with
      | none => exact hs
      | some st => trivial
  | begin | begin_none | recover => exact hs.elim

theorem tick (h : Timed r w s) {t : Time} (ht : w.clock ≤ t) : Timed r { w with clock := t } s := by
  refine ⟨fun hk ↦ h.records hk, ?_⟩
  have hs := h.times
  cases s with
  | lowered ns pod k orig request =>
      obtain ⟨y, hy, h₁, h₂, h₃, hle⟩ := hs
      exact ⟨y, hy, h₁, h₂, h₃, hle.trans ht⟩
  | stamped st => exact hs
  | sweeping now => exact le_trans hs ht
  | restoring | restored | ledger => exact fun st hst ↦ (hs st hst).trans_le ht
  | starting | recovering => exact hs.elim
  | _ => trivial

theorem delete (h : Timed r w s) (ns name : String) : Timed r (w.deletePod ns name) s := by
  refine ⟨fun hk ↦ begun_mono (h.records hk) (.tail _), ?_⟩
  have hs := h.times
  cases s with
  | lowered ns pod k orig request =>
      obtain ⟨y, hy, hrest⟩ := hs
      exact ⟨y, .tail _ hy, hrest⟩
  | stamped st => exact begun_mono hs (.tail _)
  | starting | recovering => exact hs.elim
  | _ => exact hs

end Timed

/-! ## Between calls -/

/-- Every container of an existing pod has its initial limit and no record names it, or it
is the container of the record of its pod: lowered from its initial limit, which the
record holds, to its request. -/
def BooksExact (C₀ : Cluster) (w : World) : Prop :=
  ∀ ns name k c, w.cluster.container? ns name k = some c →
    ∃ c₀, C₀.container? ns name k = some c₀ ∧
      ((c = c₀ ∧ ∀ key st, w.throttled.lookup key = some st →
          ¬ (st.ns = ns ∧ st.pod = name ∧ st.container = k)) ∨
        ∃ st limit request, w.throttled.lookup (podKey ns name) = some st ∧ st.container = k ∧
          st.originalCPULimit = some limit ∧ c.LoweredFrom c₀ limit request)

theorem Booked.booksExact {C₀ : Cluster} {w : World} {s : Phase} (h : Booked C₀ w s)
    (hs : s.Final) : BooksExact C₀ w := by
  intro ns name k c hc
  obtain ⟨p, hp, hc⟩ := Option.bind_eq_some_iff.mp hc
  obtain ⟨p₀, h₀, hm⟩ := h.pods hp
  rw [hs.claim_eq, World.claim] at hm
  cases hst : w.throttled.lookup (podKey ns name) with
  | none =>
      simp only [hst, Option.map_none, Pod.Matches] at hm
      subst hm
      refine ⟨c, by rw [Cluster.container?_of_pod h₀, hc], .inl ⟨rfl, fun key st hl he ↦ ?_⟩⟩
      have hkey : key = podKey ns name := by
        rw [h.keyed hl, ThrottleState.key, he.1, he.2.1]
      rw [hkey, hst] at hl
      cases hl
  | some st =>
      simp only [hst, Option.map_some, Pod.Matches] at hm
      obtain ⟨limit, request, hroom, horig, rfl⟩ := hm
      rw [Pod.container?_setCPULimit] at hc
      obtain ⟨c₀, hc₀, rfl⟩ := Option.map_eq_some_iff.mp hc
      have hname := (Pod.container?_eq_some_iff.mp hc₀).2
      refine ⟨c₀, by rw [Cluster.container?_of_pod h₀, hc₀], ?_⟩
      by_cases hk : st.container = k
      · obtain ⟨d, hd, hl, hq, hlt⟩ := Pod.room_eq_some hroom
        rw [hk, hc₀, Option.some.injEq] at hd
        subst hd
        exact .inr ⟨st, limit, request, rfl, hk, horig, hl, hq, hlt,
          by simp [Container.setCPULimit, hname, hk]⟩
      · refine .inl ⟨Container.setCPULimit_of_ne (hname.trans_ne (Ne.symm hk)) _,
          fun key st' hl he ↦ hk ?_⟩
        have hkey : key = podKey ns name := by
          rw [h.keyed hl, ThrottleState.key, he.1, he.2.1]
        rw [hkey, hst, Option.some.injEq] at hl
        rw [hl]
        exact he.2.2

/-! ## Limits that are raised -/

/-- From `w` to `w'` a limit is raised only where its record is due; and a record is due
`RestoreAfter` after its throttle at the earliest. -/
def RaisesOnlyDue (r : Remediator) (w w' : World) : Prop :=
  ∀ ns name k a b l l', w.cluster.container? ns name k = some a →
    w'.cluster.container? ns name k = some b → a.cpuLimit = some l → b.cpuLimit = some l' →
    l < l' → ∃ st, w.throttled.lookup (podKey ns name) = some st ∧ st.container = k ∧
      st.restoreAt < w.clock ∧ Begun r w st

theorem RaisesOnlyDue.of_eq {r : Remediator} {w w' : World}
    (h : ∀ ns name k b, w'.cluster.container? ns name k = some b →
      w.cluster.container? ns name k = some b) : RaisesOnlyDue r w w' := by
  intro ns name k a b l l' ha hb hl hl' hlt
  obtain rfl := Option.some.inj (ha.symm.trans (h _ _ _ _ hb))
  obtain rfl := Option.some.inj (hl.symm.trans hl')
  exact absurd hlt (lt_irrefl _)

/-- A patch changes the limit of one container. -/
theorem RaisesOnlyDue.of_patch {r : Remediator} {w : World} {site : PatchSite} {x : LimitChange}
    (h : ∀ {a l}, w.cluster.container? x.ns x.pod x.container = some a → a.cpuLimit = some l →
      l < x.new → ∃ st, w.throttled.lookup (podKey x.ns x.pod) = some st ∧
        st.container = x.container ∧ st.restoreAt < w.clock ∧ Begun r w st) :
    RaisesOnlyDue r w (w.patch site x) := by
  intro ns name k a b l l' ha hb hl hl' hlt
  change (w.cluster.setCPULimit x.ns x.pod x.container x.new).container? ns name k = some b at hb
  by_cases he : ns = x.ns ∧ name = x.pod ∧ k = x.container
  · obtain ⟨rfl, rfl, rfl⟩ := he
    rw [Cluster.container?_setCPULimit_self, ha, Option.map_some, Option.some.injEq] at hb
    subst hb
    obtain rfl := Option.some.inj hl'
    exact h ha hl hlt
  · rw [Cluster.container?_setCPULimit_of_ne he, ha, Option.some.injEq] at hb
    subst hb
    obtain rfl := Option.some.inj (hl.symm.trans hl')
    exact absurd hlt (lt_irrefl _)

theorem Booked.raisesOnlyDue {C₀ : Cluster} {r : Remediator} {pol : Policy} {w w' : World}
    {s ψ : Phase} {e : Act} (h : Booked C₀ w s) (ht : Timed r w s)
    (hx : Phase.Trans r pol w s e w' ψ) : RaisesOnlyDue r w w' := by
  cases hx with
  | @lower ns name p p' c limit request _ _ _ _ hroom hp hc =>
      -- a throttle lowers
      refine .of_patch fun {a l} ha hl hlt ↦ ?_
      obtain rfl := h.knows p' hp
      obtain ⟨d, hd, hlim, -, hreq⟩ := Pod.room_eq_some hroom
      change w.cluster.container? ns name c.name = some a at ha
      rw [Cluster.container?_of_pod hp, hd, Option.some.injEq] at ha
      subst ha
      obtain rfl := Option.some.inj (hlim.symm.trans hl)
      exact absurd hreq (not_lt.mpr (le_of_lt hlt))
  | @lift st rest p c q _ hp hc hq =>
      have hname := (Pod.container?_eq_some_iff.mp hc).2
      have hst : w.throttled.lookup st.key = some st := h.alone.1 st (.head _)
      exact .of_patch fun _ _ _ ↦
        ⟨st, hst, hname.symm, ht.times st (.head _), ht.records hst⟩
  | _ => exact .of_eq fun _ _ _ _ ↦ id

/-! ## A sweep that puts everything back -/

/-- What a served sweep, started when everything is due, has still to put back: at most
what is left of its list. -/
def Phase.Remaining (w : World) : Phase → Prop
  | waking => ∀ k st, w.throttled.lookup k = some st → st.restoreAt < w.clock
  | sweeping now => ∀ k st, w.throttled.lookup k = some st → st.restoreAt < now
  | restoring rest => ∀ k st, w.throttled.lookup k = some st → st ∈ rest
  | ledger _ _ v rest => v = none ∧ ∀ k st, w.throttled.lookup k = some st → st ∈ rest
  | restored _ st rest => ∀ k st', w.throttled.lookup k = some st' → st' ∈ st :: rest
  | _ => False

theorem Booked.remaining {C₀ : Cluster} {r : Remediator} {w w' : World} {s ψ : Phase} {e : Act}
    (h : Booked C₀ w s) (hr : s.Remaining w) (hx : Phase.Trans r .reliable w s e w' ψ) :
    ψ.Remaining w' := by
  cases hx with
  | stay | clearCooldown | event => cases s <;> exact hr
  | skip _ hf => cases s <;> first | exact hr.elim | exact hf.elim
  | unthrottled _ hf => cases s <;> first | exact hr.elim | exact hf.elim
  | read hat => rcases hat with rfl | ⟨_, rfl⟩ <;> exact hr.elim
  | cooldown | lower | stamp | record | begin | begin_none | recover => exact hr.elim
  | sweep => exact hr
  | collect hd =>
      exact fun k st hk ↦ Multiset.mem_coe.mp (hd ▸ World.mem_due.mpr ⟨⟨k, hk⟩, hr k st hk⟩)
  | lift => exact hr
  | gone => exact hr
  | @keep st rest _ hf =>
      -- the record of an existing pod can be put back
      obtain ⟨p, hp, hf⟩ := hf.resolve_left nofun
      obtain ⟨p₀, -, hm⟩ := h.pods hp
      have hst : w.throttled.lookup (podKey st.ns st.pod) = some st := h.alone.1 st (.head _)
      simp only [Phase.claim, World.claim, hst, Option.map_some, Pod.Matches] at hm
      obtain ⟨limit, request, hroom, horig, rfl⟩ := hm
      obtain ⟨c, hc, -⟩ := Pod.room_eq_some hroom
      rcases hf with hf | hf
      · rw [Pod.container?_setCPULimit, hc] at hf
        cases hf
      · exact absurd (hf.symm.trans horig) nofun
  | drop _ st rest =>
      have hrest : ∀ k st', (w.throttled.erase st.key).lookup k = some st' → st' ∈ rest := by
        intro k st' hk
        obtain ⟨hne, hold⟩ := Finmap.lookup_erase_eq_some_iff.mp hk
        refine (List.mem_cons.mp (hr k st' hold)).resolve_left ?_
        rintro rfl
        exact hne (h.keyed hold)
      split
      · exact hrest
      · exact ⟨rfl, hrest⟩
  | lock | load | miss | create | race | abandon | write | writeFails => exact hr
  | unlock =>
      obtain ⟨rfl, hrest⟩ := hr
      exact hrest

/-- A sweep alone; every API call is served. -/
def lastSweep : Scenario Unit where
  pol := .reliable
  calls _ _ := false
  moves _ m := match m with
    | .tick _ | .delete _ _ => true
    | _ => false

/-- `restoreDue` is called. -/
def World.sweeping (w : World) (r : Remediator) : State Unit :=
  ⟨w, fun _ ↦ .waking, fun _ ↦ restoreDue r⟩

theorem lastSweep_isInductive (r : Remediator) (C₀ : Cluster) :
    System.Inductive (lastSweep.system r) (Phase.protocol r) (· = .restoring [])
      fun w φ ↦ Booked C₀ w (φ ()) ∧ (φ ()).Remaining w := by
  refine Scenario.inductive_of (fun _ _ hcall ↦ nomatch hcall) (fun _ _ hm ↦ nomatch hm)
    (fun _ _ hcall ↦ nomatch hcall) (fun {w φ i e w' ψ} h _ hx ↦ ?_) (fun {c m c'} h hm hap ↦ ?_)
  · simpa using ⟨h.1.act hx, h.1.remaining h.2 hx⟩
  · obtain ⟨hb, hr⟩ := h
    cases m with
    | tick t =>
        obtain ⟨ht, rfl⟩ := Move.apply_tick hap
        refine ⟨hb.move (hb.alone.congr rfl) hb.keyed rfl (fun _ ↦ ?_) hb.knows, ?_⟩
        · cases c.phase () <;> rfl
        · revert hr
          cases c.phase () with
          | waking => exact fun hr k st hk ↦ (hr k st hk).trans_le ht
          | _ => exact id
    | delete ns name =>
        obtain rfl := Option.some.inj hap
        exact ⟨hb.delete ns name, hr⟩
    | _ => cases hm

/-- A served sweep that starts when everything is due leaves no record and every existing
pod as it was. -/
theorem Booked.lastSweep {C₀ : Cluster} {r : Remediator} {w : World} (h : Booked C₀ w .waking)
    (hdue : ∀ k st, w.throttled.lookup k = some st → st.restoreAt < w.clock) {c : State Unit}
    (hr : (lastSweep.system r).Reachable (w.sweeping r) c) (hq : c.Quiet) :
    c.world.throttled = ∅ ∧
      ∀ ns name p, c.world.cluster.pod ns name = some p → C₀.pod ns name = some p := by
  have hinv := System.Invariant.reachable (lastSweep_isInductive r C₀) (c := w.sweeping r)
    ⟨⟨h, hdue⟩, fun _ ↦ restoreDue_follows⟩ hr
  obtain ⟨hb, hrem⟩ := hinv.global
  have hs := hinv.quiet hq ()
  rw [hs] at hb hrem
  have hempty : ∀ k, c.world.throttled.lookup k = none := fun k ↦
    Option.eq_none_iff_forall_ne_some.mpr fun st hk ↦ nomatch hrem k st hk
  refine ⟨Finmap.ext_lookup fun k ↦ by rw [hempty, Finmap.lookup_empty], fun ns name p hp ↦ ?_⟩
  obtain ⟨p₀, h₀, hm⟩ := hb.pods hp
  simp only [Phase.claim, World.claim, hempty, Option.map_none, Pod.Matches] at hm
  rw [hm, h₀]

/-! ## The result -/

/-- Reports and sweeps one at a time; API calls may fail, and pods may be deleted. -/
def faultyCalls : Scenario Unit where
  pol := .unreliable
  calls _ call := match call with
    | .startup => false
    | _ => true
  moves _ m := match m with
    | .tick _ | .delete _ _ => true
    | _ => false

theorem faultyCalls_isInductive (r : Remediator) (C₀ : Cluster) :
    System.Inductive (faultyCalls.system r) (Phase.protocol r) Phase.Final
      fun w φ ↦ Booked C₀ w (φ ()) ∧ Timed r w (φ ()) := by
  refine Scenario.inductive_final (fun {w φ i call} h hf hcall ↦ ?_)
    (fun {w φ i e w' ψ} h _ hx ↦ ?_) (fun {c m c'} h hm hap ↦ ?_)
  · obtain ⟨hb, ht⟩ := h
    have hclaim : ∀ ns name, (φ ()).claim w ns name = w.claim ns name := hf.claim_eq w
    simp only [Function.update_self]
    cases call with
    | report s =>
        exact ⟨hb.move trivial hb.keyed rfl (fun _ ↦ (hclaim _ _).symm) trivial,
          ht.move id id trivial⟩
    | sweep =>
        exact ⟨hb.move trivial hb.keyed rfl (fun _ ↦ (hclaim _ _).symm) trivial,
          ht.move id id trivial⟩
    | startup => cases hcall
  · simpa using ⟨h.1.act hx, h.2.act hx⟩
  · obtain ⟨hb, ht⟩ := h
    cases m with
    | tick t =>
        obtain ⟨hle, rfl⟩ := Move.apply_tick hap
        refine ⟨hb.move (hb.alone.congr rfl) hb.keyed rfl (fun _ ↦ ?_) hb.knows, ht.tick hle⟩
        cases c.phase () <;> rfl
    | delete ns name =>
        obtain rfl := Option.some.inj hap
        exact ⟨hb.delete ns name, ht.delete ns name⟩
    | _ => cases hm

/-- The books of a remediator that starts with none: exact between calls; no limit is raised
before it is due; and a sweep without failures that starts when everything is due puts
everything back. -/
theorem faultyCalls_books {r : Remediator} {w : World} (hw : w.throttled = ∅) {c : State Unit}
    (hr : (faultyCalls.system r).Reachable w.quiet c) :
    (c.Quiet → BooksExact w.cluster c.world) ∧
    (∀ c', (faultyCalls.system r).Step c c' → RaisesOnlyDue r c.world c'.world) ∧
    (c.Quiet → (∀ k st, c.world.throttled.lookup k = some st → st.restoreAt < c.world.clock) →
      ∀ c', (lastSweep.system r).Reachable (c.world.sweeping r) c' → c'.Quiet →
        c'.world.throttled = ∅ ∧
          ∀ ns name p, c'.world.cluster.pod ns name = some p → w.cluster.pod ns name = some p) := by
  have hinit : Booked w.cluster w .idle ∧ Timed r w .idle := by
    refine ⟨⟨trivial, fun hk ↦ by simp [hw] at hk, fun hp ↦ ⟨_, hp, ?_⟩, trivial⟩,
      ⟨fun hk ↦ by simp [hw] at hk, trivial⟩⟩
    simp [Phase.claim, World.claim, hw, Pod.Matches]
  have hinv := System.Invariant.reachable (faultyCalls_isInductive r w.cluster)
    (World.invariant_quiet hinit) hr
  obtain ⟨hb, ht⟩ := hinv.global
  refine ⟨fun hq ↦ hb.booksExact (hinv.quiet hq ()), fun c' hs ↦ ?_, fun hq hdue c' hr' hq' ↦ ?_⟩
  · rcases Scenario.step_cases hinv hs with he | ⟨_, _, _, hx⟩ | ⟨m, hm, hap⟩
    · exact .of_eq fun _ _ _ _ hb ↦ he ▸ hb
    · exact hb.raisesOnlyDue ht hx
    · cases m with
      | tick t => obtain ⟨-, rfl⟩ := Move.apply_tick hap; exact .of_eq fun _ _ _ _ ↦ id
      | delete ns name =>
          obtain rfl := Option.some.inj hap
          exact .of_eq fun _ _ _ _ ↦ World.container?_deletePod
      | _ => cases hm
  · have hf := hinv.quiet hq ()
    exact Booked.lastSweep (hb.move trivial hb.keyed rfl (fun _ ↦ (hf.claim_eq _ _ _).symm) trivial)
      hdue hr' hq'

/-- The pod is throttled although no ledger can be written, and the books are exact. -/
theorem unsavedThrottle_books :
    ∃ c : State Unit, (faultyCalls.system webRemediator).Reachable (World.fresh .web).quiet c ∧
      c.Quiet ∧ c.world.cluster.container? "web" "a" "app" = some ⟨"app", some 100, some 100⟩ ∧
      BooksExact .web c.world ∧
      ∀ c', (faultyCalls.system webRemediator).Step c c' →
        RaisesOnlyDue webRemediator c.world c'.world := by
  obtain ⟨c, hr, hq, hc⟩ := Scenario.exists_reachable faultyCalls webRemediator
    (fun _ _ _ _ ↦ true) (fun _ _ _ _ _ ↦ trivial)
    (.call () .web :: Cmd.acts () 8 ++ .act () { ok := false } :: Cmd.acts () 4)
    (World.fresh .web).quiet
    (fun c ↦ (∀ i, (c.prog i).isPure) ∧
      c.world.cluster.container? "web" "a" "app" = some ⟨"app", some 100, some 100⟩)
    (by decide +kernel)
  have hq := Configuration.quiet_of_isPure hq
  obtain ⟨hbooks, hraise, -⟩ := faultyCalls_books rfl hr
  exact ⟨c, hr, hq, hc, hbooks hq, hraise⟩
