import NodeSentinel.Controller.Ledger

/-!
# Calls that run one at a time

With a single slot nothing changes the records but the call in flight.  `Alone` says
what a call then knows about them at each point: the target it acts on has no record,
the records it restores are still there and have distinct keys, and the ledger section
writes what the memory holds.
-/

open Function (update)

/-- Every record is under the key of its pod. -/
def World.Keyed (w : World) : Prop := ∀ {k st}, w.throttled.lookup k = some st → k = st.key

/-- Records that are all there, under distinct keys. -/
def World.Records (w : World) (rest : List ThrottleState) : Prop :=
  (∀ st ∈ rest, w.throttled.lookup st.key = some st) ∧ (rest.map ThrottleState.key).Nodup

namespace World

variable {w : World}

/-- The records that are due have distinct keys. -/
theorem Keyed.due_nodup (h : w.Keyed) (now : Time) :
    ((w.due now).map ThrottleState.key).Nodup := by
  rw [due, Multiset.filter_map, Multiset.map_map]
  have hfst : ∀ x ∈ w.throttled.entries.filter ((fun st ↦ st.restoreAt < now) ∘ Sigma.snd),
      (ThrottleState.key ∘ Sigma.snd) x = Sigma.fst x := by
    rintro ⟨k, st⟩ hx
    exact (h (Finmap.mem_lookup_iff.mpr (Multiset.mem_filter.mp hx).1)).symm
  rw [Multiset.map_congr rfl hfst]
  exact Multiset.nodup_of_le (Multiset.map_le_map (Multiset.filter_le _ _))
    (Multiset.nodup_keys.mpr w.throttled.nodupKeys)

theorem Keyed.records_due (h : w.Keyed) {now : Time} {due : List ThrottleState}
    (hd : (due : Multiset _) = w.due now) : w.Records due := by
  refine ⟨fun st hst ↦ ?_, ?_⟩
  · obtain ⟨⟨k, hk⟩, -⟩ := mem_due.mp (hd ▸ Multiset.mem_coe.mpr hst)
    exact h hk ▸ hk
  · have := h.due_nodup now
    rwa [← hd, Multiset.map_coe, Multiset.coe_nodup] at this

theorem Records.tail {st : ThrottleState} {rest : List ThrottleState}
    (h : w.Records (st :: rest)) : w.Records rest :=
  ⟨fun st' hst' ↦ h.1 st' (.tail _ hst'), (List.nodup_cons.mp h.2).2⟩

/-- Deleting the record at the head leaves the others. -/
theorem Records.erase {st : ThrottleState} {rest : List ThrottleState}
    (h : w.Records (st :: rest)) :
    Records { w with throttled := w.throttled.erase st.key } rest := by
  obtain ⟨hnot, hnodup⟩ := List.nodup_cons.mp h.2
  refine ⟨fun st' hst' ↦ ?_, hnodup⟩
  have hne : st'.key ≠ st.key := fun he ↦ hnot (he ▸ List.mem_map_of_mem hst')
  exact (Finmap.lookup_erase_ne hne).trans (h.1 st' (.tail _ hst'))

end World

namespace Phase

/-- What a call that runs alone knows about the records. -/
def Alone (w : World) : Phase → Prop
  | unthrottled k | acting k => w.throttled.lookup k = none
  | read ns name _ => w.throttled.lookup (podKey ns name) = none
  | lowered ns pod _ _ _ => w.throttled.lookup (podKey ns pod) = none
  | stamped st => w.throttled.lookup st.key = none
  | restoring rest => w.Records rest
  | restored _ st rest => w.Records (st :: rest)
  | ledger _ k v rest => w.throttled.lookup k = v ∧ w.Records rest
  | _ => True

variable {r : Remediator} {pol : Policy} {w w' : World} {s ψ : Phase} {e : Act}

theorem Alone.congr (h : s.Alone w) (hT : w'.throttled = w.throttled) : s.Alone w' := by
  cases s <;> first | trivial | simpa only [Alone, World.Records, hT] using h

theorem Trans.keyed (ht : Trans r pol w s e w' ψ) (h : w.Keyed) : w'.Keyed := by
  cases ht with
  | record st =>
      intro k st' hk
      rcases Finmap.lookup_insert_eq_some hk with ⟨rfl, rfl⟩ | ⟨-, hk⟩
      · rfl
      · exact h hk
  | drop _ st rest =>
      intro k st' hk
      exact h (Finmap.lookup_erase_eq_some_iff.mp hk).2
  | recover =>
      intro k st hk
      rcases World.lookup_foldl_recoverEntry hk with hm | ⟨_, _, _, he⟩
      · exact h hm
      · exact he
  | _ => exact h

/-- A call that runs alone keeps knowing it. -/
theorem Trans.alone (ht : Trans r pol w s e w' ψ) (hk : w.Keyed) (h : s.Alone w) :
    ψ.Alone w' := by
  cases ht with
  | stay | clearCooldown | event => exact h.congr rfl
  | skip => trivial
  | unthrottled _ _ hnone => exact hnone
  | cooldown => exact h
  | read hat =>
      rcases hat with rfl | ⟨_, rfl⟩ <;> exact h
  | lower => exact h
  | stamp => exact h
  | record st =>
      split
      · trivial
      · exact ⟨Finmap.lookup_insert _, by simp [World.Records]⟩
  | sweep => trivial
  | collect hd => exact hk.records_due hd
  | lift => exact h
  | gone => exact h
  | keep => exact h.tail
  | drop _ st rest =>
      split
      · exact h.erase
      · exact ⟨Finmap.lookup_erase _ _, h.erase⟩
  | lock | load | miss | create | race | abandon | write | writeFails => exact h
  | @unlock _ _ v =>
      cases v with
      | none => exact h.2
      | some st => trivial
  | begin | begin_none | recover => trivial

/-- A ledger section of a call that runs alone writes what the memory holds. -/
theorem Alone.eq_lookup (h : s.Alone w) {k : String} {v : Option ThrottleState}
    (hp : s.Pending k v) : v = w.throttled.lookup k := by
  cases s with
  | ledger stage k' v' rest =>
      obtain ⟨-, rfl, rfl⟩ := hp
      exact h.1.symm
  | _ => exact hp.elim

end Phase

/-- The ledger entry of a pod that the call in flight is not writing. -/
theorem Tracked.lookup_ledger {P : ThrottleState → Prop} {r : Remediator} {w : World}
    {φ : Unit → Phase} (h : Tracked P r w φ) {k : String} (hk : IsPodKey k)
    (hp : ∀ v, ¬ (φ ()).Pending k v) :
    (w.ledger r).lookup (cmKey k) = (w.throttled.lookup k).map ThrottleState.raw :=
  (h.synced hk).resolve_right fun ⟨_, hi⟩ ↦ hp _ hi
