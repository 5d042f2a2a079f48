import Mathlib

/-!
# Finite maps

How many keys a map has, and what one holds after a change.
-/

namespace AList

universe u v

variable {α : Type u} [DecidableEq α] {β : α → Type v}

omit [DecidableEq α] in
theorem length_keys (m : AList β) : m.keys.length = m.entries.length := List.length_map _

theorem length_le_insert (m : AList β) (key : α) (v : β key) :
    m.entries.length ≤ (m.insert key v).entries.length := by
  rw [← length_keys, ← length_keys, keys_insert, List.length_cons]
  by_cases h : key ∈ m.keys
  · rw [List.length_erase_of_mem h]
    omega
  · rw [List.erase_of_not_mem h]
    omega

theorem card_keys (m : AList β) : m.keys.toFinset.card = m.entries.length :=
  (List.toFinset_card_of_nodup m.keys_nodup).trans m.length_keys

/-- There are no more keys than members of a set they are in. -/
theorem length_le_card (m : AList β) {s : Finset α} (h : ∀ key ∈ m, key ∈ s) :
    m.entries.length ≤ s.card := by
  rw [← card_keys]
  exact Finset.card_le_card fun key hkey ↦ h key (List.mem_toFinset.mp hkey)

/-- Maps with the same keys are of the same length. -/
theorem length_congr {m m' : AList β} (h : ∀ key, key ∈ m' ↔ key ∈ m) :
    m'.entries.length = m.entries.length := by
  rw [← card_keys, ← card_keys]
  exact congrArg Finset.card (Finset.ext fun key ↦ by
    rw [List.mem_toFinset, List.mem_toFinset]
    exact h key)

/-- What the entries of one key add up to. -/
theorem sum_entries {V : Type*} (m : AList fun _ : α ↦ V) (key : α) (g : V → ℕ) :
    (m.entries.map fun e ↦ if e.1 = key then g e.2 else 0).sum = (m.lookup key).elim 0 g := by
  have hzero : ∀ {l : List (Sigma fun _ : α ↦ V)}, key ∉ l.keys →
      (l.map fun e ↦ if e.1 = key then g e.2 else 0).sum = 0 := fun hl ↦ by
    refine List.sum_eq_zero fun k hk ↦ ?_
    obtain ⟨e, he, rfl⟩ := List.mem_map.mp hk
    refine if_neg fun hc ↦ hl ?_
    rw [← hc]
    exact List.mem_keys_of_mem he
  cases hl : m.lookup key with
  | none => exact hzero (lookup_eq_none.mp hl)
  | some v =>
      have hkey : key ∈ m.entries.keys := lookup_isSome.mp (Option.isSome_iff_exists.mpr ⟨v, hl⟩)
      obtain ⟨v', l, l', hnot, hsplit, -⟩ := List.exists_of_kerase hkey
      have hmem : (⟨key, v'⟩ : Sigma fun _ : α ↦ V) ∈ m.entries := by
        rw [hsplit]
        simp
      have hv : v' = v := Option.some.inj ((mem_lookup_iff.mpr hmem).symm.trans hl)
      have hnodup : (l.keys ++ key :: l'.keys).Nodup := by
        have hkeys := m.keys_nodup
        rw [keys, hsplit] at hkeys
        simpa [List.keys] using hkeys
      have hnot' : key ∉ l'.keys := (List.nodup_cons.mp (List.nodup_append.mp hnodup).2.1).1
      rw [hsplit, List.map_append, List.sum_append, List.map_cons, List.sum_cons, hzero hnot,
        hzero hnot', if_pos rfl, hv, Nat.zero_add, Nat.add_zero]
      rfl

end AList

namespace Finmap

universe u v

variable {α : Type u} [DecidableEq α]

section

variable {β : α → Type v} {m : Finmap β} {a a' : α}

/-- What is left when a key goes. -/
theorem lookup_erase_eq_some_iff {x : β a} :
    (m.erase a').lookup a = some x ↔ a ≠ a' ∧ m.lookup a = some x := by
  by_cases h : a = a'
  · subst h
    rw [lookup_erase]
    exact ⟨nofun, fun hx ↦ absurd rfl hx.1⟩
  · rw [lookup_erase_ne h]
    exact ⟨fun hx ↦ ⟨h, hx⟩, fun hx ↦ hx.2⟩

theorem lookup_erase_eq_none (a' : α) (h : m.lookup a = none) : (m.erase a').lookup a = none := by
  refine Option.eq_none_iff_forall_ne_some.mpr fun x hx ↦ ?_
  obtain ⟨-, hx⟩ := lookup_erase_eq_some_iff.mp hx
  cases h.symm.trans hx

end

/-- What a map holds is what was inserted, or it was there before. -/
theorem lookup_insert_eq_some {β : Type v} {m : Finmap fun _ : α ↦ β} {a a' : α} {x x' : β}
    (h : (m.insert a' x').lookup a = some x) : a = a' ∧ x' = x ∨ a ≠ a' ∧ m.lookup a = some x := by
  by_cases ha : a = a'
  · subst ha
    exact .inl ⟨rfl, Option.some.inj ((lookup_insert _).symm.trans h)⟩
  · exact .inr ⟨ha, (lookup_insert_of_ne _ ha).symm.trans h⟩

end Finmap
