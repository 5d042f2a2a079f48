import Mathlib

/-!
# Sorting a slice

A sort that is not stable: it orders a list by descending keys and leaves open in which
order elements with the same key end up.
-/

/-- Some sort by descending keys. -/
structure SliceSort where
  sort : {α κ : Type} → [LinearOrder κ] → (α → κ) → List α → List α
  perm : ∀ {α κ : Type} [LinearOrder κ] (key : α → κ) (xs : List α), (sort key xs).Perm xs
  sorted : ∀ {α κ : Type} [LinearOrder κ] (key : α → κ) (xs : List α),
    (sort key xs).Pairwise fun x y ↦ key y ≤ key x

namespace SliceSort

variable (srt : SliceSort) {α κ : Type} [LinearOrder κ] {key : α → κ} {xs : List α}

@[simp] theorem mem_sort {x : α} : x ∈ srt.sort key xs ↔ x ∈ xs := (srt.perm key xs).mem_iff

@[simp] theorem length_sort : (srt.sort key xs).length = xs.length := (srt.perm key xs).length_eq

/-- Insertion sort. -/
def insertion : SliceSort where
  sort := fun {_ _} _ key xs ↦ xs.insertionSort fun x y ↦ key y ≤ key x
  perm _ xs := List.perm_insertionSort _ xs
  sorted key xs :=
    have : Std.Total fun x y ↦ key y ≤ key x := ⟨fun x y ↦ le_total (key y) (key x)⟩
    have : IsTrans _ fun x y ↦ key y ≤ key x := ⟨fun _ _ _ h h' ↦ h'.trans h⟩
    List.pairwise_insertionSort _ xs

end SliceSort
