import Mathlib

/-!
# Ranks and counts

The element of a given rank of a list, and how many elements a monotone map sends below
its image.
-/

variable {α : Type*} [LinearOrder α]

section Sorted

variable {ys : List α} {t : ℕ}

theorem List.Pairwise.le_of_mem_take (h : ys.Pairwise (· ≤ ·)) (ht : t < ys.length) {y : α}
    (hy : y ∈ ys.take (t + 1)) : y ≤ ys[t] := by
  obtain ⟨i, hi, rfl⟩ := List.mem_take_iff_getElem.mp hy
  rcases Nat.lt_succ_iff_lt_or_eq.mp (lt_of_lt_of_le hi (min_le_left _ _)) with hlt | rfl
  · exact List.pairwise_iff_getElem.mp h i t _ ht hlt
  · exact le_rfl

theorem List.Pairwise.le_of_mem_drop (h : ys.Pairwise (· ≤ ·)) (ht : t < ys.length) {y : α}
    (hy : y ∈ ys.drop t) : ys[t] ≤ y := by
  obtain ⟨i, hi, rfl⟩ := List.mem_drop_iff_getElem.mp hy
  rcases Nat.eq_zero_or_pos i with rfl | hpos
  · simp
  · exact List.pairwise_iff_getElem.mp h t (t + i) ht _ (by omega)

variable {f : α → ℕ}

/-- At most as many elements as the rank lie strictly below. -/
theorem List.Pairwise.countP_lt_le (h : ys.Pairwise (· ≤ ·)) (hf : Monotone f)
    (ht : t < ys.length) : ys.countP (fun y ↦ f y < f ys[t]) ≤ t := by
  have hdrop : (ys.drop t).countP (fun y ↦ f y < f ys[t]) = 0 :=
    List.countP_eq_zero.mpr fun y hy ↦ by simpa using hf (h.le_of_mem_drop ht hy)
  calc ys.countP (fun y ↦ f y < f ys[t])
      = (ys.take t ++ ys.drop t).countP (fun y ↦ f y < f ys[t]) := by rw [List.take_append_drop]
    _ = (ys.take t).countP (fun y ↦ f y < f ys[t]) := by rw [List.countP_append, hdrop, Nat.add_zero]
    _ ≤ (ys.take t).length := List.countP_le_length
    _ ≤ t := List.length_take_le t ys

/-- More elements than the rank lie at or below. -/
theorem List.Pairwise.lt_countP_le (h : ys.Pairwise (· ≤ ·)) (hf : Monotone f)
    (ht : t < ys.length) : t < ys.countP fun y ↦ f y ≤ f ys[t] := by
  have htake : (ys.take (t + 1)).countP (fun y ↦ f y ≤ f ys[t]) = t + 1 := by
    rw [List.countP_eq_length.mpr fun y hy ↦ by simpa using hf (h.le_of_mem_take ht hy),
      List.length_take]
    exact min_eq_left ht
  have hle := (List.take_sublist (t + 1) ys).countP_le (p := fun y ↦ f y ≤ f ys[t])
  omega

end Sorted

/-- The element of rank `t`, from 0, if there are so many. -/
def rank (xs : List α) (t : ℕ) : Option α := (xs.insertionSort (· ≤ ·))[t]?

section Rank

variable {xs : List α} {t : ℕ} {x : α} {f : α → ℕ}

theorem exists_rank (h : t < xs.length) : ∃ x, rank xs t = some x :=
  ⟨_, List.getElem?_eq_getElem (by rwa [List.length_insertionSort])⟩

/-- How many elements go strictly below the bucket of the element of a rank, and how many
do not go above it. -/
theorem countP_of_rank (h : rank xs t = some x) (hf : Monotone f) :
    xs.countP (fun y ↦ f y < f x) ≤ t ∧ t < xs.countP fun y ↦ f y ≤ f x := by
  obtain ⟨ht, rfl⟩ := List.getElem?_eq_some_iff.mp h
  have hsort : (xs.insertionSort (· ≤ ·)).Pairwise (· ≤ ·) := List.pairwise_insertionSort _ xs
  rw [← (List.perm_insertionSort (· ≤ ·) xs).countP_eq, ← (List.perm_insertionSort (· ≤ ·) xs).countP_eq]
  exact ⟨hsort.countP_lt_le hf ht, hsort.lt_countP_le hf ht⟩

theorem rank_mono {t' : ℕ} {x' : α} (h : rank xs t = some x) (h' : rank xs t' = some x')
    (hle : t ≤ t') : x ≤ x' := by
  obtain ⟨ht, rfl⟩ := List.getElem?_eq_some_iff.mp h
  obtain ⟨ht', rfl⟩ := List.getElem?_eq_some_iff.mp h'
  rcases hle.lt_or_eq with hlt | rfl
  · exact List.pairwise_iff_getElem.mp (List.pairwise_insertionSort _ xs) t t' ht ht' hlt
  · exact le_rfl

end Rank

/-! ## Counting by buckets -/

section Buckets

variable {α : Type*} (f : α → ℕ) (xs : List α)

theorem countP_lt_succ (k : ℕ) : xs.countP (fun x ↦ f x < k + 1) =
    xs.countP (fun x ↦ f x < k) + xs.countP fun x ↦ f x = k := by
  induction xs with
  | nil => rfl
  | cons x xs ih =>
      simp only [List.countP_cons, decide_eq_true_eq, ih]
      split_ifs <;> omega

/-- The buckets below `k` together. -/
theorem sum_take_counts {N k : ℕ} (hk : k ≤ N) :
    (((List.range N).map fun i ↦ xs.countP fun x ↦ f x = i).take k).sum =
      xs.countP fun x ↦ f x < k := by
  rw [← List.map_take, List.take_range, min_eq_left hk]
  clear hk
  induction k with
  | zero => simp
  | succ k ih =>
      rw [List.range_succ, List.map_append, List.sum_append, ih, List.map_singleton,
        List.sum_singleton, countP_lt_succ]

end Buckets
