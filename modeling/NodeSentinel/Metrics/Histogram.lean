import NodeSentinel.Data.Literal

/-!
# Percentiles of a log2 histogram

`metrics/histogram.go`.  Slot `i` counts the events whose value falls in
`[2^i, 2^(i+1))`; a percentile is the midpoint of the slot it falls into.
-/

variable {K : Type*} [Field K]

/-- `bucketMidpoint`: the midpoint of `[2^i, 2^(i+1))`. -/
def bucketMidpoint (i : ℕ) : K := 2 ^ i * (3 / 2)

/-- The loop of `Percentile`, `cum` events having been passed in the slots before `i`. -/
def percentileScan (target cum i : ℕ) : List ℕ → K
  | [] => bucketMidpoint (i - 1)
  | c :: slots =>
      if target ≤ cum + c then bucketMidpoint i else percentileScan target (cum + c) (i + 1) slots

section Percentile

variable [LinearOrder K] [FloorSemiring K]

/-- `Percentile`: an estimate of the `p`-th percentile. -/
def percentile (slots : List ℕ) (p : K) : K :=
  let total := slots.sum
  if total = 0 then 0
  else
    let target := ⌈p / 100 * (total : K)⌉₊
    percentileScan (if target = 0 then 1 else target) 0 0 slots

end Percentile

/-- The scan stops in the slot in which the count reaches the target. -/
theorem percentileScan_eq {target cum i k : ℕ} {slots : List ℕ} (hk : k < slots.length)
    (hlow : cum + (slots.take k).sum < target)
    (hhigh : target ≤ cum + (slots.take (k + 1)).sum) :
    (percentileScan target cum i slots : K) = bucketMidpoint (i + k) := by
  induction slots generalizing cum i k with
  | nil => cases hk
  | cons c slots ih =>
      rw [List.take_succ_cons, List.sum_cons, ← Nat.add_assoc] at hhigh
      cases k with
      | zero =>
          rw [percentileScan, if_pos (by simpa using hhigh)]
          rfl
      | succ k =>
          rw [List.take_succ_cons, List.sum_cons, ← Nat.add_assoc] at hlow
          rw [percentileScan, if_neg (by omega), ih (Nat.lt_of_succ_lt_succ hk) hlow hhigh]
          congr 1
          omega

variable [LinearOrder K] [IsStrictOrderedRing K]

theorem bucketMidpoint_mono {i j : ℕ} (h : i ≤ j) : (bucketMidpoint i : K) ≤ bucketMidpoint j :=
  mul_le_mul_of_nonneg_right (pow_le_pow_right₀ one_le_two h) (div_nonneg zero_le_three zero_le_two)

theorem bucketMidpoint_pos (i : ℕ) : 0 < (bucketMidpoint i : K) :=
  mul_pos (pow_pos two_pos i) (div_pos three_pos two_pos)

theorem percentileScan_pos (target cum i : ℕ) (slots : List ℕ) :
    0 < (percentileScan target cum i slots : K) := by
  induction slots generalizing cum i with
  | nil => exact bucketMidpoint_pos _
  | cons c slots ih =>
      rw [percentileScan]
      split
      · exact bucketMidpoint_pos _
      · exact ih _ _

/-- A percentile of a histogram with events is positive. -/
theorem percentile_pos [FloorSemiring K] {slots : List ℕ} (h : 0 < slots.sum) (p : K) :
    0 < percentile slots p := by
  rw [percentile, if_neg h.ne']
  exact percentileScan_pos _ _ _ _
