import NodeSentinel.Agent.Rows

/-!
# The share of throttled periods

`Sub` cuts the two counters of `cpu.stat` off at 0 one by one.  A reset that both counters
have made up for since goes unseen, and then the two differences need not fit together.
-/

namespace CPUStat

/-- The periods that passed without throttling. -/
def unthrottled (s : CPUStat) : ℤ := s.nrPeriods - s.nrThrottled

/-- Two readings whose differences fit together: no period passed, or the periods without
throttling did not get fewer. -/
def Follows (cur prev : CPUStat) : Prop :=
  cur.nrPeriods ≤ prev.nrPeriods ∨ prev.unthrottled ≤ cur.unthrottled

theorem sub_nrPeriods (cur prev : CPUStat) :
    (cur.sub prev).nrPeriods = cur.nrPeriods - prev.nrPeriods := by
  unfold sub monoSub
  dsimp only
  split_ifs <;> omega

theorem sub_nrThrottled (cur prev : CPUStat) :
    (cur.sub prev).nrThrottled = cur.nrThrottled - prev.nrThrottled := by
  unfold sub monoSub
  dsimp only
  split_ifs <;> omega

/-- No more periods were throttled than passed, if any did. -/
theorem sub_le_iff {cur prev : CPUStat} : ((cur.sub prev).nrPeriods ≠ 0 →
    (cur.sub prev).nrThrottled ≤ (cur.sub prev).nrPeriods) ↔ cur.Follows prev := by
  unfold Follows unthrottled
  rw [sub_nrPeriods, sub_nrThrottled]
  omega

variable {K : Type} [Field K] [LinearOrder K] [IsStrictOrderedRing K]

theorem throttledFraction_nonneg (s : CPUStat) : 0 ≤ (s.throttledFraction : K) := by
  unfold throttledFraction
  split_ifs
  · exact le_rfl
  · exact div_nonneg (Nat.cast_nonneg _) (Nat.cast_nonneg _)

theorem throttledFraction_le_one_iff {s : CPUStat} :
    (s.throttledFraction : K) ≤ 1 ↔ (s.nrPeriods ≠ 0 → s.nrThrottled ≤ s.nrPeriods) := by
  unfold throttledFraction
  split_ifs with h
  · exact iff_of_true zero_le_one fun hne ↦ absurd h hne
  · have hpos : (0 : K) < s.nrPeriods := Nat.cast_pos.mpr (Nat.pos_of_ne_zero h)
    rw [div_le_one hpos, Nat.cast_le]
    exact ⟨fun hle _ ↦ hle, fun hle ↦ hle h⟩

end CPUStat

variable {K : Type} [Field K] [LinearOrder K] [IsStrictOrderedRing K]
