import NodeSentinel.Data.Literal

/-!
# Learned baselines

`metrics/baseline.go`: a per-key exponential moving average.  `K` stands for
`float64` and is computed with exactly.  Each method holds the mutex throughout, so
a `Baseline` is what they find between two calls.
-/

/-- How many rounds without an observation a key survives. -/
def pruneAfterMisses : ℕ := 12

theorem pruneAfterMisses_pos : 0 < pruneAfterMisses := Nat.succ_pos _

/-- What is learned of a key. -/
structure Avg (K : Type*) where
  value : K
  samples : ℕ
  /-- Observed this round. -/
  touched : Bool
  /-- Consecutive rounds not observed. -/
  misses : ℕ
deriving Repr, DecidableEq

/-- A tracker: smoothing, the observations needed before it is trusted, and its keys. -/
structure Baseline (K : Type*) where
  alpha : K
  warmup : ℤ
  state : ℕ → Option (Avg K)

variable {K : Type*} [Field K]

namespace Avg

/-- What one more observation makes of a key; `update` is false while it is frozen. -/
def observe (alpha current : K) (update : Bool) (a : Avg K) : Avg K where
  value := if update then alpha * current + (1 - alpha) * a.value else a.value
  samples := a.samples + 1
  touched := true
  misses := 0

/-- What the end of a round makes of a key. -/
def prune {K : Type*} (a : Avg K) : Option (Avg K) :=
  if a.touched then some { a with touched := false }
  else if pruneAfterMisses ≤ a.misses + 1 then none
  else some { a with misses := a.misses + 1 }

end Avg

namespace Baseline

/-- `NewBaseline`. -/
def new {K : Type*} (alpha : K) (warmup : ℤ) : Baseline K := ⟨alpha, warmup, fun _ ↦ none⟩

variable (b : Baseline K) (key : ℕ) (current : K)

/-- `Deviation`: how far `current` is above the normal of the key, as a ratio; `none` where
the baseline is not ready. -/
def deviation [LinearOrder K] : Option K :=
  match b.state key with
  | none => none
  | some a => if a.samples < b.warmup ∨ a.value ≤ 0 then none else some (current / a.value)

/-- `Observe`: fold `current` into the baseline of the key. -/
def observe (update : Bool) : Baseline K :=
  { b with state := Function.update b.state key (some (match b.state key with
    | none => ⟨current, 1, true, 0⟩
    | some a => a.observe b.alpha current update)) }

/-- `Prune`: drop the keys that have not been observed for too long. -/
def prune {K : Type*} (b : Baseline K) : Baseline K :=
  { b with state := fun key ↦ (b.state key).bind Avg.prune }

variable {b key current}

@[simp] theorem observe_alpha (update : Bool) : (b.observe key current update).alpha = b.alpha :=
  rfl

@[simp] theorem observe_warmup (update : Bool) :
    (b.observe key current update).warmup = b.warmup := rfl

@[simp] theorem prune_alpha {K : Type*} (b : Baseline K) : b.prune.alpha = b.alpha := rfl

@[simp] theorem prune_warmup {K : Type*} (b : Baseline K) : b.prune.warmup = b.warmup := rfl

theorem observe_state_of_ne {key' : ℕ} (h : key' ≠ key) (update : Bool) :
    (b.observe key current update).state key' = b.state key' :=
  Function.update_of_ne h _ _

/-- A key is judged by its own entry only. -/
theorem deviation_congr [LinearOrder K] {b' : Baseline K} (hw : b'.warmup = b.warmup)
    (hs : b'.state key = b.state key) : b'.deviation key current = b.deviation key current := by
  rw [deviation, deviation, hw, hs]

theorem deviation_eq_some_iff [LinearOrder K] {ratio : K} : b.deviation key current = some ratio ↔
    ∃ a, b.state key = some a ∧ b.warmup ≤ a.samples ∧ 0 < a.value ∧ ratio = current / a.value := by
  unfold deviation
  cases b.state key with
  | none => simp
  | some a =>
      by_cases h : a.samples < b.warmup ∨ a.value ≤ 0
      · simp only [if_pos h, reduceCtorEq, Option.some.injEq, exists_eq_left', false_iff]
        rintro ⟨hs, hv, -⟩
        rcases h with h | h
        · exact absurd hs (not_le.mpr h)
        · exact absurd hv (not_lt.mpr h)
      · simp only [if_neg h, Option.some.injEq, exists_eq_left']
        rw [not_or, not_lt, not_le] at h
        exact ⟨fun he ↦ ⟨h.1, h.2, he.symm⟩, fun he ↦ he.2.2.symm⟩

/-- The entry of a key at the end of a round in which it was observed. -/
theorem prune_observe_state (update : Bool) :
    (b.observe key current update).prune.state key = some (match b.state key with
      | none => ⟨current, 1, false, 0⟩
      | some a => { a.observe b.alpha current update with touched := false }) := by
  simp only [prune, observe, Function.update_self, Option.bind_some]
  cases b.state key <;> rfl

end Baseline

/-! ## Averages -/

section Average

variable [LinearOrder K] [IsStrictOrderedRing K] {alpha x y m : K}

theorem average_pos (h₀ : 0 ≤ alpha) (h₁ : alpha ≤ 1) (hx : 0 < x) (hy : 0 < y) :
    0 < alpha * x + (1 - alpha) * y := by
  rcases h₀.eq_or_lt with rfl | h₀
  · simpa using hy
  · exact add_pos_of_pos_of_nonneg (mul_pos h₀ hx) (mul_nonneg (sub_nonneg.mpr h₁) hy.le)

theorem average_le (h₀ : 0 ≤ alpha) (h₁ : alpha ≤ 1) (hx : x ≤ m) (hy : y ≤ m) :
    alpha * x + (1 - alpha) * y ≤ m := by
  have h := add_le_add (mul_le_mul_of_nonneg_left hx h₀)
    (mul_le_mul_of_nonneg_left hy (sub_nonneg.mpr h₁))
  linarith

theorem le_average (h₀ : 0 ≤ alpha) (h₁ : alpha ≤ 1) (hx : m ≤ x) (hy : m ≤ y) :
    m ≤ alpha * x + (1 - alpha) * y := by
  have h := add_le_add (mul_le_mul_of_nonneg_left hx h₀)
    (mul_le_mul_of_nonneg_left hy (sub_nonneg.mpr h₁))
  linarith

end Average
