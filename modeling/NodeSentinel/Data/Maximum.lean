import Mathlib

/-!
# Maxima

The maximum that a loop keeps of what it has seen.  Then the first of the points below a bound at
which a function is largest, and how it moves as the bound does.
-/

variable {α : Type*} [LinearOrder α]

/-! ## Running maxima -/

section Running

variable {l : List α} {m c : α}

theorem max_eq_ite (m c : α) : (if c > m then c else m) = max m c := by
  rcases le_or_gt c m with h | h
  · rw [if_neg h.not_gt, max_eq_left h]
  · rw [if_pos h, max_eq_right h.le]

/-- A running maximum is the largest of what it was given. -/
theorem isGreatest_foldl_max (l : List α) (m : α) :
    IsGreatest (insert m {c | c ∈ l}) (l.foldl max m) := by
  induction l generalizing m with
  | nil => simp
  | cons c l ih =>
      rw [List.foldl_cons]
      obtain ⟨hmem, hle⟩ := ih (max m c)
      have hmax : max m c ≤ l.foldl max (max m c) := hle (.inl rfl)
      constructor
      · rcases hmem with h | h
        · rw [h]
          rcases max_choice m c with hm | hc
          · rw [hm]
            exact .inl rfl
          · rw [hc]
            exact .inr (.head l)
        · exact .inr (.tail c h)
      · rintro x (rfl | hx)
        · exact (le_max_left x c).trans hmax
        · rcases List.mem_cons.mp hx with rfl | hx
          · exact (le_max_right m x).trans hmax
          · exact hle (.inr hx)

theorem foldl_max_le_iff : l.foldl max m ≤ c ↔ m ≤ c ∧ ∀ x ∈ l, x ≤ c :=
  (isLUB_le_iff (isGreatest_foldl_max l m).isLUB).trans Set.forall_mem_insert

theorem foldl_max_lt_iff : l.foldl max m < c ↔ m < c ∧ ∀ x ∈ l, x < c :=
  (isGreatest_foldl_max l m).lt_iff.trans Set.forall_mem_insert

theorem le_foldl_max_iff : c ≤ l.foldl max m ↔ c ≤ m ∨ ∃ x ∈ l, c ≤ x := by
  rw [← not_lt, foldl_max_lt_iff]
  push Not
  rw [imp_iff_not_or, not_lt]

end Running

/-! ## First maxima -/

variable {φ : ℕ → α} {k l : ℕ}

/-- The first of the points below `k` at which `φ` is largest. -/
structure FirstMax (φ : ℕ → α) (k l : ℕ) : Prop where
  lt : l < k
  le : ∀ i < k, φ i ≤ φ l
  first : ∀ i < l, φ i < φ l

namespace FirstMax

theorem one (φ : ℕ → α) : FirstMax φ 1 0 where
  lt := Nat.zero_lt_one
  le i hi := by rw [Nat.lt_one_iff.mp hi]
  first i hi := absurd hi (Nat.not_lt_zero i)

/-- The next point takes over where `φ` is larger there. -/
theorem next (h : FirstMax φ k l) (hlt : φ l < φ k) : FirstMax φ (k + 1) k where
  lt := Nat.lt_succ_self k
  le i hi := by
    rcases Nat.lt_succ_iff_lt_or_eq.mp hi with hik | rfl
    · exact (h.le i hik).trans hlt.le
    · exact le_rfl
  first i hi := (h.le i hi).trans_lt hlt

/-- Otherwise the maximum stays where it was. -/
theorem keep (h : FirstMax φ k l) (hle : φ k ≤ φ l) : FirstMax φ (k + 1) l where
  lt := h.lt.trans (Nat.lt_succ_self k)
  le i hi := by
    rcases Nat.lt_succ_iff_lt_or_eq.mp hi with hik | rfl
    · exact h.le i hik
    · exact hle
  first := h.first

theorem isGreatest (h : FirstMax φ k l) : IsGreatest (φ '' Set.Iio k) (φ l) := by
  constructor
  · exact ⟨l, h.lt, rfl⟩
  · rintro _ ⟨i, hi, rfl⟩
    exact h.le i hi

theorem isLeast (h : FirstMax φ k l) : IsLeast {i | i < k ∧ φ i = φ l} l := by
  constructor
  · exact ⟨h.lt, rfl⟩
  · rintro i ⟨-, hi⟩
    by_contra! hlt
    exact (h.first i hlt).ne hi

end FirstMax
