import Mathlib

/-!
# The correlation coefficient

The product-moment coefficient of two finite samples over `ℝ`, by deviations from the means,
with the identity that computes it from plain sums and the bound that Cauchy–Schwarz gives.
-/

variable {ι : Type*} [Fintype ι] {f g : ι → ℝ}

/-- The mean of a sample. -/
noncomputable def mean (f : ι → ℝ) : ℝ := (∑ i, f i) / Fintype.card ι

/-- The sum of the products of the deviations from the means. -/
noncomputable def covariation (f g : ι → ℝ) : ℝ := ∑ i, (f i - mean f) * (g i - mean g)

/-- A sample without variation. -/
def Flat (f : ι → ℝ) : Prop := ∀ i j, f i = f j

open Classical in
/-- The correlation coefficient, zero where a sample is flat. -/
noncomputable def pearson (f g : ι → ℝ) : ℝ :=
  if Flat f ∨ Flat g then 0
  else covariation f g / (√(covariation f f) * √(covariation g g))

/-! ## Sums of deviations -/

theorem card_mul_mean (f : ι → ℝ) : Fintype.card ι * mean f = ∑ i, f i := by
  cases isEmpty_or_nonempty ι with
  | inl h => simp
  | inr h =>
      have hne : (Fintype.card ι : ℝ) ≠ 0 := Nat.cast_ne_zero.mpr Fintype.card_ne_zero
      rw [mean, mul_div_cancel₀ _ hne]

/-- The single-pass form of the covariation. -/
theorem card_mul_covariation (f g : ι → ℝ) :
    Fintype.card ι * covariation f g =
      Fintype.card ι * ∑ i, f i * g i - (∑ i, f i) * ∑ i, g i := by
  have hexp : covariation f g =
      ∑ i, f i * g i - mean f * ∑ i, g i - mean g * ∑ i, f i + Fintype.card ι * (mean f * mean g) := by
    have hconst : Fintype.card ι * (mean f * mean g) = ∑ _i : ι, mean f * mean g := by
      rw [Finset.sum_const, Finset.card_univ, nsmul_eq_mul]
    rw [covariation, hconst, Finset.mul_sum, Finset.mul_sum, ← Finset.sum_sub_distrib,
      ← Finset.sum_sub_distrib, ← Finset.sum_add_distrib]
    apply Finset.sum_congr rfl
    intro i _
    ring
  rw [hexp, ← card_mul_mean f, ← card_mul_mean g]
  ring

theorem covariation_self_nonneg (f : ι → ℝ) : 0 ≤ covariation f f :=
  Finset.sum_nonneg fun _ _ ↦ mul_self_nonneg _

/-- Only a flat sample has no variation. -/
theorem covariation_self_eq_zero_iff : covariation f f = 0 ↔ Flat f := by
  rw [covariation, Finset.sum_mul_self_eq_zero_iff]
  constructor
  · intro h i j
    rw [sub_eq_zero.mp (h i (Finset.mem_univ i)), sub_eq_zero.mp (h j (Finset.mem_univ j))]
  · intro h i _
    have : Nonempty ι := ⟨i⟩
    have hcard : (Fintype.card ι : ℝ) ≠ 0 := Nat.cast_ne_zero.mpr Fintype.card_ne_zero
    have hsum : ∑ j, f j = Fintype.card ι * f i := by
      rw [Finset.sum_congr rfl fun j _ ↦ h j i, Finset.sum_const, Finset.card_univ, nsmul_eq_mul]
    rw [mean, hsum, mul_div_cancel_left₀ _ hcard, sub_self]

theorem covariation_self_pos (h : ¬ Flat f) : 0 < covariation f f :=
  (covariation_self_nonneg f).lt_of_ne' (mt covariation_self_eq_zero_iff.mp h)

theorem mul_covariation_self_nonpos_iff {c : ℝ} (hc : 0 < c) :
    c * covariation f f ≤ 0 ↔ Flat f := by
  rw [← covariation_self_eq_zero_iff]
  constructor
  · intro h
    exact (nonpos_of_mul_nonpos_right h hc).antisymm (covariation_self_nonneg f)
  · intro h
    rw [h, mul_zero]

/-- The coefficient from sums that all carry one positive factor. -/
theorem pearson_eq_scaled {c : ℝ} (hc : 0 < c) (f g : ι → ℝ) :
    pearson f g =
      if c * covariation f f ≤ 0 ∨ c * covariation g g ≤ 0 then 0
      else c * covariation f g / √(c * covariation f f * (c * covariation g g)) := by
  have hroot : √(c * covariation f f * (c * covariation g g)) =
      c * (√(covariation f f) * √(covariation g g)) := by
    rw [mul_mul_mul_comm, Real.sqrt_mul (mul_self_nonneg c), Real.sqrt_mul_self hc.le,
      Real.sqrt_mul (covariation_self_nonneg f)]
  by_cases h : Flat f ∨ Flat g
  · rw [pearson, if_pos h, if_pos (by simpa only [mul_covariation_self_nonpos_iff hc] using h)]
  · rw [pearson, if_neg h, if_neg (by simpa only [mul_covariation_self_nonpos_iff hc] using h),
      hroot, mul_div_mul_left _ _ hc.ne']

/-! ## The range of the coefficient -/

/-- The coefficient lies between −1 and 1. -/
theorem abs_pearson_le_one (f g : ι → ℝ) : |pearson f g| ≤ 1 := by
  unfold pearson
  split_ifs with h
  · simp
  · rw [not_or] at h
    have hpos : 0 < √(covariation f f) * √(covariation g g) :=
      mul_pos (Real.sqrt_pos.mpr (covariation_self_pos h.1))
        (Real.sqrt_pos.mpr (covariation_self_pos h.2))
    have hcs : covariation f g ^ 2 ≤ covariation f f * covariation g g := by
      have := Finset.sum_mul_sq_le_sq_mul_sq Finset.univ (fun i ↦ f i - mean f)
        fun i ↦ g i - mean g
      simpa only [covariation, sq] using this
    rw [abs_div, abs_of_pos hpos, div_le_one hpos,
      ← Real.sqrt_mul (covariation_self_nonneg f)]
    exact Real.abs_le_sqrt hcs

/-! ## Changes of scale -/

section Scale

variable {κ : Type*} [Fintype κ] {a b c d : ℝ}

theorem covariation_comp_equiv (e : κ ≃ ι) (f g : ι → ℝ) :
    covariation (f ∘ e) (g ∘ e) = covariation f g := by
  have hmean : ∀ f : ι → ℝ, mean (f ∘ e) = mean f := by
    intro f
    rw [mean, mean, Fintype.card_congr e]
    exact congrArg (· / _) (e.sum_comp f)
  rw [covariation, covariation, hmean, hmean]
  exact e.sum_comp fun i ↦ (f i - mean f) * (g i - mean g)

/-- The coefficient does not depend on how the samples are indexed. -/
theorem pearson_comp_equiv (e : κ ≃ ι) (f g : ι → ℝ) :
    pearson (f ∘ e) (g ∘ e) = pearson f g := by
  rw [pearson_eq_scaled zero_lt_one, pearson_eq_scaled zero_lt_one, covariation_comp_equiv,
    covariation_comp_equiv, covariation_comp_equiv]

theorem mean_affine [Nonempty ι] (a b : ℝ) (f : ι → ℝ) :
    mean (fun i ↦ a * f i + b) = a * mean f + b := by
  have hcard : (Fintype.card ι : ℝ) ≠ 0 := Nat.cast_ne_zero.mpr Fintype.card_ne_zero
  rw [mean, Finset.sum_add_distrib, ← Finset.mul_sum, ← card_mul_mean f, Finset.sum_const,
    Finset.card_univ, nsmul_eq_mul]
  field_simp

theorem covariation_affine (a b c d : ℝ) (f g : ι → ℝ) :
    covariation (fun i ↦ a * f i + b) (fun i ↦ c * g i + d) = a * c * covariation f g := by
  cases isEmpty_or_nonempty ι with
  | inl h => simp [covariation]
  | inr h =>
      rw [covariation, covariation, mean_affine, mean_affine, Finset.mul_sum]
      apply Finset.sum_congr rfl
      intro i _
      ring

/-- The coefficient measures shape: neither a positive factor nor an offset changes it. -/
theorem pearson_affine (ha : 0 < a) (hc : 0 < c) (b d : ℝ) (f g : ι → ℝ) :
    pearson (fun i ↦ a * f i + b) (fun i ↦ c * g i + d) = pearson f g := by
  have hflat : ∀ {a b : ℝ} {f : ι → ℝ}, 0 < a → (Flat (fun i ↦ a * f i + b) ↔ Flat f) := by
    intro a b f ha
    simp only [Flat, add_left_inj, mul_right_inj' ha.ne']
  have hroot : ∀ {a b : ℝ} {f : ι → ℝ}, 0 < a →
      √(covariation (fun i ↦ a * f i + b) fun i ↦ a * f i + b) = a * √(covariation f f) := by
    intro a b f ha
    rw [covariation_affine, Real.sqrt_mul (mul_self_nonneg a), Real.sqrt_mul_self ha.le]
  rw [pearson, pearson, hflat ha, hflat hc, hroot ha, hroot hc, covariation_affine,
    mul_mul_mul_comm, mul_div_mul_left _ _ (mul_pos ha hc).ne']

end Scale
