import Mathlib

/-!
# A learned normal

A normal is learned from a sequence of values as an exponential moving average, which leaves out
the values that are unusual: above a floor, and some factor above the normal.  A value that grows
slowly takes the normal along and never becomes unusual, and one that grows faster leaves it behind
for good.  For a growth from each value to the next the two cases meet at `1 + alpha * (factor - 1)`.
-/

variable {K : Type*} [Field K] [LinearOrder K]

/-- Value `n` is unusual for the normal that was learned before it. -/
structure Unusual (factor floor : K) (warmup : ℕ) (x a : ℕ → K) (n : ℕ) : Prop where
  warm : warmup ≤ n
  floor_le : floor ≤ x n
  factor_le : factor * a n ≤ x n

/-- What is learned of the values `x`: `a n` before value `n`, for `n` from 1 on. -/
structure Learning (alpha factor floor : K) (warmup : ℕ) (x a : ℕ → K) : Prop where
  first : a 1 = x 0
  freeze : ∀ n, 1 ≤ n → Unusual factor floor warmup x a n → a (n + 1) = a n
  learn : ∀ n, 1 ≤ n → ¬ Unusual factor floor warmup x a n →
    a (n + 1) = alpha * x n + (1 - alpha) * a n

/-- Within `k` steps the values grow by a factor of at most `c`. -/
def Creeps (c : K) (k : ℕ) (x : ℕ → K) : Prop := ∀ m n, m ≤ n → n ≤ m + k → x n ≤ c * x m

variable [IsStrictOrderedRing K] {alpha factor floor c : K} {warmup k : ℕ} {x a : ℕ → K}

/-- After `j` values above `y` the normal they were folded into has a weight of `(1 - alpha) ^ j`
only. -/
theorem le_average_of_values {y : K} {m j : ℕ} (h₀ : 0 ≤ alpha) (h₁ : alpha ≤ 1)
    (h : ∀ i, m ≤ i → i < m + j → a (i + 1) = alpha * x i + (1 - alpha) * a i)
    (hy : ∀ i, m ≤ i → i < m + j → y ≤ c * x i) :
    (1 - alpha) ^ j * (c * a m) + (1 - (1 - alpha) ^ j) * y ≤ c * a (m + j) := by
  induction j with
  | zero => simp
  | succ j ih =>
      have hbefore := ih (fun i hi hlt ↦ h i hi (hlt.trans (Nat.lt_succ_self _)))
        fun i hi hlt ↦ hy i hi (hlt.trans (Nat.lt_succ_self _))
      have hvalue := hy (m + j) (Nat.le_add_right m j) (Nat.lt_succ_self _)
      have hlearn := h (m + j) (Nat.le_add_right m j) (Nat.lt_succ_self _)
      calc (1 - alpha) ^ (j + 1) * (c * a m) + (1 - (1 - alpha) ^ (j + 1)) * y
          = alpha * y +
              (1 - alpha) * ((1 - alpha) ^ j * (c * a m) + (1 - (1 - alpha) ^ j) * y) := by ring
        _ ≤ alpha * (c * x (m + j)) + (1 - alpha) * (c * a (m + j)) :=
            add_le_add (mul_le_mul_of_nonneg_left hvalue h₀)
              (mul_le_mul_of_nonneg_left hbefore (sub_nonneg.mpr h₁))
        _ = c * a (m + j + 1) := by
            rw [hlearn]
            ring

/-- Values that grow by a factor of at least `q` grow as its powers do. -/
theorem pow_mul_le_of_grows {q : K} (hq₀ : 0 ≤ q) (hq : ∀ n, q * x n ≤ x (n + 1)) (n j : ℕ) :
    q ^ j * x n ≤ x (n + j) := by
  induction j with
  | zero => simp
  | succ j ih =>
      calc q ^ (j + 1) * x n = q * (q ^ j * x n) := by ring
        _ ≤ q * x (n + j) := mul_le_mul_of_nonneg_left ih hq₀
        _ ≤ x (n + (j + 1)) := hq (n + j)

/-- They exceed every bound. -/
theorem exists_lt_of_grows [Archimedean K] {q : K} (hpos : ∀ n, 0 < x n) (hq₁ : 1 < q)
    (hq : ∀ n, q * x n ≤ x (n + 1)) (y : K) (n : ℕ) : ∃ j, y < x (n + j) := by
  obtain ⟨j, hj⟩ := pow_unbounded_of_one_lt (y / x n) hq₁
  exact ⟨j, ((div_lt_iff₀ (hpos n)).mp hj).trans_le
    (pow_mul_le_of_grows (zero_le_one.trans hq₁.le) hq n j)⟩

namespace Learning

variable (h : Learning alpha factor floor warmup x a) (h₀ : 0 ≤ alpha) (h₁ : alpha ≤ 1)
  (hpos : ∀ n, 0 < x n)

include h h₀ h₁ hpos

/-- The normal of positive values is positive. -/
theorem pos {n : ℕ} (hn : 1 ≤ n) : 0 < a n := by
  induction n, hn using Nat.le_induction with
  | base => exact h.first ▸ hpos 0
  | succ n hn ih =>
      by_cases hu : Unusual factor floor warmup x a n
      · rwa [h.freeze n hn hu]
      · rw [h.learn n hn hu]
        rcases h₀.eq_or_lt with rfl | h₀
        · simpa using ih
        · exact add_pos_of_pos_of_nonneg (mul_pos h₀ (hpos n))
            (mul_nonneg (sub_nonneg.mpr h₁) ih.le)

/-- Values that grow slowly take the normal along. -/
theorem lt_of_creeps (hfactor : 1 ≤ factor) (hk : 1 ≤ k) (hcreeps : Creeps c k x)
    (hc : c < factor - (factor - 1) * (1 - alpha) ^ k) {n : ℕ} (hn : 1 ≤ n) :
    x n < factor * a n := by
  have hβ₀ : 0 ≤ (1 - alpha) ^ k := pow_nonneg (sub_nonneg.mpr h₁) k
  have hβ₁ : (1 - alpha) ^ k ≤ 1 := pow_le_one₀ (sub_nonneg.mpr h₁) (sub_le_self 1 h₀)
  have hc₁ : 1 ≤ c := by
    have hself := hcreeps 0 0 le_rfl (Nat.zero_le _)
    exact (le_mul_iff_one_le_left (hpos 0)).mp hself
  have hcf : c < factor := hc.trans_le (sub_le_self _ (mul_nonneg (sub_nonneg.mpr hfactor) hβ₀))
  induction n using Nat.strong_induction_on with
  | _ n ih =>
      -- nothing before was unusual, so all of it was folded in
      have hlearn : ∀ i, 1 ≤ i → i < n → a (i + 1) = alpha * x i + (1 - alpha) * a i :=
        fun i hi hin ↦ h.learn i hi fun hu ↦ (ih i hin hi).not_ge hu.factor_le
      rcases le_or_gt n k with hnk | hkn
      · have hle := le_average_of_values (m := 1) (j := n - 1) (y := x n) (c := c) h₀ h₁
          (fun i hi hin ↦ hlearn i hi (by omega))
          fun i _ hin ↦ hcreeps i n (by omega) (by omega)
        have hfirst : x n ≤ c * a 1 := by
          rw [h.first]
          exact hcreeps 0 n (Nat.zero_le n) (by omega)
        have hweight : 0 ≤ (1 - alpha) ^ (n - 1) := pow_nonneg (sub_nonneg.mpr h₁) _
        have hmem : x n ≤ c * a n := by
          rw [Nat.add_sub_cancel' hn] at hle
          have hscaled := mul_le_mul_of_nonneg_left hfirst hweight
          linarith
        have hlt := mul_lt_mul_of_pos_right hcf (h.pos h₀ h₁ hpos hn)
        linarith
      · obtain ⟨m, rfl⟩ : ∃ m, n = m + k := ⟨n - k, by omega⟩
        have hm : 1 ≤ m := by omega
        have hle := le_average_of_values (m := m) (j := k) (y := x (m + k)) (c := c) h₀ h₁
          (fun i hi hin ↦ hlearn i (hm.trans hi) hin)
          fun i hi hin ↦ hcreeps i (m + k) (by omega) (by omega)
        have hbefore : x (m + k) ≤ factor * (c * a m) := by
          have hgrowth := hcreeps m (m + k) (Nat.le_add_right m k) le_rfl
          have hlt := mul_lt_mul_of_pos_left (ih m (by omega) hm) (zero_lt_one.trans_le hc₁)
          linarith
        have hscaled := mul_le_mul_of_nonneg_left hbefore hβ₀
        have hfactored := mul_le_mul_of_nonneg_left hle (zero_le_one.trans hfactor)
        have hvalue := mul_lt_mul_of_pos_right hc (hpos (m + k))
        have hlt : c * x (m + k) < c * (factor * a (m + k)) := by linarith
        exact lt_of_mul_lt_mul_left hlt (zero_le_one.trans hc₁)

/-- A value that creeps is still nearer to the normal once it has been folded in. -/
theorem mul_le_of_creeps (hfactor : 1 ≤ factor) (hk : 1 ≤ k) (hcreeps : Creeps c k x)
    (hc : c < factor - (factor - 1) * (1 - alpha) ^ k) (n : ℕ) :
    (1 + alpha * (factor - 1)) * x n ≤ factor * a (n + 1) := by
  rcases n.eq_zero_or_pos with rfl | hn
  · have hle := mul_nonneg (sub_nonneg.mpr h₁) (sub_nonneg.mpr hfactor)
    rw [h.first]
    exact mul_le_mul_of_nonneg_right (by linarith) (hpos 0).le
  · have hlt := h.lt_of_creeps h₀ h₁ hpos hfactor hk hcreeps hc hn
    rw [h.learn n hn fun hu ↦ hlt.not_ge hu.factor_le]
    have hscaled := mul_le_mul_of_nonneg_left hlt.le (sub_nonneg.mpr h₁)
    linarith

/-! ## Values that grow faster -/

omit [IsStrictOrderedRing K] h₀ h₁ hpos in
/-- What is unusual stays so while the values do not fall, and the normal stays what it was. -/
theorem eq_of_monotone (hmono : Monotone x) {n j : ℕ} (hn : 1 ≤ n)
    (hu : Unusual factor floor warmup x a n) :
    a (n + j) = a n ∧ Unusual factor floor warmup x a (n + j) := by
  induction j with
  | zero => exact ⟨rfl, hu⟩
  | succ j ih =>
      have hnext : a (n + (j + 1)) = a n :=
        (h.freeze (n + j) (hn.trans (Nat.le_add_right n j)) ih.2).trans ih.1
      have hx : x n ≤ x (n + (j + 1)) := hmono (Nat.le_add_right _ _)
      exact ⟨hnext, hu.warm.trans (Nat.le_add_right _ _), hu.floor_le.trans hx,
        (hnext ▸ hu.factor_le).trans hx⟩

/-- While nothing is unusual, values that grow faster than the normal can follow leave it behind
step by step. -/
theorem pow_mul_le {q : K} (hq : ∀ n, q * x n ≤ x (n + 1))
    (hg : 0 < 1 + alpha * (factor - 1)) {n j : ℕ} (hn : 1 ≤ n)
    (hbelow : ∀ i, n ≤ i → i < n + j → x i < factor * a i)
    (hq₀ : 0 ≤ q) : (q / (1 + alpha * (factor - 1))) ^ j * (x n * a (n + j)) ≤ x (n + j) * a n := by
  induction j with
  | zero => simp
  | succ j ih =>
      have hlt := hbelow (n + j) (Nat.le_add_right n j) (Nat.lt_succ_self _)
      have hj : 1 ≤ n + j := hn.trans (Nat.le_add_right n j)
      have hle := ih fun i hi hij ↦ hbelow i hi (hij.trans (Nat.lt_succ_self _))
      have hlearn := h.learn (n + j) hj fun hu ↦ hlt.not_ge hu.factor_le
      have hnormal : a (n + (j + 1)) ≤ (1 + alpha * (factor - 1)) * a (n + j) := by
        have hscaled := mul_le_mul_of_nonneg_left hlt.le h₀
        rw [← Nat.add_assoc, hlearn]
        linarith
      have hrate : 0 ≤ q / (1 + alpha * (factor - 1)) := div_nonneg hq₀ hg.le
      calc (q / (1 + alpha * (factor - 1))) ^ (j + 1) * (x n * a (n + (j + 1)))
          ≤ (q / (1 + alpha * (factor - 1))) ^ (j + 1) *
              (x n * ((1 + alpha * (factor - 1)) * a (n + j))) :=
            mul_le_mul_of_nonneg_left (mul_le_mul_of_nonneg_left hnormal (hpos n).le)
              (pow_nonneg hrate _)
        _ = q * ((q / (1 + alpha * (factor - 1))) ^ j * (x n * a (n + j))) := by
            rw [pow_succ]
            field_simp
        _ ≤ q * (x (n + j) * a n) := mul_le_mul_of_nonneg_left hle hq₀
        _ ≤ x (n + (j + 1)) * a n := by
            rw [← mul_assoc]
            exact mul_le_mul_of_nonneg_right (hq (n + j)) (h.pos h₀ h₁ hpos hn).le

/-- A normal cannot stay ahead of values that grow faster than it can follow. -/
theorem exists_factor_le [Archimedean K] (hfactor : 1 ≤ factor) {q : K}
    (hq : ∀ n, q * x n ≤ x (n + 1)) (hlt : 1 + alpha * (factor - 1) < q) {n : ℕ} (hn : 1 ≤ n) :
    ∃ j, factor * a (n + j) ≤ x (n + j) := by
  have hg : 1 ≤ 1 + alpha * (factor - 1) :=
    le_add_of_nonneg_right (mul_nonneg h₀ (sub_nonneg.mpr hfactor))
  by_contra hnone
  have hbelow : ∀ i, n ≤ i → x i < factor * a i := fun i hi ↦ by
    obtain ⟨j, rfl⟩ := Nat.exists_eq_add_of_le hi
    exact not_le.mp fun hle ↦ hnone ⟨j, hle⟩
  have hρ : 1 < q / (1 + alpha * (factor - 1)) := (one_lt_div (zero_lt_one.trans_le hg)).mpr hlt
  obtain ⟨j, hj⟩ := pow_unbounded_of_one_lt (factor * a n / x n) hρ
  have hle := h.pow_mul_le h₀ h₁ hpos hq (zero_lt_one.trans_le hg) (j := j) hn
    (fun i hi _ ↦ hbelow i hi) (zero_le_one.trans (hg.trans hlt.le))
  have hnormal := h.pos h₀ h₁ hpos (hn.trans (Nat.le_add_right n j))
  have hbefore := mul_lt_mul_of_pos_right (hbelow (n + j) (Nat.le_add_right _ _))
    (h.pos h₀ h₁ hpos hn)
  rw [div_lt_iff₀ (hpos n)] at hj
  have hscaled := mul_lt_mul_of_pos_right hj hnormal
  linarith

/-- Values that grow faster than the normal can follow are unusual from some point on, and as far
above the normal as one likes. -/
theorem unusual_of_grows [Archimedean K] (hfactor : 1 ≤ factor) {q : K}
    (hq : ∀ n, q * x n ≤ x (n + 1)) (hlt : 1 + alpha * (factor - 1) < q) (far : K) :
    ∃ N, ∀ n, N ≤ n → Unusual factor floor warmup x a n ∧ far * a n ≤ x n := by
  have hq₁ : 1 < q := (le_add_of_nonneg_right (mul_nonneg h₀ (sub_nonneg.mpr hfactor))).trans_lt hlt
  have hmono : Monotone x := monotone_nat_of_le_succ fun n ↦
    (le_mul_of_one_le_left (hpos n).le hq₁.le).trans (hq n)
  -- from `n₁` on the values are above the floor and the normal is warm
  obtain ⟨j₁, hj₁⟩ := exists_lt_of_grows hpos hq₁ hq floor (warmup + 1)
  obtain ⟨j₂, hj₂⟩ := h.exists_factor_le h₀ h₁ hpos hfactor hq hlt
    (n := warmup + 1 + j₁) (by omega)
  -- and from `n₂` on they are unusual, and the normal stays what it is
  set n₂ := warmup + 1 + j₁ + j₂ with hn₂
  have hu : Unusual factor floor warmup x a n₂ :=
    ⟨by omega, hj₁.le.trans (hmono (Nat.le_add_right _ _)), hj₂⟩
  obtain ⟨j₃, hj₃⟩ := exists_lt_of_grows hpos hq₁ hq (far * a n₂) n₂
  refine ⟨n₂ + j₃, fun n hn ↦ ?_⟩
  obtain ⟨j, rfl⟩ := Nat.exists_eq_add_of_le (Nat.le_of_add_right_le hn)
  obtain ⟨hsame, hunusual⟩ := h.eq_of_monotone hmono (j := j) (by omega) hu
  refine ⟨hunusual, ?_⟩
  rw [hsame]
  exact hj₃.le.trans (hmono hn)

end Learning
