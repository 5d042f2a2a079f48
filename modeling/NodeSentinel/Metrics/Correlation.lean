import NodeSentinel.Data.Literal

/-!
# The burst correlation scorer

`metrics/correlation.go`: a lagged Pearson correlation between two series, behind an
activity gate.  All arithmetic is exact.
-/

/-! ## Square roots -/

/-- A square root, as far as the sign of a correlation depends on it. -/
class Sqrt (K : Type*) [Zero K] [LT K] where
  sqrt : K → K
  sqrt_pos : ∀ {x : K}, 0 < x → 0 < sqrt x

noncomputable instance : Sqrt ℝ where
  sqrt := Real.sqrt
  sqrt_pos := Real.sqrt_pos.mpr

/-- Exact on squares, and computable. -/
instance : Sqrt ℚ where
  sqrt := Rat.sqrt
  sqrt_pos {q} hq := by
    have hnum : 0 < Int.sqrt q.num := by
      have hn : 0 < q.num := Rat.num_pos.mpr hq
      rw [Int.sqrt, Int.natCast_pos, Nat.sqrt_pos]
      omega
    have hden : 0 < q.den.sqrt := Nat.sqrt_pos.mpr q.den_pos
    rw [Rat.sqrt, Rat.mkRat_eq_div]
    exact div_pos (by exact_mod_cast hnum) (by exact_mod_cast hden)

/-! ## The scorer -/

/-- `CorrelationConfig`. -/
structure CorrelationConfig (K : Type*) where
  maxLag : ℤ
  minActive : ℤ
  activeFloor : K
  varianceFloor : K

/-- `CorrelationResult`. -/
structure CorrelationResult (K : Type*) where
  r : K
  lag : ℕ
  active : ℕ
  gated : Bool
deriving Repr, DecidableEq

variable {K : Type*} [Field K] [LinearOrder K]

/-- `Confidence`: `R` without its negative half. -/
def CorrelationResult.confidence (res : CorrelationResult K) : K :=
  if res.r < 0 then 0 else if res.r > 1 then 1 else res.r

/-- `activeCount`: how many buckets exceed the floor. -/
def activeCount (xs : List K) (floor : K) : ℕ := xs.countP fun x ↦ decide (floor < x)

/-- `variance`: the population variance. -/
def variance (xs : List K) : K :=
  if xs.length = 0 then 0
  else
    let mean := xs.sum / xs.length
    (xs.map fun x ↦ (x - mean) * (x - mean)).sum / xs.length

/-- `n·Σx² − (Σx)²`, a variance term of `pearsonLagged`. -/
def varianceTerm (n : K) (xs : List K) : K :=
  n * (xs.map fun x ↦ x * x).sum - xs.sum * xs.sum

section Pearson

variable [Sqrt K]

/-- `pearsonLagged`: the Pearson correlation of `x` and `y`, with `y` read `lag` buckets
later, and the number of pairs that overlap. -/
def pearsonLagged (x y : List K) (lag : ℕ) : K × ℤ :=
  let count : ℤ := x.length - lag
  if count < 3 then (0, count)
  else
    let pairs := (x.take count.toNat).zip (y.drop lag)
    let xs := pairs.map Prod.fst
    let ys := pairs.map Prod.snd
    let fn : K := count
    let num := fn * (pairs.map fun p ↦ p.1 * p.2).sum - xs.sum * ys.sum
    let vx := varianceTerm fn xs
    let vy := varianceTerm fn ys
    if vx ≤ 0 ∨ vy ≤ 0 then (0, count) else (num / Sqrt.sqrt (vx * vy), count)

/-- The lag search of `Correlate` over the lags still to try; `best` is `none` for `-Inf`. -/
def lagSearch (x y : List K) : List ℕ → Option (K × ℕ) → Option (K × ℕ)
  | [], best => best
  | lag :: lags, best =>
      let s := pearsonLagged x y lag
      if s.2 < 3 then best
      else
        match best with
        | none => lagSearch x y lags (some (s.1, lag))
        | some (b, l) => lagSearch x y lags (if s.1 > b then some (s.1, lag) else some (b, l))

/-- `Correlate`: the strongest lagged correlation, or a gated zero where there is not
enough activity. -/
def correlate (offender victim : List K) (cfg : CorrelationConfig K) : CorrelationResult K :=
  if offender.length ≠ victim.length ∨ offender.length = 0 then ⟨0, 0, 0, true⟩
  else
    let active := min (activeCount offender cfg.activeFloor) (activeCount victim cfg.activeFloor)
    if active < cfg.minActive then ⟨0, 0, active, true⟩
    else if cfg.varianceFloor > 0 ∧
        (variance offender < cfg.varianceFloor ∨ variance victim < cfg.varianceFloor) then
      ⟨0, 0, active, true⟩
    else
      match lagSearch offender victim (List.range (cfg.maxLag + 1).toNat) none with
      | none => ⟨0, 0, active, true⟩
      | some (r, lag) => ⟨r, lag, active, false⟩

end Pearson

/-! ## Variance terms -/

section Variance

omit [LinearOrder K] in
theorem varianceTerm_replicate (n : ℕ) (c : K) : varianceTerm (n : K) (List.replicate n c) = 0 := by
  simp only [varianceTerm, List.map_replicate, List.sum_replicate, nsmul_eq_mul]
  ring

variable [IsStrictOrderedRing K]

/-- The square of a sum, by Cauchy–Schwarz. -/
theorem sum_mul_sum_le (xs : List K) :
    xs.sum * xs.sum ≤ xs.length * (xs.map fun x ↦ x * x).sum := by
  have h := sq_sum_le_card_mul_sum_sq (s := Finset.univ) (f := fun i : Fin xs.length ↦ xs[i.1])
  have hs : ∑ i : Fin xs.length, xs[i.1] ^ 2 = (xs.map fun x ↦ x * x).sum := by
    rw [← Fin.sum_univ_fun_getElem]
    exact Finset.sum_congr rfl fun i _ ↦ sq _
  rwa [hs, Finset.card_univ, Fintype.card_fin, Fin.sum_univ_getElem, sq] at h

end Variance

/-! ## The lag search -/

section Search

variable [Sqrt K] {x y : List K}

/-- The search never gives up a correlation it has found. -/
theorem exists_lagSearch_some (lags : List ℕ) (b : K) (l : ℕ) :
    ∃ r l', lagSearch x y lags (some (b, l)) = some (r, l') ∧ b ≤ r := by
  induction lags generalizing b l with
  | nil => exact ⟨b, l, rfl, le_rfl⟩
  | cons lag lags ih =>
      rw [lagSearch]
      split
      · exact ⟨b, l, rfl, le_rfl⟩
      · split
        · next hr =>
            obtain ⟨r, l', h, hle⟩ := ih (pearsonLagged x y lag).1 lag
            exact ⟨r, l', h, hr.le.trans hle⟩
        · exact ih b l

/-- Where every lag scores zero, so does the search. -/
theorem lagSearch_eq_zero (hz : ∀ lag, (pearsonLagged x y lag).1 = 0) {lags : List ℕ}
    {best : Option (K × ℕ)} (hb : ∀ p ∈ best, p.1 = 0) :
    ∀ p ∈ lagSearch x y lags best, p.1 = 0 := by
  induction lags generalizing best with
  | nil => exact hb
  | cons lag lags ih =>
      unfold lagSearch
      dsimp only
      split
      · exact hb
      · have hlag : ∀ p ∈ some ((pearsonLagged x y lag).1, lag), p.1 = 0 := by
          rintro _ ⟨⟩
          exact hz lag
        cases best with
        | none => exact ih hlag
        | some p =>
            dsimp only
            split
            · exact ih hlag
            · exact ih hb

/-- A gated pair scores zero. -/
theorem correlate_r_of_inactive {cfg : CorrelationConfig K}
    (h : min (activeCount x cfg.activeFloor) (activeCount y cfg.activeFloor) < cfg.minActive) :
    (correlate x y cfg).r = 0 := by
  unfold correlate
  split
  · rfl
  · simp only [Nat.cast_min] at h ⊢
    rw [if_pos h]

/-- Series that correlate at no lag score zero. -/
theorem correlate_r_eq_zero {cfg : CorrelationConfig K}
    (hz : ∀ lag, (pearsonLagged x y lag).1 = 0) : (correlate x y cfg).r = 0 := by
  unfold correlate
  split
  · rfl
  · dsimp only
    split_ifs
    · rfl
    · rfl
    · have h : ∀ p ∈ lagSearch x y (List.range (cfg.maxLag + 1).toNat) none, p.1 = 0 :=
        lagSearch_eq_zero hz (by rintro _ ⟨⟩)
      cases hs : lagSearch x y (List.range (cfg.maxLag + 1).toNat) none with
      | none => rfl
      | some p =>
          rw [hs] at h
          exact h p rfl

/-- An ungated pair scores at least its correlation at lag zero. -/
theorem pearsonLagged_zero_le_r {cfg : CorrelationConfig K} (hlen : x.length = y.length)
    (h3 : 3 ≤ x.length) (hlag : 0 ≤ cfg.maxLag)
    (hact : cfg.minActive ≤ (min (activeCount x cfg.activeFloor) (activeCount y cfg.activeFloor) : ℕ))
    (hvar : cfg.varianceFloor ≤ 0) : (pearsonLagged x y 0).1 ≤ (correlate x y cfg).r := by
  have hn : ¬ (pearsonLagged x y 0).2 < 3 := by
    have hc : (pearsonLagged x y 0).2 = x.length := by
      unfold pearsonLagged
      dsimp only
      split_ifs <;> simp
    omega
  have hrange : List.range (cfg.maxLag + 1).toNat = 0 :: (List.range cfg.maxLag.toNat).map Nat.succ := by
    rw [← List.range_succ_eq_map]
    congr 1
    omega
  have hcfg : ¬ (x.length ≠ y.length ∨ x.length = 0) := by omega
  obtain ⟨r, l, hs, hle⟩ := exists_lagSearch_some (x := x) (y := y)
    ((List.range cfg.maxLag.toNat).map Nat.succ) (pearsonLagged x y 0).1 0
  have hsearch : lagSearch x y (List.range (cfg.maxLag + 1).toNat) none = some (r, l) := by
    rw [hrange, lagSearch]
    simpa only [if_neg hn] using hs
  rw [correlate, if_neg hcfg]
  simp only [if_neg (not_lt.mpr hact), if_neg fun hv : cfg.varianceFloor > 0 ∧ _ ↦
    absurd hv.1 (not_lt.mpr hvar), hsearch]
  exact hle

end Search

/-! ## Constant and one-step offenders -/

section Shapes

omit [LinearOrder K] in
theorem sum_map_mul_zip_replicate (c : K) (ys : List K) :
    (((List.replicate ys.length c).zip ys).map fun p ↦ p.1 * p.2).sum = c * ys.sum := by
  induction ys with
  | nil => simp
  | cons y ys ih =>
      rw [List.length_cons, List.replicate_succ, List.zip_cons_cons, List.map_cons, List.sum_cons,
        ih, List.sum_cons, mul_add]

variable [Sqrt K]

/-- A constant series correlates with nothing. -/
theorem pearsonLagged_replicate {n : ℕ} {c : K} {y : List K} (hy : y.length = n) (lag : ℕ) :
    (pearsonLagged (List.replicate n c) y lag).1 = 0 := by
  unfold pearsonLagged
  dsimp only
  split_ifs with h3 hv
  · rfl
  · rfl
  · refine absurd (.inl ?_) hv
    rw [List.length_replicate] at h3 ⊢
    have hcount : ((n : ℤ) - lag).toNat = n - lag := by omega
    have hle : ((List.replicate n c).take (n - lag)).length ≤ (y.drop lag).length := by
      simp [hy]
    have hcast : (((n : ℤ) - lag : ℤ) : K) = ((n - lag : ℕ) : K) := by
      rw [Nat.cast_sub (by omega), Int.cast_sub, Int.cast_natCast, Int.cast_natCast]
    rw [hcount, List.map_fst_zip hle, List.take_replicate, Nat.min_eq_left (Nat.sub_le _ _), hcast,
      varianceTerm_replicate]

/-- A constant offender scores zero against every victim. -/
theorem correlate_replicate (n : ℕ) (c : K) (y : List K) (cfg : CorrelationConfig K) :
    (correlate (List.replicate n c) y cfg).r = 0 := by
  by_cases hy : y.length = n
  · exact correlate_r_eq_zero (pearsonLagged_replicate hy)
  · have hlen : (List.replicate n c).length ≠ y.length := by
      rw [List.length_replicate]
      exact Ne.symm hy
    rw [correlate, if_pos (.inl hlen)]

/-- The correlation of coincident buckets. -/
theorem pearsonLagged_zero {x y : List K} (hlen : x.length = y.length) (h3 : 3 ≤ x.length)
    (hx : 0 < varianceTerm (x.length : K) x) (hy : 0 < varianceTerm (x.length : K) y) :
    (pearsonLagged x y 0).1 =
      (x.length * ((x.zip y).map fun p ↦ p.1 * p.2).sum - x.sum * y.sum) /
        Sqrt.sqrt (varianceTerm (x.length : K) x * varianceTerm (x.length : K) y) := by
  have hcount : ((x.length : ℤ) - (0 : ℕ)).toNat = x.length := by simp
  have hcast : (((x.length : ℤ) - (0 : ℕ) : ℤ) : K) = x.length := by simp
  have h3' : ¬ (x.length : ℤ) - (0 : ℕ) < 3 := by omega
  unfold pearsonLagged
  simp only [if_neg h3', hcount, hcast, List.take_length, List.drop_zero,
    List.map_fst_zip hlen.le, List.map_snd_zip hlen.ge]
  rw [if_neg (not_or.mpr ⟨not_le.mpr hx, not_le.mpr hy⟩)]

variable [IsStrictOrderedRing K]

/-- A series that is zero for `a` buckets and then steps up to a constant correlates with
every series that is zero there and active later. -/
theorem pearsonLagged_step_pos {a : ℕ} {c : K} {ys : List K} (ha : 0 < a) (hc : 0 < c)
    (hys : 0 < ys.sum) (h3 : 3 ≤ a + ys.length) :
    0 < (pearsonLagged (List.replicate a 0 ++ List.replicate ys.length c)
      (List.replicate a 0 ++ ys) 0).1 := by
  have ha' : (0 : K) < a := Nat.cast_pos.mpr ha
  have hk : (0 : K) < ys.length := by
    cases ys with
    | nil => simp at hys
    | cons => exact Nat.cast_pos.mpr (Nat.succ_pos _)
  have hsq : 0 < (ys.map fun y ↦ y * y).sum :=
    pos_of_mul_pos_right ((mul_pos hys hys).trans_le (sum_mul_sum_le ys)) hk.le
  have hdot : (((List.replicate a 0 ++ List.replicate ys.length c).zip
      (List.replicate a 0 ++ ys)).map fun p : K × K ↦ p.1 * p.2).sum = c * ys.sum := by
    rw [List.zip_append (by simp), List.map_append, List.sum_append, sum_map_mul_zip_replicate,
      List.zip_replicate', List.map_replicate]
    simp
  have hlen : (List.replicate a 0 ++ List.replicate ys.length c).length = a + ys.length := by simp
  have hvx : 0 < varianceTerm ((a + ys.length : ℕ) : K)
      (List.replicate a 0 ++ List.replicate ys.length c) := by
    have : varianceTerm ((a + ys.length : ℕ) : K)
        (List.replicate a 0 ++ List.replicate ys.length c) = a * ys.length * (c * c) := by
      simp [varianceTerm]
      ring
    rw [this]
    positivity
  have hvy : 0 < varianceTerm ((a + ys.length : ℕ) : K) (List.replicate a 0 ++ ys) := by
    have : varianceTerm ((a + ys.length : ℕ) : K) (List.replicate a 0 ++ ys) =
        a * (ys.map fun y ↦ y * y).sum +
          (ys.length * (ys.map fun y ↦ y * y).sum - ys.sum * ys.sum) := by
      simp [varianceTerm]
      ring
    rw [this]
    exact add_pos_of_pos_of_nonneg (mul_pos ha' hsq) (sub_nonneg.mpr (sum_mul_sum_le ys))
  rw [pearsonLagged_zero (by simp) (by omega) (hlen ▸ hvx) (hlen ▸ hvy), hdot, hlen]
  refine div_pos ?_ (Sqrt.sqrt_pos (mul_pos hvx hvy))
  have hnum : ((a + ys.length : ℕ) : K) * (c * ys.sum) -
      (List.replicate a 0 ++ List.replicate ys.length c).sum * (List.replicate a 0 ++ ys).sum =
      a * (c * ys.sum) := by
    simp
    ring
  rw [hnum]
  exact mul_pos ha' (mul_pos hc hys)

end Shapes
