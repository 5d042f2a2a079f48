import NodeSentinel.Data.Coefficient
import NodeSentinel.Data.Maximum
import NodeSentinel.Metrics.Correlation

/-!
# What the burst correlation is

`Correlate` of `metrics/correlation.go` over the real numbers: its single-pass formula is the
correlation coefficient of the overlap, and its search returns the first lag at which that is
largest.
-/

/-! ## The reads of `pearsonLagged` -/

section Reads

/-- The pairs that the loop of `pearsonLagged` reads; an index outside a series is `none`. -/
def readPairs (x y : List K) (lag : ℕ) : Option (List (K × K)) :=
  (List.range ((x.length : ℤ) - lag).toNat).mapM fun i ↦ do
    let xi ← x[i]?
    let yi ← y[i + lag]?
    pure (xi, yi)

/-- The overlap of two series, the second read `lag` buckets later. -/
abbrev Overlap (x y : List K) (lag : ℕ) : Type := Fin (min x.length (y.length - lag))

variable {x y : List K} {lag : ℕ}

/-- The bucket of the first series at a point of the overlap. -/
def earlier (x y : List K) (lag : ℕ) (i : Overlap x y lag) : K := x.get ⟨i, by omega⟩

/-- The bucket of the second series at a point of the overlap. -/
def later (x y : List K) (lag : ℕ) (i : Overlap x y lag) : K := y.get ⟨i + lag, by omega⟩

/-- The pairs of the overlap are those that `pearsonLagged` sums over. -/
theorem zip_eq_ofFn (hlen : x.length = y.length) :
    (x.take ((x.length : ℤ) - lag).toNat).zip (y.drop lag) =
      List.ofFn fun i : Overlap x y lag ↦ (earlier x y lag i, later x y lag i) := by
  apply List.ext_getElem
  · simp
    omega
  · intro i h₁ h₂
    simp [earlier, later, Nat.add_comm lag]

theorem mapM_range_eq_some {n : ℕ} {φ : ℕ → Option α} {l : List α} (hn : l.length = n)
    (h : ∀ i (hi : i < l.length), φ i = some l[i]) : (List.range n).mapM φ = some l := by
  subst hn
  induction l using List.reverseRecOn with
  | nil => rfl
  | append_singleton l a ih =>
      have hinit : (List.range l.length).mapM φ = some l := by
        apply ih
        intro i hi
        rw [h i (by simp; omega), List.getElem_append_left hi]
      have hlast : φ l.length = some a := by
        rw [h l.length (by simp), List.getElem_concat_length rfl]
      rw [List.length_append, List.length_singleton, List.range_succ, List.mapM_append, hinit]
      simp [hlast]

/-- No read of the loop is out of range. -/
theorem readPairs_eq (hlen : x.length = y.length) :
    readPairs x y lag = some ((x.take ((x.length : ℤ) - lag).toNat).zip (y.drop lag)) := by
  apply mapM_range_eq_some
  · simp
    omega
  · intro i hi
    rw [List.length_zip, List.length_take, List.length_drop] at hi
    have hx : i < x.length := by omega
    have hy : i + lag < y.length := by omega
    simp [List.getElem?_eq_getElem hx, List.getElem?_eq_getElem hy, Nat.add_comm lag]

end Reads

/-! ## The single-pass formula -/

section Formula

variable {x y : List ℝ} {lag : ℕ}

/-- The coefficient of the overlap of two series, the second read `lag` buckets later. -/
noncomputable def coefficient (x y : List ℝ) (lag : ℕ) : ℝ :=
  pearson (earlier x y lag) (later x y lag)

/-- `pearsonLagged` counts the buckets of the overlap. -/
theorem pearsonLagged_snd (x y : List ℝ) (lag : ℕ) :
    (pearsonLagged x y lag).2 = (x.length : ℤ) - lag := by
  unfold pearsonLagged
  dsimp only
  split_ifs <;> rfl

theorem varianceTerm_ofFn {n : ℕ} (f : Fin n → ℝ) :
    varianceTerm (n : ℝ) (List.ofFn f) = n * covariation f f := by
  have h := card_mul_covariation f f
  rw [Fintype.card_fin] at h
  rw [h, varianceTerm, List.map_ofFn, List.sum_ofFn, List.sum_ofFn]
  rfl

/-- `pearsonLagged` computes the coefficient of the overlap. -/
theorem pearsonLagged_fst (hlen : x.length = y.length) (h3 : lag + 3 ≤ x.length) :
    (pearsonLagged x y lag).1 = coefficient x y lag := by
  have hcount : ¬ (x.length : ℤ) - lag < 3 := by omega
  have hmin : min x.length (y.length - lag) = x.length - lag := by omega
  have hcast : (((x.length : ℤ) - lag : ℤ) : ℝ) = (min x.length (y.length - lag) : ℕ) := by
    rw [hmin, Nat.cast_sub (by omega), Int.cast_sub, Int.cast_natCast, Int.cast_natCast]
  have hpos : (0 : ℝ) < (min x.length (y.length - lag) : ℕ) := by
    rw [Nat.cast_pos]
    omega
  have hnum := card_mul_covariation (earlier x y lag) (later x y lag)
  rw [Fintype.card_fin] at hnum
  unfold pearsonLagged
  simp only [if_neg hcount, hcast, zip_eq_ofFn hlen, List.map_ofFn, List.sum_ofFn,
    Function.comp_def, varianceTerm_ofFn]
  rw [← hnum, coefficient, pearson_eq_scaled hpos, apply_ite Prod.fst]
  rfl

end Formula

/-! ## The search -/

section Search

variable {x y : List ℝ}

/-- A search that has the first maximum so far returns the first maximum of the lags that
leave three buckets of overlap. -/
theorem lagSearch_firstMax (hlen : x.length = y.length) (len : ℕ) {start l : ℕ}
    (hl : FirstMax (coefficient x y) start l) (hstart : start + 2 ≤ x.length) :
    ∃ l', lagSearch x y (List.range' start len) (some (coefficient x y l, l)) =
        some (coefficient x y l', l') ∧
      FirstMax (coefficient x y) (min (start + len) (x.length - 2)) l' := by
  induction len generalizing start l with
  | zero =>
      rw [Nat.add_zero, Nat.min_eq_left (by omega)]
      exact ⟨l, rfl, hl⟩
  | succ len ih =>
      rw [List.range'_succ, lagSearch, pearsonLagged_snd]
      by_cases hbreak : (x.length : ℤ) - start < 3
      · -- the lags left only shrink the overlap further
        have hmin : min (start + (len + 1)) (x.length - 2) = start := by omega
        rw [if_pos hbreak, hmin]
        exact ⟨l, rfl, hl⟩
      · have hnext : start + 1 + 2 ≤ x.length := by omega
        have hsum : start + (len + 1) = start + 1 + len := by omega
        rw [if_neg hbreak, pearsonLagged_fst hlen (by omega), hsum]
        by_cases hgt : coefficient x y start > coefficient x y l
        · rw [if_pos hgt]
          exact ih (hl.next hgt) hnext
        · rw [if_neg hgt]
          exact ih (hl.keep (not_lt.mp hgt)) hnext

/-- The whole search. -/
theorem lagSearch_range (hlen : x.length = y.length) (h3 : 3 ≤ x.length) (m : ℕ) :
    ∃ l, lagSearch x y (List.range (m + 1)) none = some (coefficient x y l, l) ∧
      FirstMax (coefficient x y) (min (m + 1) (x.length - 2)) l := by
  obtain ⟨l, hs, hl⟩ := lagSearch_firstMax hlen m (FirstMax.one (coefficient x y)) (by omega)
  refine ⟨l, ?_, Nat.add_comm 1 m ▸ hl⟩
  have hcount : ¬ (x.length : ℤ) - (0 : ℕ) < 3 := by omega
  rw [List.range_eq_range', List.range'_succ, lagSearch, pearsonLagged_snd,
    if_neg hcount, pearsonLagged_fst hlen (by omega)]
  exact hs

theorem lagSearch_eq_none (h3 : x.length < 3) (lags : List ℕ) : lagSearch x y lags none = none := by
  cases lags with
  | nil => rfl
  | cons lag lags =>
      have hcount : (x.length : ℤ) - lag < 3 := by omega
      rw [lagSearch, pearsonLagged_snd, if_pos hcount]

end Search

/-! ## The gate -/

section Gate

/-- The pairs of series that are not judged. -/
def Unjudged (x y : List ℝ) (cfg : CorrelationConfig ℝ) : Prop :=
  x.length ≠ y.length ∨ x.length < 3 ∨
    ((min (activeCount x cfg.activeFloor) (activeCount y cfg.activeFloor) : ℕ) : ℤ) < cfg.minActive ∨
    cfg.varianceFloor > 0 ∧ (variance x < cfg.varianceFloor ∨ variance y < cfg.varianceFloor)

variable {x y : List ℝ} {cfg : CorrelationConfig ℝ}

/-- A pair that is not judged is gated, and scores zero. -/
theorem correlate_of_unjudged (h : Unjudged x y cfg) :
    (correlate x y cfg).gated = true ∧ (correlate x y cfg).r = 0 := by
  by_cases hlen : x.length ≠ y.length ∨ x.length = 0
  · rw [correlate, if_pos hlen]
    exact ⟨rfl, rfl⟩
  rw [correlate, if_neg hlen]
  dsimp only
  by_cases hact : ((min (activeCount x cfg.activeFloor) (activeCount y cfg.activeFloor) : ℕ) : ℤ) <
      cfg.minActive
  · rw [if_pos hact]
    exact ⟨rfl, rfl⟩
  rw [if_neg hact]
  by_cases hvar : cfg.varianceFloor > 0 ∧
      (variance x < cfg.varianceFloor ∨ variance y < cfg.varianceFloor)
  · rw [if_pos hvar]
    exact ⟨rfl, rfl⟩
  have hshort : x.length < 3 := by
    rcases h with hne | hshort | hquiet | hflat
    · exact absurd (.inl hne) hlen
    · exact hshort
    · exact absurd hquiet hact
    · exact absurd hflat hvar
  rw [if_neg hvar, lagSearch_eq_none hshort]
  exact ⟨rfl, rfl⟩

/-- A pair that is judged has the result of the search. -/
theorem correlate_of_some (h : ¬ Unjudged x y cfg) {r : ℝ} {lag : ℕ}
    (hs : lagSearch x y (List.range (cfg.maxLag + 1).toNat) none = some (r, lag)) :
    (correlate x y cfg).gated = false ∧ (correlate x y cfg).r = r ∧
      (correlate x y cfg).lag = lag := by
  rw [Unjudged] at h
  push Not at h
  obtain ⟨hlen, h3, hact, hvar⟩ := h
  have hlen' : ¬ (x.length ≠ y.length ∨ x.length = 0) := by omega
  have hvar' : ¬ (cfg.varianceFloor > 0 ∧
      (variance x < cfg.varianceFloor ∨ variance y < cfg.varianceFloor)) := by
    rintro ⟨hpos, hlow⟩
    exact (hlow.elim (hvar hpos).1.not_gt (hvar hpos).2.not_gt)
  have hc : correlate x y cfg =
      ⟨r, lag, min (activeCount x cfg.activeFloor) (activeCount y cfg.activeFloor), false⟩ := by
    rw [correlate, if_neg hlen']
    dsimp only
    rw [if_neg (not_lt.mpr hact), if_neg hvar', hs]
  rw [hc]
  exact ⟨rfl, rfl, rfl⟩

theorem correlate_of_none (hs : lagSearch x y (List.range (cfg.maxLag + 1).toNat) none = none) :
    (correlate x y cfg).gated = true := by
  by_cases hlen : x.length ≠ y.length ∨ x.length = 0
  · rw [correlate, if_pos hlen]
  · rw [correlate, if_neg hlen]
    dsimp only
    rw [hs, ite_self, ite_self]

end Gate

/-! ## The best admissible lag -/

section Best

variable {x y : List ℝ} {cfg : CorrelationConfig ℝ}

/-- The lags that `Correlate` may choose among. -/
def Admissible (x : List ℝ) (cfg : CorrelationConfig ℝ) (lag : ℕ) : Prop :=
  (lag : ℤ) ≤ min cfg.maxLag (x.length - 3)

/-- The best admissible correlation of two series, as a property of a result. -/
structure BestLagged (x y : List ℝ) (cfg : CorrelationConfig ℝ) (res : CorrelationResult ℝ) :
    Prop where
  gated_iff : res.gated = true ∧ res.r = 0 ↔ Unjudged x y cfg
  r_of_gated : res.gated = true → res.r = 0
  isGreatest : ¬ Unjudged x y cfg →
    IsGreatest (coefficient x y '' {lag | Admissible x cfg lag}) res.r
  isLeast : ¬ Unjudged x y cfg →
    IsLeast {lag | Admissible x cfg lag ∧ coefficient x y lag = res.r} res.lag
  neg_one_le_r : -1 ≤ res.r
  r_le_one : res.r ≤ 1
  confidence_eq : res.confidence = max res.r 0
  reads : x.length = y.length → ∀ lag,
    readPairs x y lag = some ((x.take ((x.length : ℤ) - lag).toNat).zip (y.drop lag))

theorem CorrelationResult.confidence_eq_max {res : CorrelationResult ℝ} (h : res.r ≤ 1) :
    res.confidence = max res.r 0 := by
  unfold CorrelationResult.confidence
  split_ifs with hneg hbig
  · rw [max_eq_right hneg.le]
  · exact absurd h hbig.not_ge
  · rw [max_eq_left (not_lt.mp hneg)]

/-- A judged pair has the first of the admissible lags at which the coefficient is largest. -/
theorem exists_firstMax (hlag : 0 ≤ cfg.maxLag) (h : ¬ Unjudged x y cfg) :
    ∃ l, FirstMax (coefficient x y) (min (cfg.maxLag.toNat + 1) (x.length - 2)) l ∧
      (correlate x y cfg).gated = false ∧ (correlate x y cfg).r = coefficient x y l ∧
      (correlate x y cfg).lag = l := by
  have hlen : x.length = y.length := by
    by_contra hne
    exact h (.inl hne)
  have h3 : 3 ≤ x.length := by
    by_contra! hshort
    exact h (.inr (.inl hshort))
  obtain ⟨l, hs, hl⟩ := lagSearch_range hlen h3 cfg.maxLag.toNat
  have hm : (cfg.maxLag + 1).toNat = cfg.maxLag.toNat + 1 := by omega
  exact ⟨l, hl, correlate_of_some h (hm ▸ hs)⟩

/-- The admissible lags are those the search gets to. -/
theorem admissible_iff (hlag : 0 ≤ cfg.maxLag) (h3 : 3 ≤ x.length) (lag : ℕ) :
    Admissible x cfg lag ↔ lag < min (cfg.maxLag.toNat + 1) (x.length - 2) := by
  unfold Admissible
  omega

/-- `Correlate` is gated exactly where there is nothing to judge, and returns the largest
coefficient over the admissible lags, at the smallest lag that attains it, elsewhere.  None
of its reads is out of range. -/
theorem correlate_bestLagged (x y : List ℝ) (cfg : CorrelationConfig ℝ) (hlag : 0 ≤ cfg.maxLag) :
    BestLagged x y cfg (correlate x y cfg) := by
  by_cases h : Unjudged x y cfg
  · obtain ⟨hgated, hr⟩ := correlate_of_unjudged h
    have hone : (correlate x y cfg).r ≤ 1 := hr ▸ zero_le_one
    exact {
      gated_iff := iff_of_true ⟨hgated, hr⟩ h
      r_of_gated := fun _ ↦ hr
      isGreatest := absurd h
      isLeast := absurd h
      neg_one_le_r := by rw [hr]; norm_num
      r_le_one := hone
      confidence_eq := CorrelationResult.confidence_eq_max hone
      reads := fun hlen _ ↦ readPairs_eq hlen }
  · obtain ⟨l, hl, hgated, hr, hlag'⟩ := exists_firstMax hlag h
    have h3 : 3 ≤ x.length := by
      by_contra! hshort
      exact h (.inr (.inl hshort))
    have hset : {lag | Admissible x cfg lag} =
        Set.Iio (min (cfg.maxLag.toNat + 1) (x.length - 2)) := by
      ext lag
      exact admissible_iff hlag h3 lag
    have hbound := abs_le.mp (abs_pearson_le_one (earlier x y l) (later x y l))
    exact {
      gated_iff := iff_of_false (fun hg ↦ absurd (hg.1.symm.trans hgated) (by decide)) h
      r_of_gated := fun hg ↦ absurd (hg.symm.trans hgated) (by decide)
      isGreatest := fun _ ↦ by
        rw [hset, hr]
        exact hl.isGreatest
      isLeast := fun _ ↦ by
        simp only [admissible_iff hlag h3, hr, hlag']
        exact hl.isLeast
      neg_one_le_r := hr ▸ hbound.1
      r_le_one := hr ▸ hbound.2
      confidence_eq := CorrelationResult.confidence_eq_max (hr ▸ hbound.2)
      reads := fun hlen _ ↦ readPairs_eq hlen }

/-- One lag, and one active bucket enough. -/
def burstConfig : CorrelationConfig ℝ := ⟨1, 1, 0, 0⟩

theorem laterBurst_bestLagged :
    BestLagged [0, 5, 0, 0] [0, 0, 5, 0] burstConfig
        (correlate [0, 5, 0, 0] [0, 0, 5, 0] burstConfig) ∧
      ¬ Unjudged [0, 5, 0, 0] [0, 0, 5, 0] burstConfig := by
  constructor
  · exact correlate_bestLagged [0, 5, 0, 0] [0, 0, 5, 0] burstConfig (by simp [burstConfig])
  · simp [Unjudged, activeCount, burstConfig]

end Best

/-! ## Changes of scale -/

section Affine

variable {x y : List ℝ} {cfg : CorrelationConfig ℝ} {a b c d : ℝ}

/-- A series in another unit and from another origin. -/
def affine (a b : ℝ) (x : List ℝ) : List ℝ := x.map fun v ↦ a * v + b

@[simp] theorem length_affine (a b : ℝ) (x : List ℝ) : (affine a b x).length = x.length :=
  List.length_map _

/-- The coefficient of an overlap does not change with the units. -/
theorem coefficient_affine (ha : 0 < a) (hc : 0 < c) (b d : ℝ) (x y : List ℝ) (lag : ℕ) :
    coefficient (affine a b x) (affine c d y) lag = coefficient x y lag := by
  have hcard : min (affine a b x).length ((affine c d y).length - lag) =
      min x.length (y.length - lag) := by
    rw [length_affine, length_affine]
  have hx : earlier (affine a b x) (affine c d y) lag =
      (fun i ↦ a * earlier x y lag i + b) ∘ finCongr hcard := by
    ext i
    simp only [earlier, affine, List.get_eq_getElem, List.getElem_map]
    rfl
  have hy : later (affine a b x) (affine c d y) lag =
      (fun i ↦ c * later x y lag i + d) ∘ finCongr hcard := by
    ext i
    simp only [later, affine, List.get_eq_getElem, List.getElem_map]
    rfl
  rw [coefficient, hx, hy, pearson_comp_equiv, pearson_affine ha hc]
  rfl

/-- Nor does the search. -/
theorem lagSearch_congr {x' y' : List ℝ} (h : ∀ lag, pearsonLagged x' y' lag = pearsonLagged x y lag)
    (lags : List ℕ) (best : Option (ℝ × ℕ)) :
    lagSearch x' y' lags best = lagSearch x y lags best := by
  induction lags generalizing best with
  | nil => rfl
  | cons lag lags ih =>
      cases best with
      | none => simp only [lagSearch, h lag, ih]
      | some p => simp only [lagSearch, h lag, ih]

theorem pearsonLagged_affine (hlen : x.length = y.length) (ha : 0 < a) (hc : 0 < c) (b d : ℝ)
    (lag : ℕ) : pearsonLagged (affine a b x) (affine c d y) lag = pearsonLagged x y lag := by
  apply Prod.ext
  · by_cases h3 : lag + 3 ≤ x.length
    · rw [pearsonLagged_fst (by simpa using hlen) (by simpa using h3), pearsonLagged_fst hlen h3,
        coefficient_affine ha hc]
    · have hcount : (x.length : ℤ) - lag < 3 := by omega
      rw [pearsonLagged, pearsonLagged, length_affine, if_pos hcount, if_pos hcount]
  · rw [pearsonLagged_snd, pearsonLagged_snd, length_affine]

/-! ### The gates -/

/-- An ungated pair is judged, and some lag was tried. -/
theorem correlate_gated_iff :
    (correlate x y cfg).gated = true ↔ Unjudged x y cfg ∨ cfg.maxLag < 0 := by
  by_cases h : Unjudged x y cfg
  · exact iff_of_true (correlate_of_unjudged h).1 (.inl h)
  · by_cases hlag : cfg.maxLag < 0
    · have hnil : List.range (cfg.maxLag + 1).toNat = [] := by
        rw [Int.toNat_of_nonpos (by omega), List.range_zero]
      exact iff_of_true (correlate_of_none (by rw [hnil]; rfl)) (.inr hlag)
    · obtain ⟨l, -, hgated, -⟩ := exists_firstMax (not_lt.mp hlag) h
      rw [hgated]
      exact iff_of_false (by decide) (not_or.mpr ⟨h, hlag⟩)

theorem variance_nonneg (x : List ℝ) : 0 ≤ variance x := by
  unfold variance
  split_ifs
  · exact le_rfl
  · refine div_nonneg (List.sum_nonneg ?_) (Nat.cast_nonneg _)
    simp only [List.mem_map]
    rintro _ ⟨v, -, rfl⟩
    exact mul_self_nonneg _

/-- The variance scales with the square of the unit. -/
theorem variance_affine (a b : ℝ) (x : List ℝ) : variance (affine a b x) = a * a * variance x := by
  unfold variance
  rw [length_affine]
  split_ifs with h0
  · rw [mul_zero]
  · have hn : (x.length : ℝ) ≠ 0 := Nat.cast_ne_zero.mpr h0
    have hsum : (affine a b x).sum = a * x.sum + x.length * b := by
      rw [affine, List.sum_map_add, List.sum_map_mul_left, List.map_const', List.sum_replicate,
        nsmul_eq_mul, List.map_id']
    have hdev : ∀ v : ℝ, (a * v + b - (affine a b x).sum / x.length) *
        (a * v + b - (affine a b x).sum / x.length) =
        a * a * ((v - x.sum / x.length) * (v - x.sum / x.length)) := by
      intro v
      rw [hsum]
      field_simp
      ring
    dsimp only
    rw [affine, List.map_map, ← affine, Function.comp_def]
    simp only [hdev]
    rw [List.sum_map_mul_left, mul_div_assoc]

/-- More buckets are active after a change that lowers none of them. -/
theorem activeCount_le_affine (ha : 1 ≤ a) (hb : 0 ≤ b) (hx : ∀ v ∈ x, 0 ≤ v) (floor : ℝ) :
    activeCount x floor ≤ activeCount (affine a b x) floor := by
  unfold activeCount affine
  rw [List.countP_map]
  apply List.countP_mono_left
  intro v hv hlt
  have hle : v ≤ a * v := le_mul_of_one_le_left (hx v hv) ha
  simp only [decide_eq_true_eq, Function.comp_apply] at hlt ⊢
  linarith

theorem variance_le_affine (ha : 1 ≤ a) (b : ℝ) (x : List ℝ) :
    variance x ≤ variance (affine a b x) := by
  rw [variance_affine]
  exact le_mul_of_one_le_left (variance_nonneg x) (one_le_mul_of_one_le_of_one_le ha ha)

/-- What is judged stays judged after a change that lowers no bucket. -/
theorem unjudged_of_affine (ha : 1 ≤ a) (hb : 0 ≤ b) (hc : 1 ≤ c) (hd : 0 ≤ d) (hx : ∀ v ∈ x, 0 ≤ v)
    (hy : ∀ v ∈ y, 0 ≤ v) (h : Unjudged (affine a b x) (affine c d y) cfg) : Unjudged x y cfg := by
  unfold Unjudged at h ⊢
  rw [length_affine, length_affine] at h
  rcases h with hne | hshort | hquiet | ⟨hpos, hflat⟩
  · exact .inl hne
  · exact .inr (.inl hshort)
  · have hx' := activeCount_le_affine ha hb hx cfg.activeFloor
    have hy' := activeCount_le_affine hc hd hy cfg.activeFloor
    exact .inr (.inr (.inl (by omega)))
  · exact .inr (.inr (.inr ⟨hpos, hflat.imp (variance_le_affine ha b x).trans_lt
      (variance_le_affine hc d y).trans_lt⟩))

/-- Correlation scores shape, not size. -/
theorem correlate_affine (x y : List ℝ) (cfg : CorrelationConfig ℝ) (hlen : x.length = y.length)
    (ha : 0 < a) (hc : 0 < c) (b d : ℝ) :
    ((correlate x y cfg).gated = false →
        (correlate (affine a b x) (affine c d y) cfg).gated = false →
        (correlate (affine a b x) (affine c d y) cfg).r = (correlate x y cfg).r ∧
          (correlate (affine a b x) (affine c d y) cfg).lag = (correlate x y cfg).lag) ∧
      (1 ≤ a → 0 ≤ b → 1 ≤ c → 0 ≤ d → (∀ v ∈ x, 0 ≤ v) → (∀ v ∈ y, 0 ≤ v) →
        (correlate x y cfg).gated = false →
        (correlate (affine a b x) (affine c d y) cfg).gated = false) := by
  simp only [← Bool.not_eq_true, correlate_gated_iff, not_or]
  constructor
  · rintro ⟨hj, hlag⟩ ⟨hj', -⟩
    have hlags := lagSearch_congr (pearsonLagged_affine hlen ha hc b d)
      (List.range (cfg.maxLag + 1).toNat) none
    cases hs : lagSearch x y (List.range (cfg.maxLag + 1).toNat) none with
    | none => exact absurd (correlate_gated_iff.mp (correlate_of_none hs)) (by tauto)
    | some p =>
        obtain ⟨-, hr, hl⟩ := correlate_of_some hj hs
        obtain ⟨-, hr', hl'⟩ := correlate_of_some hj' (hlags.trans hs)
        exact ⟨hr'.trans hr.symm, hl'.trans hl.symm⟩
  · rintro ha' hb hc' hd hx hy ⟨hj, hlag⟩
    exact ⟨mt (unjudged_of_affine ha' hb hc' hd hx hy) hj, hlag⟩

theorem scaledBurst_affine :
    (correlate (affine 3 1 [0, 5, 0, 0]) (affine 2 0 [0, 0, 5, 0]) burstConfig).gated = false ∧
      (correlate (affine 3 1 [0, 5, 0, 0]) (affine 2 0 [0, 0, 5, 0]) burstConfig).r =
        (correlate [0, 5, 0, 0] [0, 0, 5, 0] burstConfig).r ∧
      (correlate (affine 3 1 [0, 5, 0, 0]) (affine 2 0 [0, 0, 5, 0]) burstConfig).lag =
        (correlate [0, 5, 0, 0] [0, 0, 5, 0] burstConfig).lag := by
  have hungated : (correlate [0, 5, 0, 0] [0, 0, 5, 0] burstConfig).gated = false := by
    rw [← Bool.not_eq_true, correlate_gated_iff]
    simp [Unjudged, activeCount, burstConfig]
  obtain ⟨hsame, hkeeps⟩ := correlate_affine [0, 5, 0, 0] [0, 0, 5, 0] burstConfig rfl
    (by norm_num : (0 : ℝ) < 3) (by norm_num : (0 : ℝ) < 2) 1 0
  have hungated' := hkeeps (by norm_num) zero_le_one (by norm_num) le_rfl (by simp) (by simp)
    hungated
  exact ⟨hungated', hsame hungated hungated'⟩

end Affine
