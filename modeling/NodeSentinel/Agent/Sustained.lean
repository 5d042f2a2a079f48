import NodeSentinel.Agent.BuildSnapshot

/-!
# Sustained problems and the learned normal

What a run of intervals makes of the entry of one cgroup.  While the values it is shown
are either calm or loud, the normal that is learned stays calm: calm values are folded
into it, loud ones are judged against it and leave it alone.
-/

variable {K : Type} [Field K] [LinearOrder K]

/-! ## What a run shows to one key -/

/-- How many intervals before `n` have shown a value. -/
def heard {α : Type} (v : ℕ → Option α) (n : ℕ) : ℕ := Nat.count (fun i ↦ (v i).isSome = true) n

section Heard

variable {α : Type} {v : ℕ → Option α} {n : ℕ}

theorem heard_succ_of_some {value : α} (h : v n = some value) : heard v (n + 1) = heard v n + 1 := by
  simp [heard, Nat.count_succ, h]

theorem heard_succ_of_none (h : v n = none) : heard v (n + 1) = heard v n := by
  simp [heard, Nat.count_succ, h]

theorem heard_eq_of_isSome (h : ∀ i, (v i).isSome) : heard v n = n := by
  simp [heard, Nat.count_eq_card_filter_range, h]

end Heard

/-- The baseline `b n` before interval `n`, as far as one key is concerned, in a run that
shows the values `v`: `none` where a gate is not cleared. -/
structure Shows (cfg : Config K) (floor : K) (cg : ℕ) (v : ℕ → Option K) (b : ℕ → Baseline K) :
    Prop where
  start : (b 0).state cg = none
  pos : ∀ {n value}, v n = some value → 0 < value
  alpha : ∀ n, (b n).alpha = cfg.baselineAlpha
  warmup : ∀ n, (b n).warmup = cfg.baselineWarmup
  shown : ∀ {n value}, v n = some value →
    (b (n + 1)).state cg = (judgeVictim cfg (b n) floor cg value).2.prune.state cg
  gated : ∀ {n}, v n = none → (b (n + 1)).state cg = (b n).prune.state cg

/-- A configuration a normal can be learned with. -/
structure Config.Learns (cfg : Config K) : Prop where
  alpha_nonneg : 0 ≤ cfg.baselineAlpha
  alpha_le_one : cfg.baselineAlpha ≤ 1
  warmup_pos : 1 ≤ cfg.baselineWarmup
  deviation_pos : 0 < cfg.deviationFactor

/-- A value that is unusual, and above the floor, for a key whose normal is at most `m`. -/
def Loud (cfg : Config K) (floor m value : K) : Prop :=
  max floor (cfg.deviationFactor * m) ≤ value

/-- Every value is calm or, once the first `BaselineWarmup` of them have been, loud; and the
key is shown often enough to be kept. -/
structure Spells (cfg : Config K) (floor m : K) (v : ℕ → Option K) : Prop where
  low : m < floor
  calm_or_loud : ∀ {n value}, v n = some value →
    value ≤ m ∨ cfg.baselineWarmup ≤ heard v n ∧ Loud cfg floor m value
  kept : ∀ {n i}, i < n → (v i).isSome → ∃ j, n ≤ j ∧ j < n + pruneAfterMisses ∧ (v j).isSome

/-! ## One value -/

section Judge

variable {cfg : Config K} {b : Baseline K} {floor value : K} {cg : ℕ}

/-- A value below the floor is learned. -/
theorem judgeVictim_of_lt (h : value < floor) : judgeVictim cfg b floor cg value =
    (⟨false, (b.deviation cg value).getD 0⟩, b.observe cg value true) := by
  have hv : decide (value ≥ floor) = false := decide_eq_false (not_le.mpr h)
  cases hd : b.deviation cg value with
  | none => simp [judgeVictim, hd, hv]
  | some ratio => by_cases hr : ratio < cfg.deviationFactor <;> simp [judgeVictim, hd, hv, hr]

/-- A value far above a warm normal is judged a victim, and is not learned. -/
theorem judgeVictim_of_loud {a : Avg K} (hs : b.state cg = some a) (hw : b.warmup ≤ a.samples)
    (hpos : 0 < a.value) (hf : floor ≤ value) (hd : cfg.deviationFactor ≤ value / a.value) :
    judgeVictim cfg b floor cg value = (⟨true, value / a.value⟩, b.observe cg value false) := by
  have hdev : b.deviation cg value = some (value / a.value) :=
    Baseline.deviation_eq_some_iff.mpr ⟨a, hs, hw, hpos, rfl⟩
  simp [judgeVictim, hdev, not_lt.mpr hd, hf]

end Judge

/-! ## The entry of the key -/

/-- What is known of the entry of a key before interval `n`. -/
structure Calm (m : K) (v : ℕ → Option K) (n : ℕ) (a : Avg K) : Prop where
  samples : a.samples = heard v n
  pos : 0 < a.value
  le : a.value ≤ m
  touched : a.touched = false
  misses : a.misses < pruneAfterMisses
  /-- The rounds that were missed are the last ones, and the key was shown before. -/
  silent : ∀ {i}, i < n → n ≤ i + a.misses → v i = none
  started : ∃ i, i + a.misses < n ∧ (v i).isSome

/-- The entry is there as soon as a value has been shown. -/
def CalmBefore (m : K) (v : ℕ → Option K) (n : ℕ) : Option (Avg K) → Prop
  | none => heard v n = 0
  | some a => Calm m v n a

section Run

variable {v : ℕ → Option K} {n : ℕ}

variable [IsStrictOrderedRing K] {cfg : Config K} {floor m : K} {cg : ℕ} {b : ℕ → Baseline K}

omit [IsStrictOrderedRing K] in
/-- The entry after a value has been shown. -/
theorem Calm.of_shown {value : K} (hv : v n = some value) {x : K} (hpos : 0 < x) (hle : x ≤ m)
    {k : ℕ} (hk : k = heard v n) : Calm m v (n + 1) ⟨x, k + 1, false, 0⟩ where
  samples := by rw [heard_succ_of_some hv, hk]
  pos := hpos
  le := hle
  touched := rfl
  misses := pruneAfterMisses_pos
  silent hi hn := absurd hi (by simpa using hn)
  started := ⟨n, Nat.lt_succ_self n, by simp [hv]⟩

/-- A calm value is folded in. -/
theorem Calm.of_calm {a : Avg K} (ha : Calm m v n a) {value : K} (hv : v n = some value)
    (hpos : 0 < value) (hle : value ≤ m) (hcfg : cfg.Learns) :
    Calm m v (n + 1) { a.observe cfg.baselineAlpha value true with touched := false } := by
  refine Calm.of_shown hv ?_ ?_ ha.samples
  · exact average_pos hcfg.alpha_nonneg hcfg.alpha_le_one hpos ha.pos
  · exact average_le hcfg.alpha_nonneg hcfg.alpha_le_one hle ha.le

omit [IsStrictOrderedRing K] in
/-- The entry an interval without a value leaves behind. -/
theorem Calm.of_gated {a : Avg K} (ha : Calm m v n a) (hs : Spells cfg floor m v)
    (hv : v n = none) : ∃ a', a.prune = some a' ∧ Calm m v (n + 1) a' := by
  obtain ⟨i, hi, hsome⟩ := ha.started
  have hsilent : ∀ {j}, j < n + 1 → n + 1 ≤ j + (a.misses + 1) → v j = none := fun {j} hj hle ↦ by
    rcases Nat.lt_succ_iff_lt_or_eq.mp hj with hj | rfl
    · exact ha.silent hj (by omega)
    · exact hv
  have hkept : ¬ pruneAfterMisses ≤ a.misses + 1 := fun hle ↦ by
    -- the key would have been silent for too long
    obtain ⟨j, hj, hlt, hj'⟩ := hs.kept (n := n - a.misses) (i := i) (by omega) hsome
    have hm := ha.misses
    rw [hsilent (j := j) (by omega) (by omega)] at hj'
    cases hj'
  refine ⟨{ a with misses := a.misses + 1 }, by simp [Avg.prune, ha.touched, hkept], ?_⟩
  exact ⟨by simpa [heard_succ_of_none hv] using ha.samples, ha.pos, ha.le, ha.touched,
    not_le.mp hkept, hsilent, ⟨i, by dsimp only; omega, hsome⟩⟩

/-- What a loud value is judged, and what it leaves of the entry. -/
theorem Shows.loud (h : Shows cfg floor cg v b) (hcfg : cfg.Learns)
    {a : Avg K} (hb : (b n).state cg = some a) (ha : Calm m v n a)
    (hw : cfg.baselineWarmup ≤ heard v n) {value : K} (hv : v n = some value)
    (hl : Loud cfg floor m value) :
    judgeVictim cfg (b n) floor cg value =
        (⟨true, value / a.value⟩, (b n).observe cg value false) ∧
      cfg.deviationFactor ≤ value / a.value ∧
      (b (n + 1)).state cg =
        some { a.observe cfg.baselineAlpha value false with touched := false } := by
  have hd : cfg.deviationFactor ≤ value / a.value := by
    rw [le_div_iff₀ ha.pos]
    exact (mul_le_mul_of_nonneg_left ha.le hcfg.deviation_pos.le).trans
      ((le_max_right _ _).trans hl)
  have hj : judgeVictim cfg (b n) floor cg value = _ :=
    judgeVictim_of_loud hb (by rwa [h.warmup, ha.samples]) ha.pos ((le_max_left _ _).trans hl) hd
  refine ⟨hj, hd, ?_⟩
  rw [h.shown hv, hj, Baseline.prune_observe_state, hb, h.alpha]

/-- In every interval, the entry is calm. -/
theorem Shows.calmBefore (h : Shows cfg floor cg v b) (hs : Spells cfg floor m v)
    (hcfg : cfg.Learns) (n : ℕ) : CalmBefore m v n ((b n).state cg) := by
  induction n with
  | zero =>
      rw [h.start]
      exact Nat.count_zero _
  | succ n ih =>
      cases hv : v n with
      | none =>
          rw [h.gated hv]
          change CalmBefore m v (n + 1) (((b n).state cg).bind Avg.prune)
          cases hb : (b n).state cg with
          | none =>
              rw [hb] at ih
              exact (heard_succ_of_none hv).trans ih
          | some a =>
              rw [hb] at ih
              obtain ⟨a', ha', hc⟩ := Calm.of_gated ih hs hv
              rw [Option.bind_some, ha']
              exact hc
      | some value =>
          rcases hs.calm_or_loud hv with hle | ⟨hw, hl⟩
          · rw [h.shown hv, judgeVictim_of_lt (hle.trans_lt hs.low), Baseline.prune_observe_state,
              h.alpha]
            cases hb : (b n).state cg with
            | none =>
                rw [hb] at ih
                exact Calm.of_shown hv (h.pos hv) hle (Eq.symm ih)
            | some a =>
                rw [hb] at ih
                exact Calm.of_calm ih hv (h.pos hv) hle hcfg
          · cases hb : (b n).state cg with
            | none =>
                -- a key that has been heard has an entry
                rw [hb] at ih
                have hh : heard v n = 0 := ih
                have := hcfg.warmup_pos
                omega
            | some a =>
                rw [hb] at ih
                rw [(h.loud hcfg hb ih hw hv hl).2.2]
                exact Calm.of_shown hv (Calm.pos ih) (Calm.le ih) (Calm.samples ih)

/-! ## An episode -/

/-- What has been learned of a key. -/
def Baseline.learned {K : Type} (b : Baseline K) (key : ℕ) : Option K := (b.state key).map Avg.value

/-- In a loud interval the key is judged a victim and its normal stays what it was. -/
theorem Shows.victim (h : Shows cfg floor cg v b) (hs : Spells cfg floor m v) (hcfg : cfg.Learns)
    {value : K} (hv : v n = some value) (hl : Loud cfg floor m value) :
    (∃ deg, cfg.deviationFactor ≤ deg ∧
      (judgeVictim cfg (b n) floor cg value).1 = ⟨true, deg⟩) ∧
    (b (n + 1)).learned cg = (b n).learned cg := by
  have hw : cfg.baselineWarmup ≤ heard v n := by
    rcases hs.calm_or_loud hv with hle | hw
    · exact absurd (hs.low.trans_le ((le_max_left _ _).trans hl)) (not_lt.mpr hle)
    · exact hw.1
  have hc := h.calmBefore hs hcfg n
  cases hb : (b n).state cg with
  | none =>
      rw [hb] at hc
      have hh : heard v n = 0 := hc
      have := hcfg.warmup_pos
      omega
  | some a =>
      rw [hb] at hc
      obtain ⟨hj, hd, hnext⟩ := h.loud hcfg hb hc hw hv hl
      refine ⟨⟨_, hd, congrArg Prod.fst hj⟩, ?_⟩
      rw [Baseline.learned, Baseline.learned, hnext, hb]
      rfl

/-- Over an episode the normal is the one it began with. -/
theorem Shows.learned_eq (h : Shows cfg floor cg v b) (hs : Spells cfg floor m v)
    (hcfg : cfg.Learns) {s : ℕ} (hl : ∀ k, s ≤ k → k < n → ∃ value, v k = some value ∧
      Loud cfg floor m value) (hn : s ≤ n) : (b n).learned cg = (b s).learned cg := by
  induction n, hn using Nat.le_induction with
  | base => rfl
  | succ n hn ih =>
      obtain ⟨value, hv, hloud⟩ := hl n hn (Nat.lt_succ_self n)
      rw [(h.victim hs hcfg hv hloud).2]
      exact ih fun k hk hkn ↦ hl k hk (hkn.trans (Nat.lt_succ_self n))

end Run

/-! ## The runs of the agent -/

section Scans

variable {ρ σ : Type} {cfg : Config K} {floor : K} {cg : ℕ} {d : ℕ → Dimension K ρ σ}
  {rs : ℕ → List ρ} {r : ℕ → ρ} {b : ℕ → Baseline K}

/-- The passes over one dimension in a run, in each of which the cgroup has the reading
`r n`. -/
structure Passes (cfg : Config K) (floor : K) (cg : ℕ) (d : ℕ → Dimension K ρ σ) (rs : ℕ → List ρ)
    (r : ℕ → ρ) (b : ℕ → Baseline K) : Prop where
  start : b 0 = .new cfg.baselineAlpha cfg.baselineWarmup
  step : ∀ n, b (n + 1) = ((d n).scan cfg (b n) (rs n)).baseline.prune
  nodup : ∀ n, ((rs n).map (d n).cgroup).Nodup
  mem : ∀ n, r n ∈ rs n
  cgroup : ∀ n, (d n).cgroup (r n) = cg
  floor_eq : ∀ n, (d n).floor = floor

/-- What the passes show to the key of the cgroup. -/
theorem Passes.shows (h : Passes cfg floor cg d rs r b)
    (hpos : ∀ {n value}, (d n).value (r n) = some value → 0 < value) :
    Shows cfg floor cg (fun n ↦ (d n).value (r n)) b := by
  have hjudged : ∀ {n value}, (d n).value (r n) = some value →
      (judgeVictim cfg (b n) floor cg value).2.Alike ((d n).scan cfg (b n) (rs n)).baseline cg :=
    fun {n value} hv ↦ by
      rw [← h.cgroup n, ← h.floor_eq n]
      exact Dimension.scan_judged (h.nodup n) (h.mem n) hv
  have hgated : ∀ {n}, (d n).value (r n) = none →
      (b n).Alike ((d n).scan cfg (b n) (rs n)).baseline cg := fun {n} hv ↦ by
    rw [← h.cgroup n]
    exact Dimension.scan_gated (h.nodup n) (h.mem n) hv
  have hparams : ∀ n, (b n).alpha = cfg.baselineAlpha ∧ (b n).warmup = cfg.baselineWarmup := by
    intro n
    induction n with
    | zero => exact h.start ▸ ⟨rfl, rfl⟩
    | succ n ih =>
        rw [h.step, Baseline.prune_alpha, Baseline.prune_warmup]
        cases hv : (d n).value (r n) with
        | none => exact ⟨(hgated hv).alpha.trans ih.1, (hgated hv).warmup.trans ih.2⟩
        | some value => exact ⟨(hjudged hv).alpha.trans ih.1, (hjudged hv).warmup.trans ih.2⟩
  exact {
    start := by rw [h.start]; rfl
    pos := hpos
    alpha := fun n ↦ (hparams n).1
    warmup := fun n ↦ (hparams n).2
    shown := fun {n value} hv ↦ by
      rw [h.step]
      exact congrArg (Option.bind · Avg.prune) (hjudged hv).state
    gated := fun {n} hv ↦ by
      rw [h.step]
      exact congrArg (Option.bind · Avg.prune) (hgated hv).state }

variable [IsStrictOrderedRing K] {m : K} {s n : ℕ}

/-- Through an episode the row of the cgroup is there, and its normal is kept. -/
theorem Passes.row_mem (h : Passes cfg floor cg d rs r b)
    (hpos : ∀ {n value}, (d n).value (r n) = some value → 0 < value)
    (hs : Spells cfg floor m fun n ↦ (d n).value (r n)) (hcfg : cfg.Learns) (hsn : s ≤ n)
    {value : ℕ → K} (hv : ∀ k, s ≤ k → k ≤ n → (d k).value (r k) = some (value k))
    (hl : ∀ k, s ≤ k → k ≤ n → Loud cfg floor m (value k)) :
    (∃ deg, cfg.deviationFactor ≤ deg ∧
      (d n).row (r n) (value n) deg ∈ ((d n).scan cfg (b n) (rs n)).out) ∧
    (b (n + 1)).learned cg = (b s).learned cg := by
  have hshows := h.shows hpos
  constructor
  · obtain ⟨⟨deg, hdeg, hj⟩, -⟩ := hshows.victim hs hcfg (hv n hsn le_rfl) (hl n hsn le_rfl)
    rw [← h.cgroup n, ← h.floor_eq n] at hj
    exact ⟨deg, hdeg, Dimension.row_mem_scan (h.nodup n) (h.mem n) (hv n hsn le_rfl) hj⟩
  · refine hshows.learned_eq hs hcfg (fun k hk hkn ↦ ?_) (hsn.trans n.le_succ)
    have hkn := Nat.lt_succ_iff.mp hkn
    exact ⟨value k, hv k hk hkn, hl k hk hkn⟩

end Scans

/-! ## Latency -/

section Latency

/-- One reading of a cgroup in every interval, with enough samples. -/
structure Measured {ρ : Type} (cgroup count : ρ → ℕ) (slots : ρ → List ℕ) (least : ℤ) (cg : ℕ)
    (rs : ℕ → List ρ) (r : ℕ → ρ) : Prop where
  mem : ∀ n, r n ∈ rs n
  cgroup : ∀ n, cgroup (r n) = cg
  enough : ∀ n, uint64 least ≤ count (r n)
  events : ∀ n, 0 < (slots (r n)).sum

/-- Latencies that are calm for `BaselineWarmup` intervals, and then calm or loud. -/
structure CalmOrLoud (cfg : Config K) (floor m : K) (p99 : ℕ → K) : Prop where
  low : m < floor
  calm : ∀ n : ℕ, n < cfg.baselineWarmup → p99 n ≤ m
  rest : ∀ n, p99 n ≤ m ∨ Loud cfg floor m (p99 n)

variable {cfg : Config K} {floor m : K}

theorem CalmOrLoud.spells {p99 : ℕ → K} (h : CalmOrLoud cfg floor m p99) :
    Spells cfg floor m fun n ↦ some (p99 n) where
  low := h.low
  calm_or_loud := by
    rintro n _ ⟨⟩
    rw [heard_eq_of_isSome fun _ ↦ rfl]
    by_cases hn : (n : ℤ) < cfg.baselineWarmup
    · exact .inl (h.calm n hn)
    · exact (h.rest n).imp_right fun hl ↦ ⟨not_lt.mp hn, hl⟩
  kept {n _} _ _ := ⟨n, le_rfl, Nat.lt_add_of_pos_right pruneAfterMisses_pos, rfl⟩

variable [IsStrictOrderedRing K]

/-- Through an episode of a dimension that judges every reading, the row of the cgroup is
there, and its normal is kept. -/
theorem Passes.calmOrLoud {ρ σ : Type} {cg s n : ℕ} {d : ℕ → Dimension K ρ σ} {rs : ℕ → List ρ}
    {r : ℕ → ρ} {b : ℕ → Baseline K} {p99 : ℕ → K} (h : Passes cfg floor cg d rs r b)
    (hv : ∀ n, (d n).value (r n) = some (p99 n)) (hpos : ∀ n, 0 < p99 n)
    (hp : CalmOrLoud cfg floor m p99) (hcfg : cfg.Learns) (hsn : s ≤ n)
    (hl : ∀ k, s ≤ k → k ≤ n → Loud cfg floor m (p99 k)) :
    (∃ deg, cfg.deviationFactor ≤ deg ∧
      (d n).row (r n) (p99 n) deg ∈ ((d n).scan cfg (b n) (rs n)).out) ∧
    (b (n + 1)).learned cg = (b s).learned cg := by
  have hspells : Spells cfg floor m fun n ↦ (d n).value (r n) := by
    rw [funext hv]
    exact hp.spells
  refine h.row_mem (fun {n value} hn ↦ ?_) hspells hcfg hsn (fun k _ _ ↦ hv k) hl
  obtain rfl := Option.some.inj ((hv n).symm.trans hn)
  exact hpos n

variable [FloorSemiring K] [Sqrt K]

/-- A sustained latency problem is not absorbed into the baseline.  After calm intervals,
in every interval of an episode the cgroup has its row among the victims of the pass,
before the cut to `TopN`, and its learned normal is the one the episode began with. -/
theorem sustainedLatency_victim (srt : SliceSort) (hcfg : cfg.Learns) (is : ℕ → ReportInterval) (cg : ℕ)
    {s n : ℕ} (hsn : s ≤ n) :
    (∀ r : ℕ → CgroupLatency,
      Measured CgroupLatency.cgroupID CgroupLatency.count CgroupLatency.slots cfg.minSamples cg
        (fun n ↦ (is n).runq) r →
      CalmOrLoud cfg (microseconds cfg.runqWarn) m (fun n ↦ percentile (r n).slots 99) →
      (∀ k, s ≤ k → k ≤ n →
        Loud cfg (microseconds cfg.runqWarn) m (percentile (r k).slots 99)) →
      (∃ deg, cfg.deviationFactor ≤ deg ∧
        Victim.of (is n).res.label (r n).cgroupID (r n).slots (r n).count
            (percentile (r n).slots 99) deg ∈
          ((cpuDimension cfg (is n).res.label).scan cfg
            ((newAgent cfg).after srt is n).baseline (is n).runq).out) ∧
      ((newAgent cfg).after srt is (n + 1)).baseline.learned cg =
        ((newAgent cfg).after srt is s).baseline.learned cg) ∧
    (∀ r : ℕ → CgroupBlkio,
      Measured CgroupBlkio.cgroupID CgroupBlkio.count CgroupBlkio.slots cfg.minOps cg
        (fun n ↦ (is n).blkio) r →
      CalmOrLoud cfg (microseconds cfg.ioWarn) m (fun n ↦ percentile (r n).slots 99) →
      (∀ k, s ≤ k → k ≤ n →
        Loud cfg (microseconds cfg.ioWarn) m (percentile (r k).slots 99)) →
      (∃ deg, cfg.deviationFactor ≤ deg ∧
        Victim.of (is n).res.label (r n).cgroupID (r n).slots (r n).count
            (percentile (r n).slots 99) deg ∈
          ((ioDimension cfg (is n).res.label).scan cfg
            ((newAgent cfg).after srt is n).ioBaseline (is n).blkio).out) ∧
      ((newAgent cfg).after srt is (n + 1)).ioBaseline.learned cg =
        ((newAgent cfg).after srt is s).ioBaseline.learned cg) := by
  have hafter : ∀ n, ((newAgent cfg).after srt is n).cfg = cfg := fun n ↦ Agent.after_cfg srt _ is n
  constructor
  · intro r hr hp hl
    have hpasses : Passes cfg (microseconds cfg.runqWarn) cg
        (fun n ↦ cpuDimension cfg (is n).res.label) (fun n ↦ (is n).runq) r
        fun n ↦ ((newAgent cfg).after srt is n).baseline :=
      ⟨rfl, fun n ↦ by rw [Agent.after, buildSnapshot_baseline, hafter],
        fun n ↦ (is n).runq_nodup, hr.mem, hr.cgroup, fun _ ↦ rfl⟩
    exact hpasses.calmOrLoud (fun n ↦ if_neg (not_lt.mpr (hr.enough n)))
      (fun n ↦ percentile_pos (hr.events n) 99) hp hcfg hsn hl
  · intro r hr hp hl
    have hpasses : Passes cfg (microseconds cfg.ioWarn) cg
        (fun n ↦ ioDimension cfg (is n).res.label) (fun n ↦ (is n).blkio) r
        fun n ↦ ((newAgent cfg).after srt is n).ioBaseline :=
      ⟨rfl, fun n ↦ by rw [Agent.after, buildSnapshot_ioBaseline, hafter],
        fun n ↦ (is n).blkio_nodup, hr.mem, hr.cgroup, fun _ ↦ rfl⟩
    exact hpasses.calmOrLoud (fun n ↦ if_neg (not_lt.mpr (hr.enough n)))
      (fun n ↦ percentile_pos (hr.events n) 99) hp hcfg hsn hl

end Latency

/-! ## Retransmits -/

section Network

variable [IsStrictOrderedRing K] {cfg : Config K}

/-- The rate of an interval with at least `RetransWarn` retransmits; the others do not
reach the baseline. -/
def reachingRate (cfg : Config K) (r : CgroupNet) : Option K :=
  if r.retransmits < uint64 cfg.retransWarn then none else some (r.retransmits / r.txSegs)

/-- An `int` that is positive is not changed by the conversion. -/
theorem uint64_pos {z : ℤ} (h : 0 < z) (h' : z < 2 ^ 63) : 0 < uint64 z := by
  unfold uint64
  omega

omit [LinearOrder K] [IsStrictOrderedRing K] in
theorem netDimension_value (label : ℕ → String) {r : CgroupNet}
    (h : uint64 cfg.minSegs ≤ r.txSegs) : (netDimension cfg label).value r = reachingRate cfg r :=
  if_neg (not_lt.mpr h)

theorem reachingRate_pos (hR : 0 < uint64 cfg.retransWarn) {r : CgroupNet} (hseg : 0 < r.txSegs)
    {value : K} (h : reachingRate cfg r = some value) : 0 < value := by
  unfold reachingRate at h
  split_ifs at h with hr
  obtain rfl := Option.some.inj h
  exact div_pos (Nat.cast_pos.mpr (by omega)) (Nat.cast_pos.mpr hseg)

variable [FloorSemiring K] [Sqrt K]

end Network

/-! ## A calm start, and a creep before the episode -/

/-- A hundred events of one cgroup in one slot of each histogram. -/
def latencyInterval (slot : ℕ) : ReportInterval where
  cpu := []
  runq := [⟨1, List.replicate slot 0 ++ [100], 100⟩]
  blkio := [⟨1, List.replicate slot 0 ++ [100], 100, 0⟩]
  network := []
  timeline := []
  res := .steady (fun _ ↦ none) fun _ ↦ none
  runq_nodup := List.nodup_singleton _
  blkio_nodup := List.nodup_singleton _

/-- Three calm intervals, and then a stall. -/
def stallSlot (n : ℕ) : ℕ := if n < 3 then 0 else 14

theorem stall_percentile : (percentile (List.replicate 14 0 ++ [100]) 99 : ℚ) = 24576 := by
  decide +kernel

theorem stallSlot_loud {floor : ℚ} (hle : floor ≤ 24576) {n : ℕ} (hn : 3 ≤ n) :
    Loud (defaultConfig ℚ) floor (3 / 2) (percentile (List.replicate (stallSlot n) 0 ++ [100]) 99) := by
  rw [stallSlot, if_neg (not_lt.mpr hn), stall_percentile]
  have hdev : (defaultConfig ℚ).deviationFactor * (3 / 2) ≤ 24576 := by norm_num [defaultConfig]
  exact max_le hle hdev

theorem stallSlot_calmOrLoud {floor : ℚ} (hlow : 3 / 2 < floor) (hle : floor ≤ 24576) :
    CalmOrLoud (defaultConfig ℚ) floor (3 / 2) fun n ↦
      percentile (List.replicate (stallSlot n) 0 ++ [100]) 99 where
  low := hlow
  calm n hn := by
    have hn : n < 3 := by simpa [defaultConfig] using hn
    simp only [stallSlot, if_pos hn]
    decide +kernel
  rest n := by
    by_cases hn : n < 3
    · simp only [stallSlot, if_pos hn]
      exact .inl (by decide +kernel)
    · exact .inr (stallSlot_loud hle (not_lt.mp hn))

theorem latencyInterval_measured (slot : ℕ → ℕ) :
    Measured CgroupLatency.cgroupID CgroupLatency.count CgroupLatency.slots
        (defaultConfig ℚ).minSamples 1 (fun n ↦ (latencyInterval (slot n)).runq)
        (fun n ↦ ⟨1, List.replicate (slot n) 0 ++ [100], 100⟩) ∧
      Measured CgroupBlkio.cgroupID CgroupBlkio.count CgroupBlkio.slots
        (defaultConfig ℚ).minOps 1 (fun n ↦ (latencyInterval (slot n)).blkio)
        (fun n ↦ ⟨1, List.replicate (slot n) 0 ++ [100], 100, 0⟩) :=
  ⟨⟨fun _ ↦ .head _, fun _ ↦ rfl,
      fun _ ↦ (by decide : uint64 (defaultConfig ℚ).minSamples ≤ 100), fun _ ↦ by simp⟩,
    ⟨fun _ ↦ .head _, fun _ ↦ rfl,
      fun _ ↦ (by decide : uint64 (defaultConfig ℚ).minOps ≤ 100), fun _ ↦ by simp⟩⟩

theorem defaultConfig_learns : (defaultConfig ℚ).Learns where
  alpha_nonneg := by norm_num [defaultConfig]
  alpha_le_one := by norm_num [defaultConfig]
  warmup_pos := by norm_num [defaultConfig]
  deviation_pos := by norm_num [defaultConfig]

/-- The stall is judged in its hundredth interval as in its first. -/
theorem stalled_victim :
    (∃ deg : ℚ, 3 ≤ deg ∧
      Victim.of (fun cg ↦ "system(cg:" ++ toString cg ++ ")") 1 (List.replicate 14 0 ++ [100]) 100
          24576 deg ∈
        ((cpuDimension (defaultConfig ℚ) (latencyInterval 14).res.label).scan (defaultConfig ℚ)
          ((newAgent (defaultConfig ℚ)).after .insertion (fun n ↦ latencyInterval (stallSlot n))
            102).baseline (latencyInterval 14).runq).out) ∧
    (∃ deg : ℚ, 3 ≤ deg ∧
      Victim.of (fun cg ↦ "system(cg:" ++ toString cg ++ ")") 1 (List.replicate 14 0 ++ [100]) 100
          24576 deg ∈
        ((ioDimension (defaultConfig ℚ) (latencyInterval 14).res.label).scan (defaultConfig ℚ)
          ((newAgent (defaultConfig ℚ)).after .insertion (fun n ↦ latencyInterval (stallSlot n))
            102).ioBaseline (latencyInterval 14).blkio).out) := by
  obtain ⟨hcpu, hio⟩ := sustainedLatency_victim (m := 3 / 2) .insertion defaultConfig_learns
    (fun n ↦ latencyInterval (stallSlot n)) 1 (s := 3) (n := 102) (by decide)
  have hrunq : ((microseconds (defaultConfig ℚ).runqWarn : ℤ) : ℚ) = 5000 := rfl
  have hioWarn : ((microseconds (defaultConfig ℚ).ioWarn : ℤ) : ℚ) = 20000 := rfl
  obtain ⟨⟨deg, hdeg, hmem⟩, -⟩ := hcpu _ (latencyInterval_measured stallSlot).1
    (stallSlot_calmOrLoud (by norm_num [hrunq]) (by norm_num [hrunq]))
    fun k hk _ ↦ stallSlot_loud (by norm_num [hrunq]) hk
  obtain ⟨⟨deg', hdeg', hmem'⟩, -⟩ := hio _ (latencyInterval_measured stallSlot).2
    (stallSlot_calmOrLoud (by norm_num [hioWarn]) (by norm_num [hioWarn]))
    fun k hk _ ↦ stallSlot_loud (by norm_num [hioWarn]) hk
  exact ⟨⟨deg, hdeg, stall_percentile ▸ hmem⟩, ⟨deg', hdeg', stall_percentile ▸ hmem'⟩⟩

/-- Three calm intervals, eight with a latency below the floor, and then an episode. -/
def creepSlot (n : ℕ) : ℕ := if n < 3 then 0 else if n < 11 then 11 else 12

/-- The creep is learned, and the episode is not unusual any more. -/
theorem creptLatency_not_victim :
    ¬ ∀ (is : ℕ → ReportInterval) (r : ℕ → CgroupLatency) (m : ℚ) (N s n : ℕ),
      Measured CgroupLatency.cgroupID CgroupLatency.count CgroupLatency.slots
        (defaultConfig ℚ).minSamples 1 (fun n ↦ (is n).runq) r →
      m < (microseconds (defaultConfig ℚ).runqWarn : ℚ) →
      (defaultConfig ℚ).baselineWarmup ≤ N → (∀ k < N, percentile (r k).slots 99 ≤ m) →
      (∀ k ≥ s, Loud (defaultConfig ℚ) (microseconds (defaultConfig ℚ).runqWarn) m
        (percentile (r k).slots 99)) → s ≤ n →
      ((cpuDimension (defaultConfig ℚ) (is n).res.label).scan (defaultConfig ℚ)
        ((newAgent (defaultConfig ℚ)).after .insertion is n).baseline (is n).runq).out ≠ [] := by
  intro h
  refine h (fun n ↦ latencyInterval (creepSlot n)) _ (3 / 2) 3 11 11
    (latencyInterval_measured creepSlot).1 (by decide +kernel) (by decide) ?_ ?_ le_rfl
    (List.eq_nil_of_length_eq_zero (by decide +kernel))
  · intro k hk
    simp only [creepSlot, if_pos hk]
    decide +kernel
  · intro k hk
    simp only [creepSlot, if_neg (not_lt.mpr ((by decide : 3 ≤ 11).trans hk)),
      if_neg (not_lt.mpr hk)]
    exact max_le (by decide +kernel) (by decide +kernel)

/-- Some retransmits of one cgroup. -/
def networkInterval (retransmits segs : ℕ) : ReportInterval where
  cpu := []
  runq := []
  blkio := []
  network := [⟨1, retransmits, 0, segs⟩]
  timeline := []
  res := .steady (fun _ ↦ none) fun _ ↦ none
  network_nodup := List.nodup_singleton _

/-- Three intervals with as many segments as given and `calm` retransmits, and then every
tenth segment is retransmitted. -/
def lossyInterval (calm segs n : ℕ) : ReportInterval :=
  if n < 3 then networkInterval calm segs else networkInterval 100 1000

/-- Its reading. -/
def lossyNet (calm segs n : ℕ) : CgroupNet :=
  if n < 3 then ⟨1, calm, 0, segs⟩ else ⟨1, 100, 0, 1000⟩

theorem lossyNet_mem (calm segs n : ℕ) : lossyNet calm segs n ∈ (lossyInterval calm segs n).network := by
  unfold lossyNet lossyInterval
  split_ifs <;> exact .head _

theorem lossyNet_cgroupID (calm segs n : ℕ) : (lossyNet calm segs n).cgroupID = 1 := by
  unfold lossyNet
  split_ifs <;> rfl

theorem lossyNet_active {calm segs : ℕ} (h : 50 ≤ segs) (n : ℕ) :
    uint64 (defaultConfig ℚ).minSegs ≤ (lossyNet calm segs n).txSegs := by
  unfold lossyNet
  split_ifs
  · exact h
  · exact (by decide : 50 ≤ 1000)

theorem tenth_loud :
    Loud (defaultConfig ℚ) (defaultConfig ℚ).retransRateWarn (1 / 1000) (1 / 10) := by
  have hfloor : (defaultConfig ℚ).retransRateWarn ≤ 1 / 10 := by norm_num [defaultConfig]
  have hdev : (defaultConfig ℚ).deviationFactor * (1 / 1000) ≤ 1 / 10 := by norm_num [defaultConfig]
  exact max_le hfloor hdev

theorem lossyNet_loud {calm segs k : ℕ} (h : 3 ≤ k) :
    uint64 (defaultConfig ℚ).retransWarn ≤ (lossyNet calm segs k).retransmits ∧
      Loud (defaultConfig ℚ) (defaultConfig ℚ).retransRateWarn (1 / 1000)
        ((lossyNet calm segs k).retransmits / (lossyNet calm segs k).txSegs) := by
  rw [lossyNet, if_neg (not_lt.mpr h)]
  have hrate : ((100 : ℕ) / (1000 : ℕ) : ℚ) = 1 / 10 := by norm_num
  refine ⟨by decide, ?_⟩
  rw [hrate]
  exact tenth_loud

theorem lossyNet_spells : Spells (defaultConfig ℚ) (defaultConfig ℚ).retransRateWarn (1 / 1000)
    fun n ↦ reachingRate (defaultConfig ℚ) (lossyNet 10 10000 n) := by
  have hrate : (fun n ↦ reachingRate (defaultConfig ℚ) (lossyNet 10 10000 n)) = fun n ↦
      some (if n < 3 then 1 / 1000 else 1 / 10) := by
    funext n
    unfold lossyNet
    split_ifs <;> decide +kernel
  rw [hrate]
  have hlow : (1 / 1000 : ℚ) < (defaultConfig ℚ).retransRateWarn := by norm_num [defaultConfig]
  refine CalmOrLoud.spells ⟨hlow, fun n hn ↦ ?_, fun n ↦ ?_⟩
  · rw [if_pos (by simpa [defaultConfig] using hn)]
  · split_ifs
    · exact .inl le_rfl
    · exact .inr tenth_loud
