import NodeSentinel.Agent.Rows

/-!
# The harm signal

`signalFromRatio` turns the worst degradation of a dimension into a severity: a ramp from 0 at 1
to 1 at 5, and a moderate default of 1/2 where no victim has a baseline to be compared with.  The
ramp passes 1/2 at 3, so where the first warm victim is degraded by less the severity drops below
the default.
-/

variable {K : Type} [Field K] [LinearOrder K]

/-! ## The signal of a ratio -/

section Ratio

variable [IsStrictOrderedRing K] {w w' : K}

/-- On the ramp, 1/2 is reached at 3. -/
theorem half_le_signalFromRatio (h : 1 < w) : 1 / 2 ≤ signalFromRatio w ↔ 3 ≤ w := by
  rw [signalFromRatio, if_pos h, clamp, max_eq_right (by linarith), le_min_iff]
  constructor
  · rintro ⟨-, hle⟩
    linarith
  · intro hle
    exact ⟨by norm_num, by linarith⟩

/-- A higher ratio has a lower signal only where it leaves the default for the first part of the
ramp. -/
theorem signalFromRatio_le_iff (h : w ≤ w') :
    signalFromRatio w ≤ signalFromRatio w' ↔ ¬ (w ≤ 1 ∧ 1 < w' ∧ w' < 3) := by
  by_cases hw : 1 < w
  · have hw' : 1 < w' := hw.trans_le h
    refine iff_of_true ?_ fun hnot ↦ hnot.1.not_gt hw
    rw [signalFromRatio, signalFromRatio, if_pos hw, if_pos hw']
    exact clamp_mono (by linarith)
  · have hdefault : signalFromRatio w = 1 / 2 := if_neg hw
    by_cases hw' : 1 < w'
    · rw [hdefault, half_le_signalFromRatio hw', ← not_lt]
      refine not_congr ⟨fun hlt ↦ ⟨not_lt.mp hw, hw', hlt⟩, fun hand ↦ hand.2.2⟩
    · refine iff_of_true ?_ fun hnot ↦ hw' hnot.2.1
      rw [hdefault, signalFromRatio, if_neg hw']

end Ratio

/-! ## The worst degradation -/

namespace Dimension

variable {ρ σ : Type} (d : Dimension K ρ σ) (cfg : Config K)

/-- The degradations of the readings that are judged victims. -/
def degradations (b : Baseline K) (rs : List ρ) : List K :=
  rs.filterMap fun r ↦ (d.judged cfg b r).map Prod.snd

/-- The harm signal of an interval. -/
def harmSignal (b : Baseline K) (rs : List ρ) : K := signalFromRatio (d.scan cfg b rs).worst

variable {d cfg} {b : Baseline K} {s : Scan K σ} {r : ρ} {rs : List ρ}

theorem step_worst (s : Scan K σ) (r : ρ) : (d.step cfg s r).worst =
    ((d.judged cfg s.baseline r).map Prod.snd).elim s.worst (max s.worst) := by
  unfold step judged
  cases d.value r with
  | none => rfl
  | some value =>
      dsimp only [Option.bind_some]
      split
      · dsimp only [Option.map_some, Option.elim_some]
        split
        · next hgt => exact (max_eq_right hgt.le).symm
        · next hle => exact (max_eq_left (not_lt.mp hle)).symm
      · rfl

/-- The loop keeps the largest degradation. -/
theorem foldl_worst (hnd : (rs.map d.cgroup).Nodup)
    (h : ∀ r ∈ rs, b.Alike s.baseline (d.cgroup r)) :
    (rs.foldl (d.step cfg) s).worst = (d.degradations cfg b rs).foldl max s.worst := by
  induction rs generalizing s with
  | nil => rfl
  | cons r rs ih =>
      obtain ⟨hr, hnd⟩ := List.nodup_cons.mp hnd
      have hj : d.judged cfg s.baseline r = d.judged cfg b r := judged_congr (h r (.head _))
      have htail := ih (s := d.step cfg s r) hnd fun r' hr' ↦
        step_alike (h r' (.tail _ hr')) fun he ↦ hr (he ▸ List.mem_map_of_mem hr')
      rw [List.foldl_cons, htail, step_worst, hj, degradations, degradations]
      cases hp : d.judged cfg b r <;> simp [hp]

theorem worst_le_iff (hnd : (rs.map d.cgroup).Nodup) {c : K} :
    (d.scan cfg b rs).worst ≤ c ↔ 0 ≤ c ∧ ∀ x ∈ d.degradations cfg b rs, x ≤ c := by
  rw [scan, foldl_worst hnd fun _ _ ↦ .refl b _, foldl_max_le_iff]

theorem worst_lt_iff (hnd : (rs.map d.cgroup).Nodup) {c : K} :
    (d.scan cfg b rs).worst < c ↔ 0 < c ∧ ∀ x ∈ d.degradations cfg b rs, x < c := by
  rw [scan, foldl_worst hnd fun _ _ ↦ .refl b _, foldl_max_lt_iff]

/-- A victim is cold, and has no ratio, or it is unusual for itself. -/
theorem eq_zero_or_le_of_mem {x : K} (h : x ∈ d.degradations cfg b rs) :
    x = 0 ∨ cfg.deviationFactor ≤ x := by
  obtain ⟨r, -, hr⟩ := List.mem_filterMap.mp h
  obtain ⟨⟨value, deg⟩, hj, rfl⟩ := Option.map_eq_some_iff.mp hr
  unfold judged at hj
  obtain ⟨value', -, hj⟩ := Option.bind_eq_some_iff.mp hj
  dsimp only at hj
  split at hj
  · next hv =>
      obtain ⟨-, rfl⟩ := Prod.mk.inj (Option.some.inj hj)
      simp only [judgeVictim] at hv ⊢
      cases hdev : b.deviation (d.cgroup r) value' with
      | none => exact .inl rfl
      | some ratio =>
          simp only [hdev] at hv
          split at hv
          · cases hv
          · next hge => exact .inr (not_lt.mp hge)
  · cases hj

end Dimension

/-- The signal of the worst victim of each of the three passes. -/
theorem signal_victims [FloorSemiring K] (srt : SliceSort) (cfg : Config K) (label : ℕ → String)
    (b : Baseline K) (runq : List CgroupLatency) (blkio : List CgroupBlkio) (network : List CgroupNet) :
    signalFromRatio (cpuVictims srt cfg label b runq).2.1 =
        (cpuDimension cfg label).harmSignal cfg b runq ∧
      signalFromRatio (ioVictims srt cfg label b blkio).2.1 =
        (ioDimension cfg label).harmSignal cfg b blkio ∧
      signalFromRatio (netVictims srt cfg label b network).2.1 =
        (netDimension cfg label).harmSignal cfg b network := ⟨rfl, rfl, rfl⟩

/-! ## More harm -/

/-- There is one victim more, or one is degraded further. -/
inductive Worsens : List K → List K → Prop
  | add {ds ds' : List K} {x : K} (h : ds'.Perm (x :: ds)) : Worsens ds ds'
  | raise {ds ds' rest : List K} {x x' : K} (h : ds.Perm (x :: rest)) (h' : ds'.Perm (x' :: rest))
      (hle : x ≤ x') : Worsens ds ds'

omit [Field K] in
/-- No degradation is above the worst one afterwards. -/
theorem Worsens.le {ds ds' : List K} {c : K} (h : Worsens ds ds') (hle : ∀ x ∈ ds', x ≤ c) :
    ∀ x ∈ ds, x ≤ c := by
  cases h with
  | add h =>
      intro x hx
      exact hle x (h.mem_iff.mpr (.tail _ hx))
  | @raise _ y y' h h' hy =>
      intro x hx
      rcases List.mem_cons.mp (h.mem_iff.mp hx) with rfl | hx
      · exact hy.trans (hle y' (h'.mem_iff.mpr (.head _)))
      · exact hle x (h'.mem_iff.mpr (.tail _ hx))

namespace Dimension

variable {ρ σ : Type} {d : Dimension K ρ σ} {cfg : Config K} {b b' : Baseline K} {rs rs' : List ρ}

theorem worst_le_one_iff [IsStrictOrderedRing K] (hfactor : 1 < cfg.deviationFactor)
    (hnd : (rs.map d.cgroup).Nodup) : (d.scan cfg b rs).worst ≤ 1 ↔
      ∀ x ∈ d.degradations cfg b rs, x = 0 := by
  rw [worst_le_iff hnd, and_iff_right zero_le_one]
  refine forall₂_congr fun x hx ↦ ⟨fun hle ↦ ?_, fun h0 ↦ h0.trans_le zero_le_one⟩
  exact (eq_zero_or_le_of_mem hx).resolve_right fun hge ↦ (hfactor.trans_le hge).not_ge hle

/-- More harm never lowers the signal, except where no victim had a baseline to be compared with,
one has now, and none is degraded by a factor of 3. -/
theorem harmSignal_le_iff [IsStrictOrderedRing K] (d : Dimension K ρ σ)
    (hfactor : 1 < cfg.deviationFactor) (hnd : (rs.map d.cgroup).Nodup)
    (hnd' : (rs'.map d.cgroup).Nodup)
    (h : Worsens (d.degradations cfg b rs) (d.degradations cfg b' rs')) :
    (d.harmSignal cfg b rs ≤ d.harmSignal cfg b' rs' ↔
      ¬ ((∀ x ∈ d.degradations cfg b rs, x = 0) ∧ (∃ x ∈ d.degradations cfg b' rs', x ≠ 0) ∧
        ∀ x ∈ d.degradations cfg b' rs', x < 3)) ∧
    (3 ≤ cfg.deviationFactor → d.harmSignal cfg b rs ≤ d.harmSignal cfg b' rs') := by
  have hworst : (d.scan cfg b rs).worst ≤ (d.scan cfg b' rs').worst := by
    obtain ⟨hnonneg, hle⟩ := (worst_le_iff hnd').mp le_rfl
    exact (worst_le_iff hnd).mpr ⟨hnonneg, h.le hle⟩
  have hiff : d.harmSignal cfg b rs ≤ d.harmSignal cfg b' rs' ↔
      ¬ ((∀ x ∈ d.degradations cfg b rs, x = 0) ∧ (∃ x ∈ d.degradations cfg b' rs', x ≠ 0) ∧
        ∀ x ∈ d.degradations cfg b' rs', x < 3) := by
    rw [harmSignal, harmSignal, signalFromRatio_le_iff hworst, worst_le_one_iff hfactor hnd,
      ← not_le, worst_le_one_iff hfactor hnd', worst_lt_iff hnd', and_iff_right three_pos]
    push Not
    rfl
  refine ⟨hiff, fun hthree ↦ hiff.mpr ?_⟩
  rintro ⟨-, ⟨x, hx, hne⟩, hlt⟩
  exact ((hthree.trans ((eq_zero_or_le_of_mem hx).resolve_left hne)).not_gt (hlt x hx))

end Dimension

/-! ## A second victim -/

/-- The default configuration with another factor, and a warm-up of one reading. -/
def factorConfig (factor : ℚ) : Config ℚ :=
  { defaultConfig ℚ with deviationFactor := factor, baselineWarmup := 1 }

/-- A cgroup that sent 1000 segments and had some retransmitted. -/
def lossy (cg retransmits : ℕ) : CgroupNet := ⟨cg, retransmits, 0, 1000⟩

/-- The pass over the network with this configuration. -/
def lossyDimension (factor : ℚ) : Dimension ℚ CgroupNet (NetVictim ℚ) :=
  netDimension (factorConfig factor) fun _ ↦ ""

/-- What an interval has learned in which cgroup 2 had a fiftieth of its segments retransmitted. -/
def lossyBaseline (factor : ℚ) : Baseline ℚ :=
  ((lossyDimension factor).scan (factorConfig factor)
    (.new (factorConfig factor).baselineAlpha (factorConfig factor).baselineWarmup)
    [lossy 2 20]).baseline.prune

theorem degradations_lossy :
    (lossyDimension 3).degradations (factorConfig 3) (lossyBaseline 3) [lossy 1 20] = [0] ∧
    (lossyDimension 3).degradations (factorConfig 3) (lossyBaseline 3) [lossy 1 20, lossy 2 80] =
      [0, 4] ∧
    (lossyDimension (6 / 5)).degradations (factorConfig (6 / 5)) (lossyBaseline (6 / 5))
      [lossy 1 20] = [0] ∧
    (lossyDimension (6 / 5)).degradations (factorConfig (6 / 5)) (lossyBaseline (6 / 5))
      [lossy 1 20, lossy 2 30] = [0, 3 / 2] := by
  decide +kernel

/-- With a factor of 3, a second victim raises the signal. -/
theorem harmSignal_le_lossy :
    (lossyDimension 3).harmSignal (factorConfig 3) (lossyBaseline 3) [lossy 1 20] ≤
      (lossyDimension 3).harmSignal (factorConfig 3) (lossyBaseline 3) [lossy 1 20, lossy 2 80] := by
  refine ((lossyDimension 3).harmSignal_le_iff (by norm_num [factorConfig]) (by decide) (by decide)
    ?_).2 le_rfl
  rw [degradations_lossy.1, degradations_lossy.2.1]
  exact .add (List.Perm.swap _ _ _)

/-- With a factor of 6/5, one that is degraded to 3/2 of its normal lowers it from 1/2 to 1/8. -/
theorem not_harmSignal_le_lossy : (1 : ℚ) < (factorConfig (6 / 5)).deviationFactor ∧
    Worsens ((lossyDimension (6 / 5)).degradations (factorConfig (6 / 5)) (lossyBaseline (6 / 5))
        [lossy 1 20])
      ((lossyDimension (6 / 5)).degradations (factorConfig (6 / 5)) (lossyBaseline (6 / 5))
        [lossy 1 20, lossy 2 30]) ∧
    ¬ (lossyDimension (6 / 5)).harmSignal (factorConfig (6 / 5)) (lossyBaseline (6 / 5))
        [lossy 1 20] ≤
      (lossyDimension (6 / 5)).harmSignal (factorConfig (6 / 5)) (lossyBaseline (6 / 5))
        [lossy 1 20, lossy 2 30] := by
  refine ⟨by norm_num [factorConfig], ?_, by decide +kernel⟩
  rw [degradations_lossy.2.2.1, degradations_lossy.2.2.2]
  exact .add (List.Perm.swap _ _ _)
