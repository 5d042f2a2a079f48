import NodeSentinel.Agent.Rows

/-!
# Throttle pressure over a run

The readings of `cpu.stat` an interval keeps are replaced by the next interval with victims
of CPU contention, and by no other.  After a gap an offender is compared with a reading
from before the gap, so throttling of long ago counts as throttling of this interval.
-/

variable {K : Type} [Field K] [LinearOrder K]

section Run

variable [FloorSemiring K] [Sqrt K] (srt : SliceSort) (a : Agent K) (is : ℕ → ReportInterval)

/-- The table of CPU offenders of interval `k`. -/
def tableAt (k : ℕ) : Table K CgroupCPUTime (Offender K) :=
  cpuTable srt (a.after srt is k) (is k)

/-- ReportInterval `k` scores CPU offenders. -/
def Contended (k : ℕ) : Prop := (tableAt srt a is k).harmed = true ∧ a.cfg.topN ≠ 0

instance (k : ℕ) : Decidable (Contended srt a is k) := inferInstanceAs (Decidable (_ ∧ _))

/-- The `cpu.stat` of a cgroup that interval `k` reads: of a resolved cgroup in the table. -/
def statRead (k cg : ℕ) : Option CPUStat :=
  if cg ∈ ((tableAt srt a is k).listed a.cfg.topN).map CgroupCPUTime.cgroupID then
    (cpuScores (a.after srt is k) (is k)).reading cg
  else none

/-- What the interval before `k` reads. -/
def statBefore : ℕ → ℕ → Option CPUStat
  | 0, _ => none
  | k + 1, cg => statRead srt a is k cg

/-- The snapshot of interval `k` is the one that compares every `cpu.stat` with the reading of
the interval before. -/
def ThrottleCurrent (k : ℕ) : Prop :=
  (buildSnapshot srt (a.after srt is k) (is k)).1 =
    (buildSnapshot srt { a.after srt is k with prevThrottle := statBefore srt a is k } (is k)).1

/-- ReportInterval `k` reads the `cpu.stat` of a cgroup that was last read before the interval
before, by an interval after which there was no contention, and it was throttled since. -/
def Stale (k : ℕ) : Prop :=
  ∃ j, j + 1 < k ∧ (∀ i, j < i → i < k → ¬ Contended srt a is i) ∧
    ∃ cg prev now, statRead srt a is j cg = some prev ∧ statRead srt a is k cg = some now ∧
      prev.nrPeriods < now.nrPeriods ∧ prev.nrThrottled < now.nrThrottled

variable {srt a is} {k : ℕ}

/-! ## Which readings are kept -/

theorem statRead_of_not_contended (h : ¬ Contended srt a is k) (cg : ℕ) :
    statRead srt a is k cg = none := by
  refine if_neg fun hcg ↦ h ?_
  obtain ⟨r, hr, -⟩ := List.mem_map.mp hcg
  constructor
  · by_contra hh
    simp [Table.listed, hh] at hr
  · rintro hz
    simp [Table.listed, hz] at hr

theorem contended_of_statRead {cg : ℕ} {stat : CPUStat} (h : statRead srt a is k cg = some stat) :
    Contended srt a is k := by
  by_contra hc
  rw [statRead_of_not_contended hc] at h
  cases h

/-- One interval replaces the readings, or keeps them. -/
theorem after_prevThrottle_succ (cg : ℕ) : (a.after srt is (k + 1)).prevThrottle cg =
    if Contended srt a is k then statRead srt a is k cg else (a.after srt is k).prevThrottle cg := by
  refine (buildSnapshot_prevThrottle cg).trans ?_
  rw [Agent.after_cfg]
  by_cases h : Contended srt a is k
  · have hc : (!(tableAt srt a is k).harmed || a.cfg.topN == 0) = false := by simp [h.1, h.2]
    rw [if_pos h, if_neg (by rw [← tableAt, hc]; decide)]
    rfl
  · have hc : (!(tableAt srt a is k).harmed || a.cfg.topN == 0) = true := by
      rw [Contended, not_and_or, not_not] at h
      rcases h with h | h <;> simp [h]
    rw [if_neg h, if_pos (by rw [← tableAt, hc])]

/-- The readings kept at interval `k` are those of the last contended interval. -/
theorem prevThrottle_of_last {j : ℕ} (hc : Contended srt a is j) (hjk : j < k)
    (hgap : ∀ i, j < i → i < k → ¬ Contended srt a is i) (cg : ℕ) :
    (a.after srt is k).prevThrottle cg = statRead srt a is j cg := by
  induction k, hjk using Nat.le_induction with
  | base => rw [after_prevThrottle_succ, if_pos hc]
  | succ k hk ih =>
      rw [after_prevThrottle_succ, if_neg (hgap k hk k.lt_succ_self)]
      exact ih fun i hji hik ↦ hgap i hji (hik.trans k.lt_succ_self)

/-- Before the first contended interval there are none. -/
theorem prevThrottle_of_none (ha : ∀ cg, a.prevThrottle cg = none)
    (hnone : ∀ i < k, ¬ Contended srt a is i) (cg : ℕ) :
    (a.after srt is k).prevThrottle cg = none := by
  induction k with
  | zero => exact ha cg
  | succ k ih =>
      rw [after_prevThrottle_succ, if_neg (hnone k k.lt_succ_self)]
      exact ih fun i hik ↦ hnone i (hik.trans k.lt_succ_self)

variable (srt a is k) in
theorem last_contended : (∀ i < k, ¬ Contended srt a is i) ∨
    ∃ j < k, Contended srt a is j ∧ ∀ i, j < i → i < k → ¬ Contended srt a is i := by
  induction k with
  | zero => exact .inl fun i hi ↦ absurd hi i.not_lt_zero
  | succ k ih =>
      by_cases hk : Contended srt a is k
      · exact .inr ⟨k, k.lt_succ_self, hk, fun i hki hik ↦ absurd hki (by omega)⟩
      · rcases ih with hnone | ⟨j, hjk, hj, hgap⟩
        · refine .inl fun i hi ↦ ?_
          rcases Nat.lt_succ_iff_lt_or_eq.mp hi with hi | rfl
          · exact hnone i hi
          · exact hk
        · refine .inr ⟨j, hjk.trans k.lt_succ_self, hj, fun i hji hi ↦ ?_⟩
          rcases Nat.lt_succ_iff_lt_or_eq.mp hi with hi | rfl
          · exact hgap i hji hi
          · exact hk

/-! ## When they are those of the interval before -/

omit [LinearOrder K] [FloorSemiring K] [Sqrt K] in
theorem CPUStat.throttledFraction_sub_eq_zero_iff [CharZero K] {now prev : CPUStat} :
    ((now.sub prev).throttledFraction : K) = 0 ↔
      ¬ (prev.nrPeriods < now.nrPeriods ∧ prev.nrThrottled < now.nrThrottled) := by
  unfold throttledFraction sub monoSub
  dsimp only
  split_ifs <;> simp <;> omega

theorem mem_listed_of_statRead {cg : ℕ} {stat : CPUStat} (h : statRead srt a is k cg = some stat) :
    ∃ r ∈ (tableAt srt a is k).listed a.cfg.topN, r.cgroupID = cg ∧
      ((is k).res.pod cg).isSome ∧ (is k).res.cpuStat cg = some stat := by
  unfold statRead at h
  split_ifs at h with hcg
  obtain ⟨r, hr, hrcg⟩ := List.mem_map.mp hcg
  obtain ⟨pod, hpod, hstat⟩ := Option.bind_eq_some_iff.mp h
  exact ⟨r, hr, hrcg, Option.isSome_iff_exists.mpr ⟨pod, hpod⟩, hstat⟩

theorem statRead_of_mem_listed {r : CgroupCPUTime}
    (hr : r ∈ (tableAt srt a is k).listed a.cfg.topN) (hpod : ((is k).res.pod r.cgroupID).isSome) :
    statRead srt a is k r.cgroupID = (is k).res.cpuStat r.cgroupID := by
  obtain ⟨pod, hpod⟩ := Option.isSome_iff_exists.mp hpod
  rw [statRead, if_pos (List.mem_map_of_mem hr), CPUScores.reading]
  exact (congrArg (Option.bind · _) hpod).trans rfl

/-- The snapshot is that of other readings if no row of its table tells them apart. -/
theorem buildSnapshot_congr {b : Agent K} {i : ReportInterval} {prev : ℕ → Option CPUStat}
    (h : ∀ r ∈ (cpuTable srt b i).listed b.cfg.topN, (i.res.pod r.cgroupID).isSome →
      (cpuScores { b with prevThrottle := prev } i).throttle r.cgroupID =
        (cpuScores b i).throttle r.cgroupID) :
    (buildSnapshot srt b i).1 = (buildSnapshot srt { b with prevThrottle := prev } i).1 := by
  have hrow : ∀ r ∈ (cpuTable srt b i).listed b.cfg.topN,
      ({ cpuScores b i with prevThrottle := prev } : CPUScores K).row r = (cpuScores b i).row r ∧
        ({ cpuScores b i with prevThrottle := prev } : CPUScores K).score r =
          (cpuScores b i).score r :=
    fun r hr ↦ CPUScores.row_congr (h r hr)
  have hout : (buildSnapshot srt { b with prevThrottle := prev } i).1.offenders =
      (buildSnapshot srt b i).1.offenders := by
    rw [buildSnapshot_cpu.1, buildSnapshot_cpu.1]
    exact List.map_congr_left fun r hr ↦ (hrow r hr).1
  have htop : (buildSnapshot srt { b with prevThrottle := prev } i).1.maxConfidence =
      (buildSnapshot srt b i).1.maxConfidence := by
    rw [buildSnapshot_cpu.2, buildSnapshot_cpu.2]
    exact congrArg (List.foldl max (-1)) (List.map_congr_left fun r hr ↦ (hrow r hr).2)
  have hrest : (buildSnapshot srt { b with prevThrottle := prev } i).1 =
      { (buildSnapshot srt b i).1 with
        offenders := (buildSnapshot srt { b with prevThrottle := prev } i).1.offenders
        maxConfidence := (buildSnapshot srt { b with prevThrottle := prev } i).1.maxConfidence } :=
    rfl
  rw [hrest, hout, htop]

/-- The snapshots tell apart the throttle fractions of a resolved cgroup in the table. -/
theorem throttle_eq_of_buildSnapshot [CharZero K] {b : Agent K} {i : ReportInterval}
    {prev : ℕ → Option CPUStat}
    (h : (buildSnapshot srt b i).1 = (buildSnapshot srt { b with prevThrottle := prev } i).1)
    {r : CgroupCPUTime} (hr : r ∈ (cpuTable srt b i).listed b.cfg.topN)
    (hpod : (i.res.pod r.cgroupID).isSome) :
    (cpuScores { b with prevThrottle := prev } i).throttle r.cgroupID =
      (cpuScores b i).throttle r.cgroupID := by
  have hout := congrArg Snapshot.offenders h
  rw [buildSnapshot_cpu.1, buildSnapshot_cpu.1] at hout
  have hrow : (cpuScores b i).row r = (cpuScores { b with prevThrottle := prev } i).row r :=
    List.map_inj_left.mp hout r hr
  have hpct := congrArg Offender.throttlePct hrow
  rw [CPUScores.row_throttlePct hpod, CPUScores.row_throttlePct hpod] at hpct
  exact (mul_right_cancel₀ (by norm_num) hpct).symm

/-- After a gap the interval before has read nothing. -/
theorem statBefore_of_gap {j : ℕ} (hjk : j + 1 < k)
    (hgap : ∀ i, j < i → i < k → ¬ Contended srt a is i) (cg : ℕ) :
    statBefore srt a is k cg = none := by
  cases k with
  | zero => exact absurd hjk (Nat.not_lt_zero _)
  | succ k => exact statRead_of_not_contended (hgap k (by omega) k.lt_succ_self) cg

theorem statBefore_of_none (hnone : ∀ i < k, ¬ Contended srt a is i) (cg : ℕ) :
    statBefore srt a is k cg = none := by
  cases k with
  | zero => rfl
  | succ k => exact statRead_of_not_contended (hnone k k.lt_succ_self) cg

/-- The throttle pressure of an interval is that since the interval before unless, after a gap
without contention, some cgroup was throttled since its last reading. -/
theorem throttleCurrent_iff [CharZero K] (ha : ∀ cg, a.prevThrottle cg = none) (k : ℕ) :
    ThrottleCurrent srt a is k ↔ ¬ Stale srt a is k := by
  constructor
  · rintro hcur ⟨j, hjk, hgap, cg, prev, now, hprev, hnow, hlt⟩
    obtain ⟨r, hr, rfl, hpod, hstat⟩ := mem_listed_of_statRead hnow
    have hlast : (a.after srt is k).prevThrottle r.cgroupID = some prev :=
      (prevThrottle_of_last (contended_of_statRead hprev) (by omega) hgap _).trans hprev
    have ht := throttle_eq_of_buildSnapshot hcur (r := r) (by rwa [Agent.after_cfg]) hpod
    rw [CPUScores.throttle_eq, CPUScores.throttle_eq] at ht
    simp only [cpuScores, hstat, hlast, statBefore_of_gap hjk hgap] at ht
    exact CPUStat.throttledFraction_sub_eq_zero_iff.mp ht.symm hlt
  · intro hstale
    refine buildSnapshot_congr fun r hr hpod ↦ ?_
    rw [Agent.after_cfg] at hr
    rw [CPUScores.throttle_eq, CPUScores.throttle_eq]
    simp only [cpuScores]
    rcases last_contended srt a is k with hnone | ⟨j, hjk, hj, hgap⟩
    · rw [prevThrottle_of_none ha hnone, statBefore_of_none hnone]
    · rw [prevThrottle_of_last hj hjk hgap]
      rcases Nat.lt_or_eq_of_le hjk with hjk | rfl
      · rw [statBefore_of_gap hjk hgap]
        cases hnow : (is k).res.cpuStat r.cgroupID with
        | none => rfl
        | some now =>
            cases hprev : statRead srt a is j r.cgroupID with
            | none => rfl
            | some prev =>
                -- a reading from before the gap, of a cgroup that was not throttled since
                refine (CPUStat.throttledFraction_sub_eq_zero_iff.mpr fun hlt ↦ hstale ?_).symm
                exact ⟨j, hjk, hgap, _, prev, now, hprev,
                  (statRead_of_mem_listed hr hpod).trans hnow, hlt⟩
      · rfl

end Run

/-! ## A pod that was throttled long ago -/

/-- Pod 1 uses most of the CPU, as its request lets it, and pod 2 waits for it or not. -/
def throttleInterval (waits : Bool) (stat : CPUStat) : ReportInterval where
  cpu := [⟨1, 800⟩, ⟨2, 200⟩]
  runq := if waits then [⟨2, List.replicate 13 0 ++ [100], 100⟩] else []
  blkio := []
  network := []
  timeline := []
  res := .steady (fun cg ↦ if cg = 1 then some ⟨"web", "a", "app", 900⟩
    else some ⟨"web", "b", "app", 100⟩) fun _ ↦ some stat
  runq_nodup := by cases waits <;> decide

/-- Pod 1 is throttled in all of its periods, and pod 2 waits in every interval. -/
theorem alwaysThrottled_current : ThrottleCurrent .insertion (newAgent (defaultConfig ℚ))
    (fun n ↦ throttleInterval true ⟨10 * n, 10 * n⟩) 2 := by
  refine (throttleCurrent_iff (fun _ ↦ rfl) 2).mpr ?_
  rintro ⟨j, hj, hgap, -⟩
  obtain rfl : j = 0 := by omega
  exact hgap 1 Nat.one_pos (by decide) (by decide +kernel)

/-- Pod 1 is throttled before a healthy interval, and not any more after it. -/
def throttledBefore (n : ℕ) : ReportInterval :=
  throttleInterval (n != 1) (if n = 0 then ⟨0, 0⟩ else ⟨10, 10⟩)

theorem throttledBefore_mono (cg : ℕ) {i j : ℕ} (hij : i ≤ j) {now later : CPUStat}
    (hi : (throttledBefore i).res.cpuStat cg = some now)
    (hj : (throttledBefore j).res.cpuStat cg = some later) :
    now.nrPeriods ≤ later.nrPeriods ∧ now.nrThrottled ≤ later.nrThrottled := by
  obtain rfl : (if i = 0 then ⟨0, 0⟩ else ⟨10, 10⟩) = now := Option.some.inj hi
  obtain rfl : (if j = 0 then ⟨0, 0⟩ else ⟨10, 10⟩) = later := Option.some.inj hj
  by_cases h : i = 0
  · simp [h]
  · simp [h, show j ≠ 0 by omega]

/-- The next interval with victims holds it against pod 1, and its confidence rises. -/
theorem throttledBefore_not_current :
    (¬ ∀ is : ℕ → ReportInterval,
      (∀ cg i j now later, i ≤ j → (is i).res.cpuStat cg = some now →
        (is j).res.cpuStat cg = some later →
        now.nrPeriods ≤ later.nrPeriods ∧ now.nrThrottled ≤ later.nrThrottled) →
      ∀ k, ThrottleCurrent .insertion (newAgent (defaultConfig ℚ)) is k) ∧
    (buildSnapshot .insertion
        { (newAgent (defaultConfig ℚ)).after .insertion throttledBefore 2 with
          prevThrottle := statBefore .insertion (newAgent (defaultConfig ℚ)) throttledBefore 2 }
        (throttledBefore 2)).1.maxConfidence <
      (buildSnapshot .insertion ((newAgent (defaultConfig ℚ)).after .insertion throttledBefore 2)
        (throttledBefore 2)).1.maxConfidence := by
  have hlt : (buildSnapshot .insertion
      { (newAgent (defaultConfig ℚ)).after .insertion throttledBefore 2 with
        prevThrottle := statBefore .insertion (newAgent (defaultConfig ℚ)) throttledBefore 2 }
      (throttledBefore 2)).1.maxConfidence <
    (buildSnapshot .insertion ((newAgent (defaultConfig ℚ)).after .insertion throttledBefore 2)
      (throttledBefore 2)).1.maxConfidence := by
    decide +kernel
  constructor
  · intro h
    have hcur := h throttledBefore (fun cg i j _ _ hij ↦ throttledBefore_mono cg hij) 2
    exact hlt.ne' (congrArg Snapshot.maxConfidence hcur)
  · exact hlt
