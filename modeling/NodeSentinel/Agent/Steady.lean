import NodeSentinel.Agent.Offenders
import NodeSentinel.Ebpf.Timeline

/-!
# A steadily busy pod

The drain puts the windows since the previous drain at the end of an axis of 64 and fills
the rest with zeros.  A pod that was on the CPU for the same time in every window therefore
has a series with one step, and every victim that stalled has its stalls after the step.
-/

/-! ## The timelines of an interval -/

section Drained

variable {n : ℕ}

theorem foldl_timelineByCgroup (refEpoch id : ℕ)
    {l : List (Sigma fun _ : ℕ ↦ (Fin n → SchedBuckets))} (hnd : l.NodupKeys)
    (m : ℕ → Option CgroupTimeline) :
    (l.map fun e ↦ drainCgroup refEpoch e.1 e.2).foldl
      (fun (m : ℕ → Option CgroupTimeline) t ↦ Function.update m t.cgroupID (some t)) m id =
        ((l.dlookup id).map (drainCgroup refEpoch id)).or (m id) := by
  induction l generalizing m with
  | nil => rfl
  | cons e l ih =>
      obtain ⟨key, bs⟩ := e
      obtain ⟨hkey, hnd⟩ := List.nodupKeys_cons.mp hnd
      rw [List.map_cons, List.foldl_cons, ih hnd, drainCgroup_cgroupID]
      by_cases h : id = key
      · subst h
        rw [List.dlookup_cons_eq, List.dlookup_eq_none.mpr hkey, Function.update_self]
        rfl
      · rw [List.dlookup_cons_ne _ _ h, Function.update_of_ne h]

/-- The timeline of a cgroup is the one its ring was drained to. -/
theorem timelineByCgroup_readTimeline (m : TimelineMap n) (refEpoch id : ℕ) :
    timelineByCgroup (readTimeline m refEpoch).1 id = (m.lookup id).map (drainCgroup refEpoch id) :=
  (foldl_timelineByCgroup refEpoch id m.nodupKeys _).trans Option.or_none

/-- The windows since the previous drain, at the end of the axis. -/
theorem drainCgroup_get_since {charges : List (Charge n)} {id first refEpoch : ℕ}
    {bs : Fin n → SchedBuckets} (h : InOrder charges)
    (hfirst : ∀ ch ∈ charges, first ≤ ch.epoch) (href : ∀ ch ∈ charges, ch.epoch ≤ refEpoch)
    (hk : refEpoch + 1 - first ≤ timelineBuckets) (hpos : first ≤ refEpoch)
    (hl : (TimelineMap.run charges).lookup id = some bs) (s : Series) :
    (drainCgroup refEpoch id bs).get s =
      List.replicate (timelineBuckets - (refEpoch + 1 - first)) 0 ++
        (List.range (refEpoch + 1 - first)).map fun j ↦ charged charges id (first + j) s := by
  have hT : timelineBuckets = 64 := rfl
  rw [drainCgroup_get ((Rings.run h).slots hl) h.started href]
  have hsplit : timelineBuckets =
      (timelineBuckets - (refEpoch + 1 - first)) + (refEpoch + 1 - first) := by omega
  rw [hsplit, List.range_add, List.map_append, List.map_map, ← hsplit]
  congr 1
  · rw [List.eq_replicate_iff]
    refine ⟨by simp, fun v hv ↦ ?_⟩
    obtain ⟨pos, hp, rfl⟩ := List.mem_map.mp hv
    rw [List.mem_range] at hp
    refine List.sum_eq_zero fun v hv ↦ ?_
    obtain ⟨ch, hch, rfl⟩ := List.mem_map.mp hv
    refine if_neg fun he ↦ ?_
    -- nothing has been charged before the previous drain
    have := hfirst ch hch
    have := h.started ch hch
    omega
  · refine List.map_congr_left fun j hj ↦ ?_
    rw [List.mem_range] at hj
    rw [Function.comp_apply]
    congr 1
    omega

end Drained

/-! ## One step against the stalls after it -/

section Score

variable {K : Type} [Field K] [LinearOrder K] [IsStrictOrderedRing K]

/-- The activity gate counts buckets above a millisecond. -/
def activeBuckets (us : List ℕ) : ℕ := us.countP fun u ↦ decide (1000000 < u)

theorem activeCount_toFloat (us : List ℕ) :
    activeCount (toFloat us : List K) correlationConfig.activeFloor = activeBuckets us := by
  rw [activeCount, toFloat, List.countP_map, activeBuckets]
  refine List.countP_congr fun u _ ↦ ?_
  simp [correlationConfig]

theorem activeBuckets_append (a : ℕ) (us : List ℕ) :
    activeBuckets (List.replicate a 0 ++ us) = activeBuckets us := by
  simp [activeBuckets, List.countP_replicate]

theorem activeBuckets_replicate (k c : ℕ) :
    activeBuckets (List.replicate k c) = if 1000000 < c then k else 0 := by
  simp [activeBuckets, List.countP_replicate]

variable [Sqrt K]

/-- A step scores nothing only behind the activity gate. -/
theorem correlate_step {a c : ℕ} (ha : 0 < a) (ys : List ℕ) :
    (correlate (toFloat (List.replicate a 0 ++ List.replicate ys.length c) : List K)
      (toFloat (List.replicate a 0 ++ ys)) correlationConfig).r ≤ 0 ↔
      c ≤ 1000000 ∨ activeBuckets ys < 5 := by
  have hle : activeBuckets ys ≤ ys.length := List.countP_le_length
  by_cases h : c ≤ 1000000 ∨ activeBuckets ys < 5
  · refine iff_of_true (le_of_eq (correlate_r_of_inactive ?_)) h
    rw [activeCount_toFloat, activeCount_toFloat, activeBuckets_append, activeBuckets_append,
      activeBuckets_replicate]
    change ((min _ _ : ℕ) : ℤ) < 5
    split_ifs <;> omega
  · refine iff_of_false (not_le.mpr ?_) h
    obtain ⟨hc, hys⟩ := not_or.mp h
    have hfloat : ∀ us : List ℕ, (toFloat (List.replicate a 0 ++ us) : List K) =
        List.replicate a 0 ++ toFloat us := fun us ↦ by simp [toFloat]
    have hcpu : (toFloat (List.replicate ys.length c) : List K) =
        List.replicate (toFloat ys : List K).length (c : K) := by simp [toFloat]
    have hsum : 0 < (toFloat ys : List K).sum := by
      obtain ⟨y, hy, hlt⟩ := List.countP_pos_iff.mp (show 0 < activeBuckets ys by omega)
      have hpos : 0 < ys.sum := (by simpa using hlt : 1000000 < y).trans_le'
        (Nat.zero_le _) |>.trans_le (List.single_le_sum (by simp) y hy)
      rw [toFloat, ← Nat.cast_list_sum]
      exact Nat.cast_pos.mpr hpos
    have hpearson := pearsonLagged_step_pos (K := K) ha (Nat.cast_pos.mpr (show 0 < c by omega))
      hsum (show 3 ≤ a + _ by simp [toFloat]; omega)
    rw [hfloat, hfloat, hcpu]
    refine hpearson.trans_le (pearsonLagged_zero_le_r ?_ ?_ (by norm_num [correlationConfig]) ?_ le_rfl)
    · simp
    · simp [toFloat]
      omega
    · rw [← hcpu, ← hfloat, ← hfloat, activeCount_toFloat, activeCount_toFloat,
        activeBuckets_append, activeBuckets_append, activeBuckets_replicate, if_pos (by omega)]
      change (5 : ℤ) ≤ ((min _ _ : ℕ) : ℤ)
      omega

end Score

/-! ## The score of a steady pod -/

section Steady

variable {n : ℕ} {charges : List (Charge n)}

/-- The windows since the previous drain in which a cgroup waited for more than a
millisecond. -/
def stalledWindows (charges : List (Charge n)) (cgroup first refEpoch : ℕ) : ℕ :=
  activeBuckets ((List.range (refEpoch + 1 - first)).map fun j ↦
    charged charges cgroup (first + j) .runqLat)

variable {K : Type} [Field K] [LinearOrder K] [IsStrictOrderedRing K] [Sqrt K]

/-- When a steady pod scores nothing: where it has no ring, it was on the CPU for at most
a millisecond in each window, or no victim with a ring has stalled in five windows. -/
theorem steady_burstCorrelation_eq_zero_iff (h : InOrder charges) {first refEpoch : ℕ}
    (hle : first ≤ refEpoch) (hshort : refEpoch + 1 - first < timelineBuckets)
    (hfirst : ∀ ch ∈ charges, first ≤ ch.epoch) (href : ∀ ch ∈ charges, ch.epoch ≤ refEpoch)
    {pod c : ℕ}
    (hsteady : ∀ epoch, first ≤ epoch → epoch ≤ refEpoch → charged charges pod epoch .cpu = c)
    (victims : List ℕ) :
    (burstCorrelation (timelineByCgroup (readTimeline (TimelineMap.run charges) refEpoch).1) pod
        victims : K × ℕ).1 = 0 ↔
      pod ∉ TimelineMap.run charges ∨ c ≤ 1000000 ∨
        ∀ v ∈ victims, v ∈ TimelineMap.run charges →
          stalledWindows charges v first refEpoch < 5 := by
  have hdrain : ∀ {id bs}, (TimelineMap.run charges).lookup id = some bs → ∀ s, _ :=
    fun {_ _} hl s ↦ drainCgroup_get_since h hfirst href hshort.le hle hl s
  cases hpod : (TimelineMap.run charges).lookup pod with
  | none =>
      have hnone : timelineByCgroup (readTimeline (TimelineMap.run charges) refEpoch).1 pod = none := by
        rw [timelineByCgroup_readTimeline, hpod, Option.map_none]
      refine iff_of_true ?_ (.inl (AList.lookup_eq_none.mp hpod))
      rw [burstCorrelation, hnone]
  | some bs =>
      have hmem : pod ∈ TimelineMap.run charges :=
        AList.lookup_isSome.mp (Option.isSome_iff_exists.mpr ⟨bs, hpod⟩)
      have hoff : timelineByCgroup (readTimeline (TimelineMap.run charges) refEpoch).1 pod =
          some (drainCgroup refEpoch pod bs) := by
        rw [timelineByCgroup_readTimeline, hpod, Option.map_some]
      have hcpu : (drainCgroup refEpoch pod bs).cpuNs =
          List.replicate (timelineBuckets - (refEpoch + 1 - first)) 0 ++
            List.replicate (refEpoch + 1 - first) c := by
        refine (hdrain hpod .cpu).trans (congrArg _ ?_)
        rw [List.eq_replicate_iff]
        refine ⟨by simp, fun v hv ↦ ?_⟩
        obtain ⟨j, hj, rfl⟩ := List.mem_map.mp hv
        rw [List.mem_range] at hj
        exact hsteady _ (by omega) (by omega)
      -- the score against one victim with a ring
      have hvictim : ∀ v vs, (TimelineMap.run charges).lookup v = some vs →
          ((correlate (toFloat (drainCgroup refEpoch pod bs).cpuNs : List K)
            (toFloat (drainCgroup refEpoch v vs).runqLatNs) correlationConfig).r ≤ 0 ↔
              c ≤ 1000000 ∨ stalledWindows charges v first refEpoch < 5) := fun v vs hv ↦ by
        have hstep := correlate_step (K := K) (a := timelineBuckets - (refEpoch + 1 - first)) (c := c)
          (by omega) ((List.range (refEpoch + 1 - first)).map fun j ↦
            charged charges v (first + j) .runqLat)
        rw [List.length_map, List.length_range, ← hcpu] at hstep
        rwa [show (drainCgroup refEpoch v vs).runqLatNs = _ from hdrain hv .runqLat]
      rw [burstCorrelation_eq_zero_iff hoff]
      simp only [timelineByCgroup_readTimeline, Option.map_eq_some_iff, hmem, not_true, false_or]
      constructor
      · intro hz
        refine or_iff_not_imp_left.mpr fun hc v hv hvm ↦ ?_
        obtain ⟨vs, hvs⟩ := Option.isSome_iff_exists.mp (AList.lookup_isSome.mpr hvm)
        exact ((hvictim v vs hvs).mp (hz v hv _ ⟨vs, hvs, rfl⟩)).resolve_left hc
      · rintro hz v hv _ ⟨vs, hvs, rfl⟩
        refine (hvictim v vs hvs).mpr (hz.imp_right fun hall ↦ hall v hv ?_)
        exact AList.lookup_isSome.mp (Option.isSome_iff_exists.mpr ⟨vs, hvs⟩)

end Steady

/-! ## Half a second of a steady pod and a stalling one -/

/-- In each of five windows, pod 1 leaves the CPU after `ns` and pod 2 takes it after a wait
of two milliseconds. -/
def steadyCharges (ns : ℕ) : List (Charge 1) :=
  (List.range 5).flatMap fun j ↦
    [⟨0, 1, (100 + j) * timelineBucketNs, .slice, ns⟩,
      ⟨0, 2, (100 + j) * timelineBucketNs, .wait, 2000000⟩]

/-- Half a millisecond in each window is below the activity gate. -/
theorem quiet_burstCorrelation_eq_zero :
    (burstCorrelation (timelineByCgroup (readTimeline (TimelineMap.run (steadyCharges 500000))
      104).1) 1 [2] : ℝ × ℕ).1 = 0 := by
  have hsteady : ∀ epoch, 100 ≤ epoch → epoch ≤ 104 →
      charged (steadyCharges 500000) 1 epoch .cpu = 500000 := fun epoch h₁ h₂ ↦ by
    interval_cases epoch <;> decide +kernel
  exact (steady_burstCorrelation_eq_zero_iff ⟨by decide +kernel, by decide +kernel⟩ (by decide)
    (by decide) (by decide +kernel) (by decide +kernel) hsteady [2]).mpr (.inr (.inl (by decide)))

/-- Half of each window, which is as steady, scores the maximum. -/
theorem steady_burstCorrelation_ne_zero :
    ¬ ∀ (charges : List (Charge 1)) (first refEpoch pod c : ℕ) (victims : List ℕ),
      InOrder charges → first ≤ refEpoch → refEpoch + 1 - first < timelineBuckets →
      (∀ ch ∈ charges, first ≤ ch.epoch) → (∀ ch ∈ charges, ch.epoch ≤ refEpoch) →
      (∀ epoch, first ≤ epoch → epoch ≤ refEpoch → charged charges pod epoch .cpu = c) →
      (burstCorrelation (timelineByCgroup (readTimeline (TimelineMap.run charges) refEpoch).1) pod
        victims : ℚ × ℕ).1 = 0 := by
  intro h
  have hz := h (steadyCharges 50000000) 100 104 1 50000000 [2]
    ⟨by decide +kernel, by decide +kernel⟩ (by decide) (by decide) (by decide +kernel)
    (by decide +kernel) fun epoch h₁ h₂ ↦ by interval_cases epoch <;> decide +kernel
  have hone : (burstCorrelation (timelineByCgroup (readTimeline (TimelineMap.run
      (steadyCharges 50000000)) 104).1) 1 [2] : ℚ × ℕ).1 = 1 := by decide +kernel
  exact absurd (hz.symm.trans hone) (by decide)
