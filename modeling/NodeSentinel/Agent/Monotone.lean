import NodeSentinel.Agent.Usage

/-!
# Using more

What a cgroup used enters its confidence through its share of the total, through what is learned of
it, and, for the CPU, through the fallback.  None of them, and none of the jumps between them, makes
a cgroup that used more look less guilty.
-/

variable {K : Type} [Field K] [LinearOrder K]

/-! ## More usage of one cgroup -/

section Readings

variable {ρ : Type} {cgroup usage : ρ → ℕ} {cg u : ℕ} {f : ρ → ρ}

/-- Another reading of one cgroup. -/
def setReading (cgroup : ρ → ℕ) (cg : ℕ) (f : ρ → ρ) (rs : List ρ) : List ρ :=
  rs.map fun r ↦ if cgroup r = cg then f r else r

theorem setReading_cgroups (hf : ∀ r, cgroup (f r) = cgroup r) (rs : List ρ) :
    (setReading cgroup cg f rs).map cgroup = rs.map cgroup := by
  rw [setReading, List.map_map]
  refine List.map_congr_left fun r _ ↦ ?_
  dsimp only [Function.comp]
  split_ifs
  · exact hf r
  · rfl

theorem setReading_usage (hf : ∀ r, cgroup (f r) = cgroup r) (hu : ∀ r, usage (f r) = u)
    (rs : List ρ) : ((setReading cgroup cg f rs).map fun r ↦ (cgroup r, usage r)) =
      (rs.map fun r ↦ (cgroup r, usage r)).map fun x ↦ if x.1 = cg then (x.1, u) else x := by
  rw [setReading, List.map_map, List.map_map]
  refine List.map_congr_left fun r _ ↦ ?_
  dsimp only [Function.comp]
  split_ifs
  · rw [hf, hu]
  · rfl

/-- What a loop does not look at does not matter to it. -/
theorem foldl_setReading {β : Type} {step : β → ρ → β} (h : ∀ s r, step s (f r) = step s r)
    (rs : List ρ) (s : β) : (setReading cgroup cg f rs).foldl step s = rs.foldl step s := by
  rw [setReading, List.foldl_map]
  congr 1
  funext s r
  split_ifs
  · exact h s r
  · rfl

end Readings

namespace ReportInterval

/-- The interval in which a cgroup used `u` instead. -/
def setUsage (i : ReportInterval) (cg u : ℕ) : Resource → ReportInterval
  | .cpu =>
      { i with
        cpu := setReading CgroupCPUTime.cgroupID cg (fun r ↦ { r with onCpuNs := u }) i.cpu
        cpu_nodup := by
          rw [setReading_cgroups]
          · exact i.cpu_nodup
          · intro r
            rfl }
  | .disk =>
      { i with
        blkio := setReading CgroupBlkio.cgroupID cg (fun r ↦ { r with bytes := u }) i.blkio
        blkio_nodup := by
          rw [setReading_cgroups]
          · exact i.blkio_nodup
          · intro r
            rfl }
  | .net =>
      { i with
        network := setReading CgroupNet.cgroupID cg (fun r ↦ { r with txBytes := u }) i.network
        network_nodup := by
          rw [setReading_cgroups]
          · exact i.network_nodup
          · intro r
            rfl }

variable {i : ReportInterval} {cg u u' : ℕ} {resource : Resource}

theorem usage_setUsage : (i.setUsage cg u resource).usage resource =
    (i.usage resource).map fun x ↦ if x.1 = cg then (x.1, u) else x := by
  cases resource with
  | cpu =>
      refine setReading_usage ?_ ?_ i.cpu
      all_goals
        intro r
        rfl
  | disk =>
      refine setReading_usage ?_ ?_ i.blkio
      all_goals
        intro r
        rfl
  | net =>
      refine setReading_usage ?_ ?_ i.network
      all_goals
        intro r
        rfl

@[simp] theorem setUsage_res : (i.setUsage cg u resource).res = i.res := by
  cases resource <;> rfl

theorem mem_setUsage (u' : ℕ) (h : (cg, u) ∈ i.usage resource) :
    (cg, u') ∈ (i.setUsage cg u' resource).usage resource := by
  rw [usage_setUsage]
  exact List.mem_map.mpr ⟨(cg, u), h, if_pos rfl⟩

/-- The others used the rest. -/
theorem exists_rest (h : (cg, u) ∈ i.usage resource) (u' : ℕ) :
    ∃ rest, ((i.usage resource).map Prod.snd).sum = rest + u ∧
      (((i.setUsage cg u' resource).usage resource).map Prod.snd).sum = rest + u' := by
  obtain ⟨l, l', hsplit⟩ := List.append_of_mem h
  have hnd := i.usage_nodup resource
  rw [hsplit, List.map_append, List.map_cons, List.nodup_middle, List.nodup_cons, List.mem_append,
    not_or] at hnd
  have hother : ∀ l : List (ℕ × ℕ), cg ∉ l.map Prod.fst →
      (l.map fun x ↦ if x.1 = cg then (x.1, u') else x) = l := by
    intro l hl
    refine (List.map_congr_left fun x hx ↦ if_neg ?_).trans (List.map_id l)
    rintro rfl
    exact hl (List.mem_map_of_mem hx)
  refine ⟨(l.map Prod.snd).sum + (l'.map Prod.snd).sum, ?_, ?_⟩
  · rw [hsplit]
    simp only [List.map_append, List.map_cons, List.sum_append, List.sum_cons]
    omega
  · rw [usage_setUsage, hsplit, List.map_append, List.map_cons, hother l hnd.1.1, hother l' hnd.1.2,
      if_pos rfl]
    simp only [List.map_append, List.map_cons, List.sum_append, List.sum_cons]
    omega

end ReportInterval

/-! ## The share -/

section Share

variable [IsStrictOrderedRing K] {rest u u' : ℕ}

theorem share_zero (total : ℕ) : (share 0 total : K) = 0 := by
  unfold share
  split_ifs <;> simp

theorem share_mono (h : u ≤ u') : (share u (rest + u) : K) ≤ share u' (rest + u') := by
  rcases Nat.eq_zero_or_pos u with rfl | hpos
  · rw [share_zero, share]
    split_ifs
    · exact le_rfl
    · positivity
  · have hle : (u : K) ≤ u' := Nat.cast_le.mpr h
    have hu : (0 : K) < u := Nat.cast_pos.mpr hpos
    have hrest : (0 : K) ≤ rest := Nat.cast_nonneg rest
    rw [share, share, if_neg (by omega), if_neg (by omega)]
    refine mul_le_mul_of_nonneg_right ?_ (by norm_num)
    rw [Nat.cast_add, Nat.cast_add, div_le_div_iff₀ (by linarith) (by linarith)]
    have hmul := mul_le_mul_of_nonneg_right hle hrest
    linarith

end Share

/-! ## The change -/

section Learned

variable [IsStrictOrderedRing K] {factor alpha u u' : K} {warmup : ℤ} {a : Avg K} {o : Option (Avg K)}

theorem Spiking.mono (h : Spiking factor warmup a u) (hle : u ≤ u') : Spiking factor warmup a u' :=
  ⟨h.1, h.2.1, h.2.2.trans (div_le_div_of_nonneg_right hle h.2.1.le)⟩

/-- What is learned of more usage is positive if it was. -/
theorem learnUsage_pos_mono (h₀ : 0 ≤ alpha) (hle : u ≤ u')
    (h : 0 < (learnUsage factor alpha warmup u o).value) :
    0 < (learnUsage factor alpha warmup u' o).value := by
  cases o with
  | none => exact h.trans_le hle
  | some a =>
      rw [learnUsage] at h ⊢
      dsimp only at h ⊢
      by_cases hs' : Spiking factor warmup a u'
      · rw [if_pos hs']
        exact hs'.2.1
      · have hmul := mul_le_mul_of_nonneg_left hle h₀
        rw [if_neg fun hs ↦ hs' (hs.mono hle)] at h
        rw [if_neg hs']
        linarith

variable (h₀ : 0 ≤ alpha) (h₁ : alpha ≤ 1) (ho : ∀ a, o = some a → 0 ≤ a.value)

include h₀ h₁ ho

theorem learnUsage_nonneg (hu : 0 ≤ u) : 0 ≤ (learnUsage factor alpha warmup u o).value := by
  cases o with
  | none => exact hu
  | some a =>
      rw [learnUsage]
      dsimp only
      split_ifs
      · exact ho a rfl
      · exact le_average h₀ h₁ hu (ho a rfl)

/-- Conversely, if there was some. -/
theorem learnUsage_pos_of_pos (hu : 0 < u) (hle : u ≤ u')
    (h : 0 < (learnUsage factor alpha warmup u' o).value) :
    0 < (learnUsage factor alpha warmup u o).value := by
  cases o with
  | none => exact hu
  | some a =>
      rw [learnUsage] at h ⊢
      dsimp only at h ⊢
      by_cases hs : Spiking factor warmup a u
      · rw [if_pos hs]
        exact hs.2.1
      · rw [if_neg hs]
        rcases (ho a rfl).eq_or_lt with hzero | hpos
        · rw [if_neg fun hs' ↦ hs'.2.1.ne hzero, ← hzero, mul_zero, add_zero] at h
          rw [← hzero, mul_zero, add_zero]
          exact mul_pos (pos_of_mul_pos_left h (hu.le.trans hle)) hu
        · exact average_pos h₀ h₁ hu hpos

/-- The change that is seen does not shrink. -/
theorem clamp_ratio_mono (hu : 0 ≤ u) (hle : u ≤ u')
    (h : 0 < (learnUsage factor alpha warmup u o).value) :
    clamp ((u / (learnUsage factor alpha warmup u o).value - 1) / 4) 0 1 ≤
      clamp ((u' / (learnUsage factor alpha warmup u' o).value - 1) / 4) 0 1 := by
  have h' := learnUsage_pos_mono h₀ hle h
  suffices hratio : u / (learnUsage factor alpha warmup u o).value ≤ 1 ∨
      u / (learnUsage factor alpha warmup u o).value ≤
        u' / (learnUsage factor alpha warmup u' o).value by
    rcases hratio with hone | hratio
    · have hzero : clamp ((u / (learnUsage factor alpha warmup u o).value - 1) / 4) 0 1 ≤ 0 := by
        refine (min_le_right _ _).trans (max_le le_rfl ?_)
        linarith
      exact hzero.trans (le_min zero_le_one (le_max_left _ _))
    · exact clamp_mono (by linarith)
  cases o with
  | none => exact .inl (div_self h.ne').le
  | some a =>
      rw [learnUsage] at h ⊢
      rw [learnUsage] at h' ⊢
      dsimp only at h h' ⊢
      split_ifs at h h' ⊢ with hs hs' hs'
      · exact .inr (div_le_div_of_nonneg_right hle h.le)
      · exact absurd (hs.mono hle) hs'
      · -- the spike is where the larger usage is first left out
        rcases le_total a.value u with hge | hlt
        · refine .inr ((div_le_div_of_nonneg_left hu h' ?_).trans
            (div_le_div_of_nonneg_right hle h'.le))
          exact le_average h₀ h₁ hge le_rfl
        · exact .inl ((div_le_one h).mpr (le_average h₀ h₁ le_rfl hlt))
      · refine .inr ((div_le_div_iff₀ h h').mpr ?_)
        have hmul := mul_le_mul_of_nonneg_right hle
          (mul_nonneg (sub_nonneg.mpr h₁) (ho a rfl))
        linarith

end Learned

/-! ## The confidence -/

section Clamp

variable [IsStrictOrderedRing K] {x : K}

theorem clamp_nonneg : 0 ≤ clamp x 0 1 := le_min zero_le_one (le_max_left _ _)

theorem clamp_eq_zero (h : x ≤ 0) : clamp x 0 1 = 0 := by
  rw [clamp, max_eq_left h, min_eq_right zero_le_one]

end Clamp

namespace Evidence

variable [IsStrictOrderedRing K] {x x' : Evidence K}

omit [IsStrictOrderedRing K] in
theorem changed_mono (hthrottle : x'.throttle = x.throttle) (h : x.deviated ≤ x'.deviated) :
    x.changed ≤ x'.changed := by
  rw [changed, changed, hthrottle]
  split_ifs
  · exact max_le_max_right _ h
  · exact h

theorem changed_nonneg (hthrottle : x'.throttle = x.throttle)
    (h : 0 ≤ x.deviated → 0 ≤ x'.deviated) (hx : 0 ≤ x.changed) : 0 ≤ x'.changed := by
  rw [changed] at hx
  rw [changed, hthrottle]
  split_ifs at hx ⊢ with hpos
  · exact le_max_of_le_right clamp_nonneg
  · exact h hx

theorem confidence_nonneg (h : 0 ≤ x.changed) : 0 ≤ x.confidence := by
  rw [confidence_eq, if_neg h.not_gt]
  exact clamp_nonneg

/-- There is no confidence in what has no share. -/
theorem confidence_nonpos (h : x.sharePct = 0) : x.confidence ≤ 0 := by
  have hmagnitude : x.magnitude = 0 := by
    rw [magnitude, h]
    exact clamp_eq_zero (by norm_num)
  rw [confidence_eq]
  split_ifs
  · norm_num
  · refine (clamp_eq_zero ?_).le
    exact (min_le_left _ _).trans ((min_le_right _ _).trans hmagnitude.le)

/-- A larger share, and more change, or some where there was no share before. -/
theorem confidence_mono (hshare : x.sharePct ≤ x'.sharePct)
    (hsignal : x'.victimSignal = x.victimSignal) (hthrottle : x'.throttle = x.throttle)
    (h : x.deviated ≤ x'.deviated ∨ x.sharePct = 0 ∧ (0 ≤ x.deviated → 0 ≤ x'.deviated)) :
    x.confidence ≤ x'.confidence := by
  by_cases hx : x.changed < 0
  · rw [confidence_eq, if_pos hx, confidence_eq]
    split_ifs
    · exact le_rfl
    · exact (neg_nonpos.mpr zero_le_one).trans clamp_nonneg
  rcases h with hle | ⟨hzero, hsome⟩
  · have hchanged := changed_mono hthrottle hle
    rw [confidence_eq, confidence_eq, if_neg hx, if_neg fun hlt ↦ hx (hchanged.trans_lt hlt), hsignal]
    refine clamp_mono (min_le_min_right _ (min_le_min hchanged (clamp_mono ?_)))
    linarith
  · exact (confidence_nonpos hzero).trans
      (confidence_nonneg (changed_nonneg hthrottle hsome (not_lt.mp hx)))

end Evidence

/-! ## The evidence of two intervals -/

section Evidence

variable [FloorSemiring K] [Sqrt K] {a : Agent K} {i : ReportInterval} {resource : Resource}
  {cg u u' : ℕ} {pod : PodID}

omit [Sqrt K] in
theorem ioScan_setUsage : ioScan a (i.setUsage cg u .disk) = ioScan a i := by
  apply foldl_setReading
  intro s r
  rfl

omit [FloorSemiring K] [Sqrt K] in
theorem netScan_setUsage : netScan a (i.setUsage cg u .net) = netScan a i := by
  apply foldl_setReading
  intro s r
  rfl

/-- The harm is the same. -/
theorem evidence_victimSignal : (evidence a (i.setUsage cg u' resource) resource cg u' pod).victimSignal =
    (evidence a i resource cg u pod).victimSignal := by
  cases resource with
  | cpu => rfl
  | disk =>
      show signalFromRatio (ioScan a (i.setUsage cg u' .disk)).worst = _
      rw [ioScan_setUsage]
      rfl
  | net =>
      show signalFromRatio (netScan a (i.setUsage cg u' .net)).worst = _
      rw [netScan_setUsage]
      rfl

/-- So is what `cpu.stat` says. -/
theorem evidence_throttle : (evidence a (i.setUsage cg u' resource) resource cg u' pod).throttle =
    (evidence a i resource cg u pod).throttle := by
  cases resource <;> rfl

omit [Field K] [LinearOrder K] [FloorSemiring K] [Sqrt K] in
/-- What is requested depends on the cgroups that are read. -/
theorem totalRequest_congr {res : Resolver} {rs rs' : List CgroupCPUTime}
    (h : rs.map CgroupCPUTime.cgroupID = rs'.map CgroupCPUTime.cgroupID) :
    totalRequest res rs = totalRequest res rs' := by
  induction rs generalizing rs' with
  | nil =>
      cases rs' with
      | nil => rfl
      | cons r' rs' => cases h
  | cons r rs ih =>
      cases rs' with
      | nil => cases h
      | cons r' rs' =>
          obtain ⟨hid, hrest⟩ := List.cons_eq_cons.mp h
          have hsum := ih hrest
          unfold totalRequest at hsum ⊢
          rw [List.map_cons, List.map_cons, List.sum_cons, List.sum_cons, hid, hsum]

omit [Field K] [LinearOrder K] [FloorSemiring K] [Sqrt K] in
/-- And the requests. -/
theorem totalRequest_setUsage : totalRequest (i.setUsage cg u .cpu).res (i.setUsage cg u .cpu).cpu =
    totalRequest i.res i.cpu := by
  refine totalRequest_congr (setReading_cgroups ?_ i.cpu)
  intro r
  rfl

variable [IsStrictOrderedRing K]

theorem evidence_sharePct (h : (cg, u) ∈ i.usage resource) (hle : u ≤ u') :
    (evidence a i resource cg u pod).sharePct ≤
      (evidence a (i.setUsage cg u' resource) resource cg u' pod).sharePct := by
  obtain ⟨rest, hsum, hsum'⟩ := ReportInterval.exists_rest h u'
  show share u _ ≤ share u' _
  rw [hsum, hsum']
  exact share_mono hle

theorem evidence_fallback (h : (cg, u) ∈ i.usage resource) (hle : u ≤ u') :
    (evidence a i resource cg u pod).fallback ≤
      (evidence a (i.setUsage cg u' resource) resource cg u' pod).fallback := by
  cases resource with
  | cpu =>
      have hintensity : (cpuScores a i).intensity ⟨cg, u⟩ ≤
          (cpuScores a (i.setUsage cg u' .cpu)).intensity ⟨cg, u'⟩ := by
        have hshare : (evidence a i .cpu cg u pod).sharePct ≤ _ := evidence_sharePct h hle
        rw [intensity_eq_share, intensity_eq_share]
        exact hshare
      have hrequest : (cpuScores a (i.setUsage cg u' .cpu)).totalReq = (cpuScores a i).totalReq :=
        totalRequest_setUsage
      show (cpuScores a i).fallback ⟨cg, u⟩ pod ≤
        (cpuScores a (i.setUsage cg u' .cpu)).fallback ⟨cg, u'⟩ pod
      rw [CPUScores.fallback, CPUScores.fallback, hrequest]
      split_ifs
      · exact clamp_mono (by linarith)
      · exact le_rfl
  | disk => exact le_rfl
  | net => exact le_rfl

variable (hread : (cg, u) ∈ i.usage resource) (hle : u ≤ u')
  (h₀ : 0 ≤ (a.usage resource).alpha) (h₁ : (a.usage resource).alpha ≤ 1)
  (ho : ∀ e, (a.usage resource).state cg = some e → 0 ≤ e.value)

include hread hle h₀ h₁ ho

/-- The change is not smaller, and where nothing was used, it is still known. -/
theorem evidence_deviated : (evidence a i resource cg u pod).deviated ≤
      (evidence a (i.setUsage cg u' resource) resource cg u' pod).deviated ∨
    (evidence a i resource cg u pod).sharePct = 0 ∧
      (0 ≤ (evidence a i resource cg u pod).deviated →
        0 ≤ (evidence a (i.setUsage cg u' resource) resource cg u' pod).deviated) := by
  have hcast : (u : K) ≤ u' := Nat.cast_le.mpr hle
  have hfallback : (evidence a i resource cg u pod).fallback ≤ _ := evidence_fallback hread hle
  -- the two entries, which count the same readings
  obtain ⟨e, he⟩ : ∃ e, e = learnUsage a.cfg.deviationFactor (a.usage resource).alpha
      (a.usage resource).warmup (u : K) ((a.usage resource).state cg) := ⟨_, rfl⟩
  obtain ⟨e', he'⟩ : ∃ e', e' = learnUsage a.cfg.deviationFactor (a.usage resource).alpha
      (a.usage resource).warmup (u' : K) ((a.usage resource).state cg) := ⟨_, rfl⟩
  have hstate : (evidence a i resource cg u pod).baseline.state cg = some e :=
    he ▸ Agent.tracked_state hread
  have hstate' : (evidence a (i.setUsage cg u' resource) resource cg u' pod).baseline.state cg =
      some e' := he' ▸ Agent.tracked_state (ReportInterval.mem_setUsage u' hread)
  have hsamples : e'.samples = e.samples := by
    rw [he, he', learnUsage_samples, learnUsage_samples]
  have hwarmup : (evidence a (i.setUsage cg u' resource) resource cg u' pod).baseline.warmup =
      (evidence a i resource cg u pod).baseline.warmup :=
    (trackUsage_warmup _).trans (trackUsage_warmup _).symm
  by_cases hready : (evidence a i resource cg u pod).baseline.warmup ≤ e.samples ∧ 0 < e.value
  · have hwarm' := hready.1
    rw [← hsamples, ← hwarmup] at hwarm'
    have hpos' : 0 < e'.value := he' ▸ learnUsage_pos_mono h₀ hcast (he ▸ hready.2)
    left
    rw [Evidence.deviated_of_state hstate hready.1 hready.2,
      Evidence.deviated_of_state hstate' hwarm' hpos']
    subst he he'
    exact clamp_ratio_mono h₀ h₁ ho (Nat.cast_nonneg u) hcast hready.2
  rw [Evidence.deviated_of_not hstate hready]
  rcases Nat.eq_zero_or_pos u with rfl | hpos
  · refine .inr ⟨share_zero _, fun hzero ↦ ?_⟩
    by_cases hready' : (evidence a (i.setUsage cg u' resource) resource cg u' pod).baseline.warmup ≤
        e'.samples ∧ 0 < e'.value
    · rw [Evidence.deviated_of_state hstate' hready'.1 hready'.2]
      exact clamp_nonneg
    · rw [Evidence.deviated_of_not hstate' hready']
      exact hzero.trans hfallback
  · left
    rw [Evidence.deviated_of_not hstate']
    · exact hfallback
    · rintro ⟨hwarm', hpos'⟩
      rw [hsamples, hwarmup] at hwarm'
      refine hready ⟨hwarm', he ▸ ?_⟩
      exact learnUsage_pos_of_pos h₀ h₁ ho (Nat.cast_pos.mpr hpos) hcast (he' ▸ hpos')

/-- More usage of one cgroup, and nothing else changed. -/
theorem evidence_confidence : (evidence a i resource cg u pod).confidence ≤
    (evidence a (i.setUsage cg u' resource) resource cg u' pod).confidence :=
  Evidence.confidence_mono (evidence_sharePct hread hle) evidence_victimSignal evidence_throttle
    (evidence_deviated hread hle h₀ h₁ ho)

end Evidence

/-! ## Every agent -/

section Reachable

variable [IsStrictOrderedRing K] [FloorSemiring K] [Sqrt K] {srt : SliceSort} {cfg : Config K}
  {is : ℕ → ReportInterval} {n : ℕ} {resource : Resource} {cg : ℕ}

omit [Field K] [LinearOrder K] [IsStrictOrderedRing K] [FloorSemiring K] [Sqrt K] in
theorem Avg.value_of_prune {e e' : Avg K} (h : e.prune = some e') : e'.value = e.value := by
  unfold Avg.prune at h
  split_ifs at h
  all_goals
    obtain rfl := Option.some.inj h
    rfl

/-- No usage that was learned is negative. -/
theorem after_usage_nonneg (h₀ : 0 ≤ cfg.baselineAlpha) (h₁ : cfg.baselineAlpha ≤ 1) (e : Avg K)
    (he : (((newAgent cfg).after srt is n).usage resource).state cg = some e) : 0 ≤ e.value := by
  induction n generalizing e with
  | zero => cases resource <;> cases he
  | succ n ih =>
      rw [Agent.after_succ_usage] at he
      by_cases hread : cg ∈ ((is n).usage resource).map Prod.fst
      · obtain ⟨⟨cg, u⟩, hmem, rfl⟩ := List.mem_map.mp hread
        rw [Agent.tracked_state hmem, after_usage_alpha] at he
        rw [← Option.some.inj he]
        exact learnUsage_nonneg h₀ h₁ ih (Nat.cast_nonneg u)
      · rw [Agent.tracked, trackUsage_state_of_notMem hread] at he
        obtain ⟨e', he', hprune⟩ := Option.bind_eq_some_iff.mp he
        rw [Avg.value_of_prune hprune]
        exact ih e' he'

/-- Using more never makes a pod look less guilty: where a cgroup is listed with its usage and with
more of it, everything else being the same, its confidence is not lower. -/
theorem moreUsage_confidence (srt : SliceSort) (cfg : Config K) (is : ℕ → ReportInterval) (n : ℕ)
    (i : ReportInterval) (resource : Resource) (cg u u' : ℕ) (h₀ : 0 ≤ cfg.baselineAlpha)
    (h₁ : cfg.baselineAlpha ≤ 1) (hread : (cg, u) ∈ i.usage resource) (hle : u ≤ u') :
    ∀ x ∈ attributions srt ((newAgent cfg).after srt is n) i resource,
      ∀ x' ∈ attributions srt ((newAgent cfg).after srt is n) (i.setUsage cg u' resource) resource,
        x.1 = cg → x'.1 = cg → x.2.2 ≤ x'.2.2 := by
  intro x hx x' hx' hcg hcg'
  obtain ⟨v, hv, hconf⟩ := mem_attributions hx
  obtain ⟨v', hv', hconf'⟩ := mem_attributions hx'
  rw [hcg] at hv hconf
  rw [hcg'] at hv' hconf'
  obtain rfl : v = u := ReportInterval.usage_unique hv hread
  obtain rfl : v' = u' := ReportInterval.usage_unique hv' (ReportInterval.mem_setUsage u' hread)
  cases hpod : i.res.pod cg with
  | none =>
      have hnone := (attributions_spec hx).2 (hcg ▸ hpod)
      have hnone' := (attributions_spec hx').2 (by rw [hcg', ReportInterval.setUsage_res]; exact hpod)
      rw [hnone, hnone']
  | some pod =>
      rw [hconf pod hpod, hconf' pod (by rw [ReportInterval.setUsage_res]; exact hpod)]
      refine evidence_confidence hread hle ?_ ?_ fun e he ↦ after_usage_nonneg h₀ h₁ e he
      · rwa [after_usage_alpha]
      · rwa [after_usage_alpha]

end Reachable

/-- The first of three pods, with twice the CPU time. -/
theorem threePods_moreUsage :
    ∃ x ∈ attributions .insertion (newAgent (defaultConfig ℚ)) threePods .cpu,
    ∃ x' ∈ attributions .insertion (newAgent (defaultConfig ℚ)) (threePods.setUsage 1 800 .cpu) .cpu,
      x.1 = 1 ∧ x'.1 = 1 ∧ x.2.2 ≤ x'.2.2 := by
  have hrow : (1, (webPod "a").string, (2 / 15 : ℚ)) ∈
      attributions .insertion (newAgent (defaultConfig ℚ)) threePods .cpu := by
    decide +kernel
  have hrow' : (1, (webPod "a").string, (10 / 21 : ℚ)) ∈
      attributions .insertion (newAgent (defaultConfig ℚ)) (threePods.setUsage 1 800 .cpu) .cpu := by
    decide +kernel
  exact ⟨_, hrow, _, hrow', rfl, rfl, moreUsage_confidence .insertion (defaultConfig ℚ)
    (fun _ ↦ threePods) 0 threePods .cpu 1 400 800 (by norm_num [defaultConfig])
    (by norm_num [defaultConfig]) (.head _) (by norm_num) _ hrow _ hrow' rfl rfl⟩
