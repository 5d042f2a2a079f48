import NodeSentinel.Agent.Throttle
import NodeSentinel.Agent.Usage

/-!
# The normal of before

The usage of an interval is learned before it is scored.  What an offender is compared with is its
normal of before all the same: a usage that never rises stays below the average of what came before
it, and a spike is not learned while it lasts.
-/

variable {K : Type} [Field K] [LinearOrder K]

/-! ## One reading -/

section Reading

variable {factor alpha u : K} {warmup : ℤ} {a : Avg K} {o : Option (Avg K)}

theorem learnUsage_of_spiking (h : Spiking factor warmup a u) :
    learnUsage factor alpha warmup u (some a) = ⟨a.value, a.samples + 1, false, 0⟩ := by
  rw [learnUsage, if_pos h]

variable [IsStrictOrderedRing K]

theorem learnUsage_pos (h₀ : 0 ≤ alpha) (h₁ : alpha ≤ 1) (hu : 0 < u)
    (ho : ∀ a, o = some a → 0 < a.value) : 0 < (learnUsage factor alpha warmup u o).value := by
  cases o with
  | none => exact hu
  | some a =>
      rw [learnUsage]
      dsimp only
      split_ifs
      · exact ho a rfl
      · exact average_pos h₀ h₁ hu (ho a rfl)

theorem le_learnUsage (h₀ : 0 ≤ alpha) (h₁ : alpha ≤ 1) (ho : ∀ a, o = some a → u ≤ a.value) :
    u ≤ (learnUsage factor alpha warmup u o).value := by
  cases o with
  | none => exact le_rfl
  | some a =>
      rw [learnUsage]
      dsimp only
      split_ifs
      · exact ho a rfl
      · exact le_average h₀ h₁ le_rfl (ho a rfl)

end Reading

namespace Evidence

variable {x : Evidence K}

theorem confidence_eq_zero [IsStrictOrderedRing K] (h : x.changed = 0) : x.confidence = 0 := by
  have hmin : min (min 0 x.magnitude) x.victimSignal ≤ 0 := (min_le_left _ _).trans (min_le_left _ _)
  rw [confidence_eq, h, if_neg (lt_irrefl _), clamp, max_eq_left hmin, min_eq_right zero_le_one]

end Evidence

/-! ## A cgroup that is always read -/

/-- The cgroup is read in every interval, with some usage, and its quota never held it back. -/
structure Watched (is : ℕ → ReportInterval) (resource : Resource) (cg : ℕ) (used : ℕ → ℕ) : Prop where
  read : ∀ n, (cg, used n) ∈ (is n).usage resource
  pos : ∀ n, 0 < used n
  pod : ∀ n, ((is n).res.pod cg).isSome
  unthrottled : resource = .cpu → ∀ m n, m < n → ∀ prev now, (is m).res.cpuStat cg = some prev →
    (is n).res.cpuStat cg = some now → now.nrThrottled ≤ prev.nrThrottled

section Run

variable [FloorSemiring K] [Sqrt K] {srt : SliceSort} {cfg : Config K} {is : ℕ → ReportInterval}
  {resource : Resource} {cg n : ℕ} {used : ℕ → ℕ}

/-- A `cpu.stat` that is kept was read earlier. -/
theorem exists_of_prevThrottle {prev : CPUStat}
    (h : ((newAgent cfg).after srt is n).prevThrottle cg = some prev) :
    ∃ m < n, (is m).res.cpuStat cg = some prev := by
  induction n with
  | zero => cases h
  | succ n ih =>
      rw [after_prevThrottle_succ] at h
      split_ifs at h
      · obtain ⟨_, _, rfl, _, hstat⟩ := mem_listed_of_statRead h
        exact ⟨n, n.lt_succ_self, hstat⟩
      · obtain ⟨m, hm, hstat⟩ := ih h
        exact ⟨m, hm.trans n.lt_succ_self, hstat⟩

theorem evidence_warmup {i : ReportInterval} {u : ℕ} {pod : PodID} :
    (evidence ((newAgent cfg).after srt is n) i resource cg u pod).baseline.warmup =
      cfg.baselineWarmup :=
  (trackUsage_warmup _).trans (after_usage_warmup srt cfg is n)

namespace Watched

variable (hw : Watched is resource cg used)

include hw

/-- The quota says nothing about the cgroup. -/
theorem throttle_eq_zero [CharZero K] (n u : ℕ) (pod : PodID) :
    (evidence ((newAgent cfg).after srt is n) (is n) resource cg u pod).throttle = 0 := by
  cases resource with
  | cpu =>
      show (cpuScores ((newAgent cfg).after srt is n) (is n)).throttle cg = 0
      rw [CPUScores.throttle_eq]
      cases hnow : (cpuScores ((newAgent cfg).after srt is n) (is n)).res.cpuStat cg with
      | none => rfl
      | some now =>
          cases hprev : (cpuScores ((newAgent cfg).after srt is n) (is n)).prevThrottle cg with
          | none => rfl
          | some prev =>
              obtain ⟨m, hm, hstat⟩ := exists_of_prevThrottle hprev
              have hle := hw.unthrottled rfl m n hm prev now hstat hnow
              exact CPUStat.throttledFraction_sub_eq_zero_iff.mpr fun hrise ↦ hle.not_gt hrise.2
  | disk => rfl
  | net => rfl

/-- The row of the cgroup is scored on its usage of the interval. -/
theorem row_confidence {a : Agent K} {x : ℕ × String × K} (h : x ∈ attributions srt a (is n) resource)
    (hx : x.1 = cg) {pod : PodID} (hpod : (is n).res.pod cg = some pod) :
    x.2.2 = (evidence a (is n) resource cg (used n) pod).confidence := by
  subst hx
  obtain ⟨u, hu, hconf⟩ := mem_attributions h
  rw [hconf pod hpod, ReportInterval.usage_unique hu (hw.read n)]

variable [IsStrictOrderedRing K] (h₀ : 0 ≤ cfg.baselineAlpha) (h₁ : cfg.baselineAlpha ≤ 1)

include h₀ h₁

variable (srt) in
/-- What is known of the cgroup when interval `n` scores it: one more reading than intervals have
passed, and a normal that is positive, and not below a usage that never rose. -/
theorem exists_tracked (n : ℕ) :
    ∃ e, (((newAgent cfg).after srt is n).tracked (is n) resource).state cg = some e ∧
      e.samples = n + 1 ∧ 0 < e.value ∧ (Antitone used → (used n : K) ≤ e.value) := by
  rw [Agent.tracked_state (hw.read n)]
  refine ⟨_, rfl, ?_⟩
  rw [learnUsage_samples]
  have hpos : (0 : K) < used n := Nat.cast_pos.mpr (hw.pos n)
  rw [after_usage_alpha, after_usage_warmup]
  induction n with
  | zero =>
      have hnone : (((newAgent cfg).after srt is 0).usage resource).state cg = none := by
        cases resource <;> rfl
      rw [hnone]
      exact ⟨rfl, hpos, fun _ ↦ le_rfl⟩
  | succ n ih =>
      have hprev := Agent.tracked_state (a := (newAgent cfg).after srt is n) (hw.read n)
      rw [Agent.after_succ_usage, hprev, after_usage_alpha, after_usage_warmup]
      obtain ⟨hsamples, hvalue, hle⟩ := ih (Nat.cast_pos.mpr (hw.pos n))
      refine ⟨?_, ?_, fun hanti ↦ ?_⟩
      · rw [Option.elim_some, learnUsage_samples, hsamples]
      · refine learnUsage_pos h₀ h₁ hpos fun e he ↦ ?_
        obtain rfl := Option.some.inj he
        exact hvalue
      · refine le_learnUsage h₀ h₁ fun e he ↦ ?_
        obtain rfl := Option.some.inj he
        exact (Nat.cast_le.mpr (hanti n.le_succ)).trans (hle hanti)

/-- A usage that never rises is no change. -/
theorem changed_eq_zero (hanti : Antitone used) (hwarm : cfg.baselineWarmup ≤ (n + 1 : ℕ))
    (pod : PodID) :
    (evidence ((newAgent cfg).after srt is n) (is n) resource cg (used n) pod).changed = 0 := by
  obtain ⟨e, hs, hsamples, hpos, hle⟩ := hw.exists_tracked srt h₀ h₁ n
  have hratio : (used n / e.value - 1) / 4 ≤ (0 : K) := by
    have hone : (used n : K) / e.value ≤ 1 := (div_le_one hpos).mpr (hle hanti)
    linarith
  rw [Evidence.changed_of_throttle (hw.throttle_eq_zero n (used n) pod),
    Evidence.deviated_of_state hs (by rw [evidence_warmup, hsamples]; exact hwarm) hpos, clamp]
  show min 1 (max 0 ((used n / e.value - 1) / 4)) = (0 : K)
  rw [max_eq_left hratio, min_eq_right zero_le_one]

/-- While a cgroup spikes, its entry only counts the readings. -/
theorem tracked_of_spike {s m : ℕ} {e : Avg K}
    (he : (((newAgent cfg).after srt is s).usage resource).state cg = some e)
    (hwarm : cfg.baselineWarmup ≤ e.samples) (hsm : s ≤ m)
    (hspike : ∀ k, s ≤ k → k ≤ m → cfg.deviationFactor * e.value ≤ used k) :
    ∃ e', (((newAgent cfg).after srt is m).tracked (is m) resource).state cg = some e' ∧
      e'.value = e.value ∧ cfg.baselineWarmup ≤ e'.samples ∧ 0 < e.value := by
  have hpos : 0 < e.value := by
    cases s with
    | zero => cases resource <;> cases he
    | succ s =>
        obtain ⟨e', he', -, hpos, -⟩ := hw.exists_tracked srt h₀ h₁ s
        rw [Agent.after_succ_usage, he'] at he
        rwa [← Option.some.inj he]
  -- an entry of that value is frozen by a reading of the spike
  have hfreeze : ∀ k, s ≤ k → k ≤ m → ∀ e', e'.value = e.value → cfg.baselineWarmup ≤ e'.samples →
      (((newAgent cfg).after srt is k).usage resource).state cg = some e' →
      (((newAgent cfg).after srt is k).tracked (is k) resource).state cg =
        some ⟨e.value, e'.samples + 1, false, 0⟩ := by
    intro k hsk hkm e' hvalue hready hstate
    have hspiking : Spiking cfg.deviationFactor cfg.baselineWarmup e' (used k : K) := by
      refine ⟨hready, hvalue ▸ hpos, ?_⟩
      rw [hvalue, le_div_iff₀ hpos]
      exact hspike k hsk hkm
    rw [Agent.tracked_state (hw.read k), hstate, after_usage_alpha, after_usage_warmup,
      Agent.after_cfg]
    exact congrArg some ((learnUsage_of_spiking hspiking).trans (by rw [hvalue]))
  induction m, hsm using Nat.le_induction with
  | base =>
      refine ⟨_, hfreeze s le_rfl le_rfl e rfl hwarm he, rfl, hwarm.trans ?_, hpos⟩
      exact Int.ofNat_le.mpr (Nat.le_succ _)
  | succ m hsm ih =>
      obtain ⟨e', hstate, hvalue, hready, -⟩ := ih
        (fun k hsk hkm ↦ hspike k hsk (hkm.trans m.le_succ))
        (fun k hsk hkm ↦ hfreeze k hsk (hkm.trans m.le_succ))
      rw [← Agent.after_succ_usage] at hstate
      refine ⟨_, hfreeze (m + 1) (hsm.trans m.le_succ) le_rfl e' hvalue hready hstate, rfl,
        hready.trans ?_, hpos⟩
      exact Int.ofNat_le.mpr (Nat.le_succ _)

/-- During a spike the usage is compared with the normal of before. -/
theorem changed_of_spike {s m : ℕ} {e : Avg K}
    (he : (((newAgent cfg).after srt is s).usage resource).state cg = some e)
    (hwarm : cfg.baselineWarmup ≤ e.samples) (hsm : s ≤ m)
    (hspike : ∀ k, s ≤ k → k ≤ m → cfg.deviationFactor * e.value ≤ used k) (pod : PodID) :
    (evidence ((newAgent cfg).after srt is m) (is m) resource cg (used m) pod).changed =
      min 1 (max 0 ((used m / e.value - 1) / 4)) := by
  obtain ⟨e', hstate, hvalue, hready, hpos⟩ := hw.tracked_of_spike h₀ h₁ he hwarm hsm hspike
  rw [Evidence.changed_of_throttle (hw.throttle_eq_zero m (used m) pod),
    Evidence.deviated_of_state hstate ?_ (hvalue ▸ hpos), hvalue]
  · rfl
  · rw [evidence_warmup]
    exact hready

end Watched

/-- Offenders are judged against their own normal of before: a cgroup that never uses more than in
the interval before is not confident from its `BaselineWarmup`-th reading on, and a spike is compared
with what was learned before it, however long it lasts. -/
theorem judged_against_normal (srt : SliceSort) (cfg : Config K) (is : ℕ → ReportInterval)
    (resource : Resource) (cg : ℕ) (used : ℕ → ℕ) [IsStrictOrderedRing K]
    (h₀ : 0 < cfg.baselineAlpha) (h₁ : cfg.baselineAlpha ≤ 1)
    (hw : Watched is resource cg used) :
    (Antitone used → ∀ n, cfg.baselineWarmup ≤ (n + 1 : ℕ) →
      ∀ x ∈ attributions srt ((newAgent cfg).after srt is n) (is n) resource, x.1 = cg →
        x.2.2 = 0) ∧
    ∀ s e, (((newAgent cfg).after srt is s).usage resource).state cg = some e →
      cfg.baselineWarmup ≤ e.samples → ∀ m ≥ s,
        (∀ k, s ≤ k → k ≤ m → cfg.deviationFactor * e.value ≤ used k) →
          (∃ e', (((newAgent cfg).after srt is (m + 1)).usage resource).state cg = some e' ∧
            e'.value = e.value) ∧
          ∀ pod, (is m).res.pod cg = some pod →
            (evidence ((newAgent cfg).after srt is m) (is m) resource cg (used m) pod).changed =
              min 1 (max 0 ((used m / e.value - 1) / 4)) ∧
            ∀ x ∈ attributions srt ((newAgent cfg).after srt is m) (is m) resource, x.1 = cg →
              x.2.2 = (evidence ((newAgent cfg).after srt is m) (is m) resource cg (used m)
                pod).confidence := by
  refine ⟨fun hanti n hwarm x hx hcg ↦ ?_, fun s e he hwarm m hsm hspike ↦ ⟨?_, fun pod hpod ↦ ?_⟩⟩
  · obtain ⟨pod, hpod⟩ := Option.isSome_iff_exists.mp (hw.pod n)
    rw [hw.row_confidence hx hcg hpod]
    exact Evidence.confidence_eq_zero (hw.changed_eq_zero h₀.le h₁ hanti hwarm pod)
  · obtain ⟨e', hstate, hvalue, -, -⟩ := hw.tracked_of_spike h₀.le h₁ he hwarm hsm hspike
    rw [← Agent.after_succ_usage] at hstate
    exact ⟨e', hstate, hvalue⟩
  · refine ⟨hw.changed_of_spike h₀.le h₁ he hwarm hsm hspike pod, fun x hx hcg ↦ ?_⟩
    exact hw.row_confidence hx hcg hpod

end Run

/-! ## A sender that bursts -/

/-- What it sends: 100 bytes an interval, and 900 from the fourth on. -/
def burstBytes (n : ℕ) : ℕ := if n < 3 then 100 else 900

/-- Cgroup 1 is the sender; cgroup 2 is harmed in every interval. -/
def burstingSender (n : ℕ) : ReportInterval where
  cpu := []
  runq := []
  blkio := []
  network := [⟨1, 0, burstBytes n, 1000⟩, ⟨2, 20, 100, 1000⟩]
  timeline := []
  res := .steady (fun cg ↦ if cg = 1 then some (webPod "a") else none) fun _ ↦ none
  network_nodup := by
    show [1, 2].Nodup
    decide

theorem burstingSender_watched : Watched burstingSender .net 1 burstBytes where
  read n := .head _
  pos n := by
    unfold burstBytes
    split_ifs <;> norm_num
  pod n := rfl
  unthrottled h := nomatch h

/-- Its burst is compared with 100 bytes in every interval of it. -/
theorem burstingSender_judged : Watched burstingSender .net 1 burstBytes ∧ ∀ m ≥ 3,
    (∃ e, (((newAgent (defaultConfig ℚ)).after .insertion burstingSender (m + 1)).usage .net).state 1 =
      some e ∧ e.value = 100) ∧
    (evidence ((newAgent (defaultConfig ℚ)).after .insertion burstingSender m) (burstingSender m) .net 1
      (burstBytes m) (webPod "a")).changed = 1 := by
  refine ⟨burstingSender_watched, fun m hm ↦ ?_⟩
  have he : (((newAgent (defaultConfig ℚ)).after .insertion burstingSender 3).usage .net).state 1 =
      some ⟨100, 3, false, 0⟩ := by decide +kernel
  have hbytes : ∀ k, 3 ≤ k → burstBytes k = 900 := fun k hk ↦ if_neg hk.not_gt
  obtain ⟨hvalue, hchanged⟩ := (judged_against_normal .insertion (defaultConfig ℚ) burstingSender .net 1
    burstBytes (by norm_num [defaultConfig]) (by norm_num [defaultConfig]) burstingSender_watched).2 3
    _ he le_rfl m hm fun k hk _ ↦ by
      rw [hbytes k hk]
      norm_num [defaultConfig]
  refine ⟨hvalue, (hchanged (webPod "a") rfl).1.trans ?_⟩
  rw [hbytes m hm]
  norm_num
