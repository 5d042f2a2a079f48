import NodeSentinel.Agent.Normal
import NodeSentinel.Agent.Sustained
import NodeSentinel.Data.Learning

/-!
# What grows slowly

The agent learns the normal of a cgroup from the values that it judges.  A usage or a rate that
grows slowly enough is learned as fast as it grows: it is never unusual, and never accused, however
large it becomes.  One that grows faster is found out in the end.
-/

variable {K : Type} [Field K] [LinearOrder K]

/-- Up to this growth from each interval to the next a normal can follow. -/
def Config.creep (cfg : Config K) : K := 1 + cfg.baselineAlpha * (cfg.deviationFactor - 1)

/-- Up to this growth within any `k` intervals a normal can follow. -/
def Config.creepWithin (cfg : Config K) (k : ℕ) : K :=
  cfg.deviationFactor - (cfg.deviationFactor - 1) * (1 - cfg.baselineAlpha) ^ k

omit [LinearOrder K] in
/-- For a single interval it is the same. -/
theorem Config.creepWithin_one (cfg : Config K) : cfg.creepWithin 1 = cfg.creep := by
  rw [creepWithin, creep]
  ring

/-! ## Usage -/

section Usage

variable [FloorSemiring K] [Sqrt K] {srt : SliceSort} {cfg : Config K} {is : ℕ → ReportInterval}
  {resource : Resource} {cg : ℕ} {used : ℕ → ℕ}

omit [Field K] [LinearOrder K] [FloorSemiring K] [Sqrt K] in
theorem Baseline.learned_of_state {b : Baseline K} {key : ℕ} {e : Avg K} (h : b.state key = some e) :
    b.learned key = some e.value := by rw [learned, h, Option.map_some]

variable (srt cfg is resource cg) in
/-- What has been learned of the usage of a cgroup before interval `n`. -/
def learnedUsage (n : ℕ) : K :=
  ((((newAgent cfg).after srt is n).usage resource).learned cg).getD 0

variable [IsStrictOrderedRing K]

namespace Watched

variable (hw : Watched is resource cg used) (h₀ : 0 ≤ cfg.baselineAlpha) (h₁ : cfg.baselineAlpha ≤ 1)

include hw h₀ h₁

variable (srt) in
/-- The entry of the cgroup before interval `n + 1`. -/
theorem exists_entry (n : ℕ) : ∃ e,
    (((newAgent cfg).after srt is (n + 1)).usage resource).state cg = some e ∧
      e.samples = n + 1 ∧ 0 < e.value ∧ learnedUsage srt cfg is resource cg (n + 1) = e.value := by
  obtain ⟨e, he, hsamples, hpos, -⟩ := hw.exists_tracked srt h₀ h₁ n
  rw [← Agent.after_succ_usage] at he
  refine ⟨e, he, hsamples, hpos, ?_⟩
  rw [learnedUsage, Baseline.learned_of_state he, Option.getD_some]

variable (srt) in
/-- The usage of the cgroup is learned. -/
theorem learning : Learning cfg.baselineAlpha cfg.deviationFactor 0 cfg.baselineWarmup.toNat
    (fun n ↦ (used n : K)) (learnedUsage srt cfg is resource cg) := by
  have hnext : ∀ n, learnedUsage srt cfg is resource cg (n + 1) =
      (learnUsage cfg.deviationFactor cfg.baselineAlpha cfg.baselineWarmup (used n : K)
        ((((newAgent cfg).after srt is n).usage resource).state cg)).value := fun n ↦ by
    have hstate := Agent.tracked_state (a := (newAgent cfg).after srt is n) (hw.read n)
    rw [← Agent.after_succ_usage, after_usage_alpha, after_usage_warmup, Agent.after_cfg] at hstate
    rw [learnedUsage, Baseline.learned_of_state hstate, Option.getD_some]
    rfl
  have hspiking : ∀ n, 1 ≤ n → ∃ e,
      (((newAgent cfg).after srt is n).usage resource).state cg = some e ∧
        learnedUsage srt cfg is resource cg n = e.value ∧
        (Spiking cfg.deviationFactor cfg.baselineWarmup e (used n : K) ↔
          Unusual cfg.deviationFactor 0 cfg.baselineWarmup.toNat (fun n ↦ (used n : K))
            (learnedUsage srt cfg is resource cg) n) := by
    intro n hn
    obtain ⟨m, rfl⟩ := Nat.exists_eq_add_of_le' hn
    obtain ⟨e, he, hsamples, hpos, hvalue⟩ := hw.exists_entry srt h₀ h₁ m
    refine ⟨e, he, hvalue, fun hs ↦ ?_, fun hu ↦ ?_⟩
    · refine ⟨Int.toNat_le.mpr (hsamples ▸ hs.1), Nat.cast_nonneg _, ?_⟩
      rw [hvalue]
      exact (le_div_iff₀ hpos).mp hs.2.2
    · refine ⟨hsamples ▸ Int.toNat_le.mp hu.warm, hpos, (le_div_iff₀ hpos).mpr ?_⟩
      rw [← hvalue]
      exact hu.factor_le
  refine ⟨?_, fun n hn hu ↦ ?_, fun n hn hu ↦ ?_⟩
  · rw [hnext 0]
    have hnone : (((newAgent cfg).after srt is 0).usage resource).state cg = none := by
      cases resource
      · rfl
      · rfl
      · rfl
    rw [hnone]
    rfl
  · obtain ⟨e, he, hvalue, hiff⟩ := hspiking n hn
    rw [hnext, he, hvalue, learnUsage_of_spiking (hiff.mpr hu)]
  · obtain ⟨e, he, hvalue, hiff⟩ := hspiking n hn
    rw [hnext, he, hvalue, learnUsage, if_neg fun hs ↦ hu (hiff.mp hs)]

/-- What an interval accuses the cgroup of, once its normal is known. -/
theorem changed_eq {n : ℕ} (hwarm : cfg.baselineWarmup ≤ (n + 1 : ℕ)) (pod : PodID) :
    (evidence ((newAgent cfg).after srt is n) (is n) resource cg (used n) pod).changed =
      clamp ((used n / learnedUsage srt cfg is resource cg (n + 1) - 1) / 4) 0 1 := by
  obtain ⟨e, he, hsamples, hpos, hvalue⟩ := hw.exists_entry srt h₀ h₁ n
  rw [Agent.after_succ_usage] at he
  rw [Evidence.changed_of_throttle (hw.throttle_eq_zero n (used n) pod),
    Evidence.deviated_of_state he (by rw [evidence_warmup, hsamples]; exact hwarm) hpos, hvalue]
  rfl

end Watched

omit [FloorSemiring K] [Sqrt K] in
/-- A confidence is bounded by the change. -/
theorem Evidence.confidence_le (x : Evidence K) : x.confidence ≤ max 0 x.changed := by
  rw [confidence_eq]
  split_ifs
  · exact (neg_one_lt_zero.le).trans (le_max_left _ _)
  · exact (min_le_right _ _).trans
      (max_le_max_left _ ((min_le_left _ _).trans (min_le_left _ _)))

omit [Sqrt K] in
theorem archimedean_of_floorSemiring : Archimedean K :=
  archimedean_iff_nat_lt.mpr fun x ↦ ⟨⌊x⌋₊ + 1, by exact_mod_cast Nat.lt_floor_add_one x⟩

/-- How fast a usage has to grow to be noticed.  Where it grows within any `k` intervals by less
than the normal can follow, its confidence stays below a bound that depends on the tuning only,
however large the usage becomes and whatever harm is done.  Where it grows in every interval by more
than the normal can follow, it counts as changed in full from some interval on. -/
theorem creepingUsage_confidence (srt : SliceSort) (cfg : Config K) (is : ℕ → ReportInterval)
    (resource : Resource) (cg : ℕ) (used : ℕ → ℕ) (h₀ : 0 ≤ cfg.baselineAlpha)
    (h₁ : cfg.baselineAlpha ≤ 1) (hfactor : 1 ≤ cfg.deviationFactor)
    (hw : Watched is resource cg used) :
    (∀ c k, 1 ≤ k → c < cfg.creepWithin k → Creeps c k (fun n ↦ (used n : K)) →
      ∀ n, cfg.baselineWarmup ≤ (n + 1 : ℕ) →
        ∀ x ∈ attributions srt ((newAgent cfg).after srt is n) (is n) resource, x.1 = cg →
          x.2.2 ≤ max 0 ((cfg.deviationFactor / cfg.creep - 1) / 4)) ∧
    ∀ q, cfg.creep < q → (∀ n, q * used n ≤ used (n + 1)) → ∃ N, ∀ n ≥ N, ∀ pod,
      (evidence ((newAgent cfg).after srt is n) (is n) resource cg (used n) pod).changed = 1 := by
  have hpos : ∀ n, (0 : K) < used n := fun n ↦ Nat.cast_pos.mpr (hw.pos n)
  have hlearning := hw.learning srt h₀ h₁
  have hcreep : 0 < cfg.creep := zero_lt_one.trans_le
    (le_add_of_nonneg_right (mul_nonneg h₀ (sub_nonneg.mpr hfactor)))
  constructor
  · intro c k hk hc hcreeps n hwarm x hx hcg
    obtain ⟨pod, hpod⟩ := Option.isSome_iff_exists.mp (hw.pod n)
    rw [hw.row_confidence hx hcg hpod]
    refine (Evidence.confidence_le _).trans (max_le (le_max_left _ _) ?_)
    rw [hw.changed_eq h₀ h₁ hwarm pod]
    have hle := hlearning.mul_le_of_creeps h₀ h₁ hpos hfactor hk hcreeps hc n
    have hratio : used n / learnedUsage srt cfg is resource cg (n + 1) ≤
        cfg.deviationFactor / cfg.creep := by
      rw [div_le_div_iff₀ (hlearning.pos h₀ h₁ hpos n.succ_pos) hcreep, mul_comm]
      exact hle
    exact (min_le_right _ _).trans (max_le_max_left _ (by linarith))
  · intro q hq hgrows
    have harch : Archimedean K := archimedean_of_floorSemiring
    obtain ⟨N, hN⟩ := hlearning.unusual_of_grows h₀ h₁ hpos hfactor hgrows hq 5
    refine ⟨N + 1, fun n hn pod ↦ ?_⟩
    obtain ⟨hu, hfar⟩ := hN n (by omega)
    have hn₁ : 1 ≤ n := by omega
    have hnormal := hlearning.pos h₀ h₁ hpos hn₁
    have hwarm : cfg.baselineWarmup ≤ (n + 1 : ℕ) :=
      (Int.toNat_le.mp hu.warm).trans (Int.ofNat_le.mpr n.le_succ)
    have hratio : 5 ≤ used n / learnedUsage srt cfg is resource cg n :=
      (le_div_iff₀ hnormal).mpr hfar
    rw [hw.changed_eq h₀ h₁ hwarm pod, hlearning.freeze n hn₁ hu, clamp]
    exact min_eq_left (le_max_of_le_right (by linarith))

/-! ### Two senders -/

/-- Cgroup 1 sends as told; cgroup 2 is harmed in every interval. -/
def growingSender (bytes : ℕ → ℕ) (n : ℕ) : ReportInterval where
  cpu := []
  runq := []
  blkio := []
  network := [⟨1, 0, bytes n, 1000⟩, ⟨2, 20, 100, 1000⟩]
  timeline := []
  res := .steady (fun cg ↦ if cg = 1 then some (webPod "a") else none) fun _ ↦ none
  network_nodup := by
    show [1, 2].Nodup
    decide

theorem growingSender_watched {bytes : ℕ → ℕ} (h : ∀ n, 0 < bytes n) :
    Watched (growingSender bytes) .net 1 bytes where
  read _ := .head _
  pos := h
  pod _ := rfl
  unthrottled h := nomatch h

/-- The one that sends a byte more every time is never accused; the one that doubles what it sends
is found out. -/
theorem growingSender_confidence :
    (∀ n ≥ 2, ∀ x ∈ attributions .insertion
      ((newAgent (defaultConfig ℚ)).after .insertion (growingSender (100 + ·)) n)
      (growingSender (100 + ·) n) .net, x.1 = 1 → x.2.2 ≤ 17 / 52) ∧
    ∃ N, ∀ n ≥ N, ∀ pod, (evidence
      ((newAgent (defaultConfig ℚ)).after .insertion (growingSender (2 ^ ·)) n)
      (growingSender (2 ^ ·) n) .net 1 (2 ^ n) pod).changed = 1 := by
  have hα : 0 ≤ (defaultConfig ℚ).baselineAlpha ∧ (defaultConfig ℚ).baselineAlpha ≤ 1 ∧
      1 ≤ (defaultConfig ℚ).deviationFactor := by norm_num [defaultConfig]
  constructor
  · intro n hn x hx hcg
    have hslow : (101 / 100 : ℚ) < (defaultConfig ℚ).creepWithin 1 := by
      rw [Config.creepWithin_one]
      norm_num [Config.creep, defaultConfig]
    have hcreeps : Creeps (101 / 100 : ℚ) 1 fun n ↦ ((100 + n : ℕ) : ℚ) := by
      intro m n hmn hnm
      have hle : (n : ℚ) ≤ m + 1 := by exact_mod_cast hnm
      push_cast
      linarith [(Nat.cast_nonneg m : (0 : ℚ) ≤ m)]
    have hwarm : (defaultConfig ℚ).baselineWarmup ≤ (n + 1 : ℕ) :=
      show (3 : ℤ) ≤ (n + 1 : ℕ) by omega
    refine ((creepingUsage_confidence .insertion (defaultConfig ℚ) (growingSender (100 + ·)) .net 1
      (100 + ·) hα.1 hα.2.1 hα.2.2 (growingSender_watched fun n ↦ by omega)).1 _ 1 le_rfl hslow
      hcreeps n hwarm x hx hcg).trans ?_
    norm_num [Config.creep, defaultConfig]
  · refine (creepingUsage_confidence .insertion (defaultConfig ℚ) (growingSender (2 ^ ·)) .net 1
      (2 ^ ·) hα.1 hα.2.1 hα.2.2 (growingSender_watched fun n ↦ by positivity)).2 2 ?_ fun n ↦ ?_
    · norm_num [Config.creep, defaultConfig]
    · push_cast
      rw [pow_succ, mul_comm]

end Usage

/-! ## Victims -/

section Values

variable {cfg : Config K} {floor value : K} {cg : ℕ} [IsStrictOrderedRing K]

/-- A value is kept from the normal if it is unusual for it. -/
theorem judgeVictim_unusual_iff {b : Baseline K} {e : Avg K} (hs : b.state cg = some e)
    (hpos : 0 < e.value) : ((b.deviation cg value).isSome &&
      (judgeVictim cfg b floor cg value).1.isVictim) = true ↔
        b.warmup ≤ e.samples ∧ floor ≤ value ∧ cfg.deviationFactor * e.value ≤ value := by
  by_cases hwarm : b.warmup ≤ e.samples
  · have hdev : b.deviation cg value = some (value / e.value) :=
      Baseline.deviation_eq_some_iff.mpr ⟨e, hs, hwarm, hpos, rfl⟩
    by_cases hlow : value / e.value < cfg.deviationFactor
    · have hlt := (div_lt_iff₀ hpos).mp hlow
      simp [judgeVictim, hdev, hlow, hlt]
    · have hle := (le_div_iff₀ hpos).mp (not_lt.mp hlow)
      simp [judgeVictim, hdev, hlow, hwarm, hle]
  · have hdev : b.deviation cg value = none :=
      Option.eq_none_iff_forall_ne_some.mpr fun ratio hratio ↦ by
        obtain ⟨e', he', hwarm', -⟩ := Baseline.deviation_eq_some_iff.mp hratio
        obtain rfl := Option.some.inj (hs.symm.trans he')
        exact hwarm hwarm'
    simp [hdev, hwarm]

variable {b : ℕ → Baseline K} {x : ℕ → K}

/-- What has been learned of a cgroup before interval `n`. -/
def learnedValue (b : ℕ → Baseline K) (cg n : ℕ) : K := ((b n).learned cg).getD 0

namespace Shows

variable (h : Shows cfg floor cg (fun n ↦ some (x n)) b)

include h

omit [IsStrictOrderedRing K] in
/-- The entry after an interval. -/
theorem state_succ (n : ℕ) : (b (n + 1)).state cg = some (match (b n).state cg with
    | none => ⟨x n, 1, false, 0⟩
    | some e => { e.observe cfg.baselineAlpha (x n)
        !(((b n).deviation cg (x n)).isSome && (judgeVictim cfg (b n) floor cg (x n)).1.isVictim)
      with touched := false }) := by
  rw [h.shown rfl, ← h.alpha n]
  exact Baseline.prune_observe_state _

variable (h₀ : 0 ≤ cfg.baselineAlpha) (h₁ : cfg.baselineAlpha ≤ 1)

include h₀ h₁

theorem exists_entry (n : ℕ) : ∃ e, (b (n + 1)).state cg = some e ∧ e.samples = n + 1 ∧
    0 < e.value ∧ learnedValue b cg (n + 1) = e.value := by
  have hentry : ∃ e, (b (n + 1)).state cg = some e ∧ e.samples = n + 1 ∧ 0 < e.value := by
    induction n with
    | zero =>
        refine ⟨⟨x 0, 1, false, 0⟩, ?_, rfl, h.pos rfl⟩
        rw [h.state_succ, h.start]
    | succ n ih =>
        obtain ⟨e, he, hsamples, hpos⟩ := ih
        have hnext := h.state_succ (n + 1)
        rw [he] at hnext
        refine ⟨_, hnext, congrArg Nat.succ hsamples, ?_⟩
        dsimp only [Avg.observe]
        split_ifs
        · exact average_pos h₀ h₁ (h.pos rfl) hpos
        · exact hpos
  obtain ⟨e, he, hsamples, hpos⟩ := hentry
  refine ⟨e, he, hsamples, hpos, ?_⟩
  rw [learnedValue, Baseline.learned_of_state he, Option.getD_some]

/-- What keeps a value from the normal. -/
theorem unusual_iff {n : ℕ} (hn : 1 ≤ n) : (((b n).deviation cg (x n)).isSome &&
    (judgeVictim cfg (b n) floor cg (x n)).1.isVictim) = true ↔
      Unusual cfg.deviationFactor floor cfg.baselineWarmup.toNat x (learnedValue b cg) n := by
  obtain ⟨m, rfl⟩ := Nat.exists_eq_add_of_le' hn
  obtain ⟨e, he, hsamples, hpos, hvalue⟩ := h.exists_entry h₀ h₁ m
  rw [judgeVictim_unusual_iff he hpos, h.warmup, hsamples, ← hvalue]
  exact ⟨fun ⟨hw, hf, hd⟩ ↦ ⟨Int.toNat_le.mpr hw, hf, hd⟩,
    fun hu ↦ ⟨Int.toNat_le.mp hu.warm, hu.floor_le, hu.factor_le⟩⟩

/-- The values of the cgroup are learned. -/
theorem learning : Learning cfg.baselineAlpha cfg.deviationFactor floor
    cfg.baselineWarmup.toNat x (learnedValue b cg) := by
  have hnext : ∀ n, 1 ≤ n → learnedValue b cg (n + 1) =
      if !(((b n).deviation cg (x n)).isSome &&
          (judgeVictim cfg (b n) floor cg (x n)).1.isVictim) then
        cfg.baselineAlpha * x n + (1 - cfg.baselineAlpha) * learnedValue b cg n
      else learnedValue b cg n := by
    intro n hn
    obtain ⟨m, rfl⟩ := Nat.exists_eq_add_of_le' hn
    obtain ⟨e, he, -, -, hvalue⟩ := h.exists_entry h₀ h₁ m
    have hstate := h.state_succ (m + 1)
    rw [he] at hstate
    rw [hvalue, learnedValue, Baseline.learned_of_state hstate, Option.getD_some]
    rfl
  refine ⟨?_, fun n hn hu ↦ ?_, fun n hn hu ↦ ?_⟩
  · have hstate := h.state_succ 0
    rw [h.start] at hstate
    rw [learnedValue, Baseline.learned_of_state hstate, Option.getD_some]
  · rw [hnext n hn, (h.unusual_iff h₀ h₁ hn).mpr hu]
    rfl
  · rw [hnext n hn, Bool.eq_false_iff.mpr fun hb ↦ hu ((h.unusual_iff h₀ h₁ hn).mp hb)]
    rfl

/-- A value that creeps is not judged a victim once its normal is known. -/
theorem isVictim_eq_false (hfactor : 1 ≤ cfg.deviationFactor) {c : K} {k : ℕ} (hk : 1 ≤ k)
    (hc : c < cfg.creepWithin k) (hcreeps : Creeps c k x) {n : ℕ} (hn : 1 ≤ n)
    (hwarm : cfg.baselineWarmup ≤ n) :
    (judgeVictim cfg (b n) floor cg (x n)).1.isVictim = false := by
  refine Bool.eq_false_iff.mpr fun hvictim ↦ ?_
  have hlt := (h.learning h₀ h₁).lt_of_creeps h₀ h₁ (fun _ ↦ h.pos rfl) hfactor hk hcreeps hc hn
  obtain ⟨m, rfl⟩ := Nat.exists_eq_add_of_le' hn
  obtain ⟨e, he, hsamples, hpos, -⟩ := h.exists_entry h₀ h₁ m
  have hdev : (b (m + 1)).deviation cg (x (m + 1)) = some (x (m + 1) / e.value) := by
    refine Baseline.deviation_eq_some_iff.mpr ⟨e, he, ?_, hpos, rfl⟩
    rw [h.warmup, hsamples]
    exact hwarm
  refine hlt.not_ge ((h.unusual_iff h₀ h₁ hn).mp ?_).factor_le
  rw [hdev, hvictim]
  rfl

end Shows

/-! ### The three passes -/

omit [IsStrictOrderedRing K] in
/-- A reading that is not judged a victim leaves its cgroup out of the victims. -/
theorem Dimension.notMem_ids {ρ σ : Type} {d : Dimension K ρ σ} {b : Baseline K} {rs : List ρ} {r : ρ}
    (hnd : (rs.map d.cgroup).Nodup) (hr : r ∈ rs) (hj : d.judged cfg b r = none) :
    d.cgroup r ∉ (d.scan cfg b rs).ids := by
  have hids : (d.scan cfg b rs).ids = _ := (foldl_step hnd fun _ _ ↦ .refl b _).2
  rw [hids, List.nil_append, List.mem_filterMap]
  rintro ⟨r', hr', hmap⟩
  obtain ⟨p, hp, hcg⟩ := Option.map_eq_some_iff.mp hmap
  obtain rfl := List.inj_on_of_nodup_map hnd hr' hr hcg
  rw [hj] at hp
  cases hp

theorem Passes.creeping {ρ σ : Type} {d : ℕ → Dimension K ρ σ} {rs : ℕ → List ρ} {r : ℕ → ρ}
    (h : Passes cfg floor cg d rs r b) (hv : ∀ n, (d n).value (r n) = some (x n))
    (hpos : ∀ n, 0 < x n) (h₀ : 0 ≤ cfg.baselineAlpha) (h₁ : cfg.baselineAlpha ≤ 1)
    (hfactor : 1 ≤ cfg.deviationFactor) {c : K} {k : ℕ} (hk : 1 ≤ k) (hc : c < cfg.creepWithin k)
    (hcreeps : Creeps c k x) {n : ℕ} (hn : 1 ≤ n) (hwarm : cfg.baselineWarmup ≤ n) :
    cg ∉ ((d n).scan cfg (b n) (rs n)).ids := by
  have hshows : Shows cfg floor cg (fun n ↦ some (x n)) b := by
    have hs := h.shows fun {n value} hn ↦ by
      obtain rfl := Option.some.inj ((hv n).symm.trans hn)
      exact hpos n
    rwa [funext hv] at hs
  have hnot := hshows.isVictim_eq_false h₀ h₁ hfactor hk hc hcreeps hn hwarm
  rw [← h.cgroup n, ← h.floor_eq n] at hnot
  rw [← h.cgroup n]
  refine Dimension.notMem_ids (h.nodup n) (h.mem n) ?_
  simp [Dimension.judged, hv, hnot]

end Values

section Unnoticed

variable [IsStrictOrderedRing K] [FloorSemiring K] [Sqrt K]

end Unnoticed

/-! ### A latency that doubles every five intervals -/

/-- The slot of the latency, up to one and a half seconds. -/
def climbingSlot (n : ℕ) : ℕ := min (n / 5) 20

theorem climbing_percentile (n : ℕ) :
    (percentile (List.replicate (climbingSlot n) 0 ++ [100]) 99 : ℚ) =
      3 / 2 * 2 ^ climbingSlot n := by
  have hslots : ∀ s < 21, (percentile (List.replicate s 0 ++ [100]) 99 : ℚ) = 3 / 2 * 2 ^ s := by
    decide +kernel
  exact hslots _ (Nat.lt_succ_of_le (min_le_right _ _))

theorem climbing_creeps : Creeps (2 : ℚ) 5 fun n ↦
    percentile (List.replicate (climbingSlot n) 0 ++ [100]) 99 := by
  intro m n hmn hnm
  have hslot : climbingSlot n ≤ climbingSlot m + 1 := by
    unfold climbingSlot
    omega
  dsimp only
  rw [climbing_percentile, climbing_percentile]
  have hpow := pow_le_pow_right₀ (one_le_two : (1 : ℚ) ≤ 2) hslot
  rw [pow_succ] at hpow
  linarith
