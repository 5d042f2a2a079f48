import NodeSentinel.Controller.Attribution

/-!
# What a cgroup is accused of

The loops that score offenders ask `offenderConfidence` about a cgroup: how its usage compares with
what was learned of it, how large its share is, and how much harm there is.  `Evidence` holds what
they pass.  The three dimensions differ in little: only for the CPU is there a request to fall back
to, and a `cpu.stat`.
-/

variable {K : Type} [Field K] [LinearOrder K]

/-! ## Evidence -/

/-- The arguments of `offenderConfidence`. -/
structure Evidence (K : Type) where
  baseline : Baseline K
  cgroup : ℕ
  usage : K
  sharePct : K
  victimSignal : K
  fallback : K
  throttle : K

namespace Evidence

variable (x : Evidence K)

/-- How big the cgroup is. -/
def magnitude : K := clamp (x.sharePct / 100 / (1 / 4)) 0 1

/-- How much its usage changed, where that is known. -/
def deviated : K :=
  match x.baseline.deviation x.cgroup x.usage with
  | some ratio => clamp ((ratio - 1) / 4) 0 1
  | none => x.fallback

/-- How much it changed; negative where nothing can be said. -/
def changed : K := if x.throttle > 0 then max x.deviated (clamp x.throttle 0 1) else x.deviated

/-- The confidence in the accusation. -/
def confidence : K :=
  offenderConfidence x.baseline x.cgroup x.usage x.sharePct x.victimSignal x.fallback x.throttle

theorem confidence_eq : x.confidence =
    if x.changed < 0 then -1 else clamp (min (min x.changed x.magnitude) x.victimSignal) 0 1 := rfl

variable {x}

theorem changed_of_throttle (h : x.throttle = 0) : x.changed = x.deviated := by
  rw [changed, if_neg h.not_gt]

/-- What changed, where a normal is known. -/
theorem deviated_of_state {a : Avg K} (hs : x.baseline.state x.cgroup = some a)
    (hwarm : x.baseline.warmup ≤ a.samples) (hpos : 0 < a.value) :
    x.deviated = clamp ((x.usage / a.value - 1) / 4) 0 1 := by
  rw [deviated, Baseline.deviation_eq_some_iff.mpr ⟨a, hs, hwarm, hpos, rfl⟩]

/-- What has not been observed often enough, or never with some usage, leaves the fallback. -/
theorem deviated_of_not {a : Avg K} (hs : x.baseline.state x.cgroup = some a)
    (h : ¬ (x.baseline.warmup ≤ a.samples ∧ 0 < a.value)) : x.deviated = x.fallback := by
  have hnone : x.baseline.deviation x.cgroup x.usage = none := by
    refine Option.eq_none_iff_forall_ne_some.mpr fun ratio hratio ↦ h ?_
    obtain ⟨a', ha', hwarm, hpos, -⟩ := Baseline.deviation_eq_some_iff.mp hratio
    obtain rfl := Option.some.inj (hs.symm.trans ha')
    exact ⟨hwarm, hpos⟩
  rw [deviated, hnone]

end Evidence

/-! ## The usage of an interval -/

/-- The usage that is read in a dimension, by cgroup. -/
def ReportInterval.usage (i : ReportInterval) : Resource → List (ℕ × ℕ)
  | .cpu => i.cpu.map fun r ↦ (r.cgroupID, r.onCpuNs)
  | .disk => i.blkio.map fun r ↦ (r.cgroupID, r.bytes)
  | .net => i.network.map fun r ↦ (r.cgroupID, r.txBytes)

/-- What the agent has learned of it. -/
def Agent.usage (a : Agent K) : Resource → Baseline K
  | .cpu => a.cpuUsage
  | .disk => a.ioUsage
  | .net => a.netUsage

theorem ReportInterval.usage_nodup (i : ReportInterval) (resource : Resource) :
    ((i.usage resource).map Prod.fst).Nodup := by
  cases resource with
  | cpu =>
      rw [usage, List.map_map]
      exact i.cpu_nodup
  | disk =>
      rw [usage, List.map_map]
      exact i.blkio_nodup
  | net =>
      rw [usage, List.map_map]
      exact i.network_nodup

/-- The usage of an interval is learned before offenders are scored. -/
def Agent.tracked (a : Agent K) (i : ReportInterval) (resource : Resource) : Baseline K :=
  trackUsage a.cfg.deviationFactor Prod.fst Prod.snd (a.usage resource) (i.usage resource)

theorem trackUsage_map {ρ : Type} (factor : K) (cgroup usage : ρ → ℕ) (b : Baseline K) (rs : List ρ) :
    trackUsage factor cgroup usage b rs =
      trackUsage factor Prod.fst Prod.snd b (rs.map fun r ↦ (cgroup r, usage r)) := by
  rw [trackUsage, trackUsage, List.foldl_map]

theorem buildSnapshot_usage [FloorSemiring K] [Sqrt K] {srt : SliceSort} {a : Agent K}
    {i : ReportInterval} (resource : Resource) :
    (buildSnapshot srt a i).2.usage resource = a.tracked i resource := by
  cases resource with
  | cpu => exact trackUsage_map _ _ _ _ _
  | disk => exact trackUsage_map _ _ _ _ _
  | net => exact trackUsage_map _ _ _ _ _

/-! ## One cgroup -/

section Track

variable {ρ : Type} {factor u : K} {cgroup usage : ρ → ℕ} {b b' : Baseline K} {rs : List ρ} {r : ρ}

/-- A reading far above what was learned is not learned. -/
def Spiking (factor : K) (warmup : ℤ) (a : Avg K) (u : K) : Prop :=
  warmup ≤ a.samples ∧ 0 < a.value ∧ factor ≤ u / a.value

instance (factor : K) (warmup : ℤ) (a : Avg K) (u : K) : Decidable (Spiking factor warmup a u) :=
  inferInstanceAs (Decidable (_ ∧ _ ∧ _))

/-- The entry of a cgroup after an interval in which it used `u`. -/
def learnUsage (factor alpha : K) (warmup : ℤ) (u : K) : Option (Avg K) → Avg K
  | none => ⟨u, 1, false, 0⟩
  | some a =>
      ⟨if Spiking factor warmup a u then a.value else alpha * u + (1 - alpha) * a.value,
        a.samples + 1, false, 0⟩

theorem learnUsage_samples {alpha : K} {warmup : ℤ} {o : Option (Avg K)} :
    (learnUsage factor alpha warmup u o).samples = o.elim 0 Avg.samples + 1 := by
  cases o <;> rfl

theorem observeUsage_alike {key cg : ℕ} (h : b.Alike b' key) (hne : key ≠ cg) :
    b.Alike (observeUsage factor b' cg u) key := by
  unfold observeUsage
  exact h.observe hne _ _

theorem foldl_observeUsage_alike {key : ℕ} (h : b.Alike b' key) (hne : key ∉ rs.map cgroup) :
    b.Alike (rs.foldl (fun b r ↦ observeUsage factor b (cgroup r) (usage r)) b') key :=
  foldl_of_notMem (P := fun b' ↦ b.Alike b' key) (fun _ _ hne h ↦ observeUsage_alike h hne) hne h

/-- What is learned of a cgroup depends on its own entry only. -/
theorem observeUsage_congr {cg : ℕ} (h : b.Alike b' cg) :
    (observeUsage factor b cg u).Alike (observeUsage factor b' cg u) cg := by
  have hd : b'.deviation cg u = b.deviation cg u := Baseline.deviation_congr h.warmup h.state
  unfold observeUsage
  rw [hd]
  refine ⟨h.alpha, h.warmup, ?_⟩
  simp only [Baseline.observe, Function.update_self, h.state, h.alpha]

theorem foldl_observeUsage (hnd : (rs.map cgroup).Nodup) (hr : r ∈ rs)
    (h : b.Alike b' (cgroup r)) :
    (observeUsage factor b (cgroup r) (usage r)).Alike
      (rs.foldl (fun b r ↦ observeUsage factor b (cgroup r) (usage r)) b') (cgroup r) := by
  have hother : ∀ (b b' : Baseline K) (r' : ρ), cgroup r ≠ cgroup r' → b.Alike b' (cgroup r) →
      b.Alike (observeUsage factor b' (cgroup r') (usage r')) (cgroup r) :=
    fun _ _ _ hne h ↦ observeUsage_alike h hne
  exact foldl_of_mem (P := fun b' ↦ b.Alike b' (cgroup r)) (hother b) (hother _)
    (fun _ h ↦ observeUsage_congr h) hnd hr h

theorem spiking_iff {cg : ℕ} {a : Avg K} (hs : b.state cg = some a) :
    Spiking factor b.warmup a u ↔ ∃ ratio, b.deviation cg u = some ratio ∧ factor ≤ ratio := by
  simp only [Baseline.deviation_eq_some_iff, hs, Option.some.injEq, exists_eq_left', Spiking]
  constructor
  · rintro ⟨hwarm, hpos, hle⟩
    exact ⟨_, ⟨hwarm, hpos, rfl⟩, hle⟩
  · rintro ⟨_, ⟨hwarm, hpos, rfl⟩, hle⟩
    exact ⟨hwarm, hpos, hle⟩

/-- One observation, and the end of the round. -/
theorem prune_observeUsage_state (b : Baseline K) (factor u : K) (cg : ℕ) :
    (observeUsage factor b cg u).prune.state cg =
      some (learnUsage factor b.alpha b.warmup u (b.state cg)) := by
  unfold observeUsage
  rw [Baseline.prune_observe_state]
  cases hs : b.state cg with
  | none => rfl
  | some a =>
      dsimp only [learnUsage, Avg.observe]
      rw [if_congr (spiking_iff hs) rfl rfl]
      cases b.deviation cg u with
      | none => simp
      | some ratio => by_cases h : factor ≤ ratio <;> simp [h]

/-- The entry of a cgroup that was read. -/
theorem trackUsage_state (hnd : (rs.map cgroup).Nodup) (hr : r ∈ rs) :
    (trackUsage factor cgroup usage b rs).state (cgroup r) =
      some (learnUsage factor b.alpha b.warmup (usage r) (b.state (cgroup r))) := by
  rw [← prune_observeUsage_state]
  have h : (observeUsage factor b (cgroup r) (usage r)).Alike _ (cgroup r) :=
    foldl_observeUsage hnd hr (.refl b _)
  exact congrArg (Option.bind · Avg.prune) h.state

@[simp] theorem trackUsage_alpha (rs : List ρ) :
    (trackUsage factor cgroup usage b rs).alpha = b.alpha := by
  unfold trackUsage
  rw [Baseline.prune_alpha]
  induction rs generalizing b with
  | nil => rfl
  | cons r rs ih => exact ih

@[simp] theorem trackUsage_warmup (rs : List ρ) :
    (trackUsage factor cgroup usage b rs).warmup = b.warmup := by
  unfold trackUsage
  rw [Baseline.prune_warmup]
  induction rs generalizing b with
  | nil => rfl
  | cons r rs ih => exact ih

/-- A cgroup that was not read keeps its normal, if it keeps its entry. -/
theorem trackUsage_state_of_notMem {key : ℕ} (h : key ∉ rs.map cgroup) :
    (trackUsage factor cgroup usage b rs).state key = (b.state key).bind Avg.prune :=
  congrArg (Option.bind · Avg.prune) (foldl_observeUsage_alike (.refl b key) h).state

end Track

section Agent

variable {a : Agent K} {i : ReportInterval} {resource : Resource} {cg used : ℕ}

/-- The entry of a cgroup whose usage was read. -/
theorem Agent.tracked_state (h : (cg, used) ∈ i.usage resource) : (a.tracked i resource).state cg =
    some (learnUsage a.cfg.deviationFactor (a.usage resource).alpha (a.usage resource).warmup used
      ((a.usage resource).state cg)) :=
  trackUsage_state (i.usage_nodup resource) h

variable [FloorSemiring K] [Sqrt K] (srt : SliceSort) (cfg : Config K) (is : ℕ → ReportInterval)

theorem Agent.after_succ_usage (n : ℕ) : (a.after srt is (n + 1)).usage resource =
    (a.after srt is n).tracked (is n) resource := buildSnapshot_usage resource

@[simp] theorem after_usage_alpha (n : ℕ) :
    (((newAgent cfg).after srt is n).usage resource).alpha = cfg.baselineAlpha := by
  induction n with
  | zero => cases resource <;> rfl
  | succ n ih =>
      rw [Agent.after_succ_usage, Agent.tracked, trackUsage_alpha]
      exact ih

@[simp] theorem after_usage_warmup (n : ℕ) :
    (((newAgent cfg).after srt is n).usage resource).warmup = cfg.baselineWarmup := by
  induction n with
  | zero => cases resource <;> rfl
  | succ n ih =>
      rw [Agent.after_succ_usage, Agent.tracked, trackUsage_warmup]
      exact ih

end Agent

/-! ## The rows of an interval -/

section Rows

variable [FloorSemiring K] [Sqrt K] {srt : SliceSort}

/-- The evidence against a pod whose cgroup used `used`. -/
def evidence (a : Agent K) (i : ReportInterval) (resource : Resource) (cg used : ℕ) (pod : PodID) :
    Evidence K where
  baseline := a.tracked i resource
  cgroup := cg
  usage := used
  sharePct := share used ((i.usage resource).map Prod.snd).sum
  victimSignal :=
    match resource with
    | .cpu => max (signalFromRatio (cpuScan a i).worst)
        (burstCorrelation (timelineByCgroup i.timeline) cg (cpuScan a i).ids).1
    | .disk => signalFromRatio (ioScan a i).worst
    | .net => signalFromRatio (netScan a i).worst
  fallback :=
    match resource with
    | .cpu => (cpuScores a i).fallback ⟨cg, used⟩ pod
    | .disk | .net => -1
  throttle :=
    match resource with
    | .cpu => (cpuScores a i).throttle cg
    | .disk | .net => 0

variable {a : Agent K} {i : ReportInterval}

omit [Sqrt K] in
theorem cpuScores_cpuUsage : (cpuScores a i).cpuUsage = a.tracked i .cpu := trackUsage_map _ _ _ _ _

omit [Sqrt K] in
theorem intensity_eq_share (r : CgroupCPUTime) : (cpuScores a i).intensity r =
    share r.onCpuNs ((i.usage .cpu).map Prod.snd).sum := by
  have htotal : ((i.usage .cpu).map Prod.snd).sum = (cpuScores a i).totalNs := by
    rw [ReportInterval.usage, List.map_map]
    rfl
  rw [htotal, CPUScores.intensity, share]
  by_cases h : (cpuScores a i).totalNs = 0
  · rw [if_pos h, if_neg (by omega)]
  · rw [if_neg h, if_pos (by omega)]

/-- A row of a resolved cgroup of the CPU. -/
theorem score_eq_evidence {r : CgroupCPUTime} {pod : PodID} (hpod : i.res.pod r.cgroupID = some pod) :
    (cpuScores a i).score r = (evidence a i .cpu r.cgroupID r.onCpuNs pod).confidence := by
  rw [CPUScores.score, show (cpuScores a i).res.pod r.cgroupID = some pod from hpod]
  show (cpuScores a i).confidence r pod = _
  rw [CPUScores.confidence, intensity_eq_share, cpuScores_cpuUsage]
  rfl

/-- One of the disk. -/
theorem ioScore_eq_evidence {r : CgroupBlkio} {pod : PodID} (hpod : i.res.pod r.cgroupID = some pod) :
    ioScore a i r = (evidence a i .disk r.cgroupID r.bytes pod).confidence := by
  have htotal : (i.blkio.map CgroupBlkio.bytes).sum = ((i.usage .disk).map Prod.snd).sum := by
    rw [ReportInterval.usage, List.map_map]
    rfl
  rw [ioScore, throughputScore, trackUsage_map, htotal, hpod]
  rfl

/-- One of the network. -/
theorem netScore_eq_evidence {r : CgroupNet} {pod : PodID} (hpod : i.res.pod r.cgroupID = some pod) :
    netScore a i r = (evidence a i .net r.cgroupID r.txBytes pod).confidence := by
  have htotal : (i.network.map CgroupNet.txBytes).sum = ((i.usage .net).map Prod.snd).sum := by
    rw [ReportInterval.usage, List.map_map]
    rfl
  rw [netScore, throughputScore, trackUsage_map, htotal, hpod]
  rfl

omit [Field K] [LinearOrder K] [FloorSemiring K] [Sqrt K] in
theorem Table.mem_ranked {ρ σ : Type} {t : Table K ρ σ} {n : ℕ} {r : ρ} (h : r ∈ t.listed n) :
    r ∈ t.ranked := by
  unfold listed at h
  split_ifs at h
  · exact List.mem_of_mem_take h
  · cases h

/-- A row is scored on the evidence against its cgroup. -/
theorem mem_attributions {resource : Resource} {x : ℕ × String × K}
    (h : x ∈ attributions srt a i resource) : ∃ used, (x.1, used) ∈ i.usage resource ∧
      ∀ pod, i.res.pod x.1 = some pod → x.2.2 = (evidence a i resource x.1 used pod).confidence := by
  cases resource with
  | cpu =>
      obtain ⟨r, hr, rfl⟩ := List.mem_map.mp h
      have hread : r ∈ i.cpu := (SliceSort.mem_sort srt).mp (Table.mem_ranked hr)
      exact ⟨r.onCpuNs, List.mem_map_of_mem hread, fun _ hpod ↦ score_eq_evidence hpod⟩
  | disk =>
      obtain ⟨r, hr, rfl⟩ := List.mem_map.mp h
      have hread : r ∈ i.blkio := (SliceSort.mem_sort srt).mp (Table.mem_ranked hr)
      exact ⟨r.bytes, List.mem_map_of_mem hread, fun _ hpod ↦ ioScore_eq_evidence hpod⟩
  | net =>
      obtain ⟨r, hr, rfl⟩ := List.mem_map.mp h
      have hread : r ∈ i.network := (SliceSort.mem_sort srt).mp (Table.mem_ranked hr)
      exact ⟨r.txBytes, List.mem_map_of_mem hread, fun _ hpod ↦ netScore_eq_evidence hpod⟩

/-- The usage of a cgroup is read once. -/
theorem ReportInterval.usage_unique {resource : Resource} {cg used used' : ℕ}
    (h : (cg, used) ∈ i.usage resource) (h' : (cg, used') ∈ i.usage resource) : used = used' :=
  congrArg Prod.snd (List.inj_on_of_nodup_map (i.usage_nodup resource) h h' rfl)

end Rows
