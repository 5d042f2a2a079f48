import NodeSentinel.Agent.Config
import NodeSentinel.Agent.Resolver
import NodeSentinel.Data.SliceSort
import NodeSentinel.Ebpf.Types
import NodeSentinel.Metrics.Baseline
import NodeSentinel.Metrics.Correlation
import NodeSentinel.Report.Snapshot

/-!
# Scoring offenders

The offender half of `agent.go`: every attributed cgroup among the largest users gets a
confidence, the minimum of how much it changed, how big it is and how much harm there is.
-/

variable {K : Type} [Field K] [LinearOrder K]

/-- `clamp`. -/
def clamp (x lo hi : K) : K := min hi (max lo x)

omit [Field K] in
theorem clamp_mono {x y lo hi : K} (h : x ≤ y) : clamp x lo hi ≤ clamp y lo hi :=
  min_le_min_left _ (max_le_max_left _ h)

/-! ## Harm -/

/-- `correlationConfig`. -/
def correlationConfig : CorrelationConfig K where
  maxLag := 3
  minActive := 5
  activeFloor := 1000000
  varianceFloor := 0

/-- `timelineByCgroup`. -/
def timelineByCgroup (tl : List CgroupTimeline) : ℕ → Option CgroupTimeline :=
  tl.foldl (fun m t ↦ Function.update m t.cgroupID (some t)) fun _ ↦ none

/-- `toFloat`. -/
def toFloat (u : List ℕ) : List K := u.map fun v : ℕ ↦ (v : K)

/-- The body of the loop of `burstCorrelation`. -/
def burstStep [Sqrt K] (tl : ℕ → Option CgroupTimeline) (offCPU : List K) (best : K × ℕ) (v : ℕ) :
    K × ℕ :=
  match tl v with
  | none => best
  | some vt =>
      let res := correlate offCPU (toFloat vt.runqLatNs) correlationConfig
      if res.confidence > best.1 then (res.confidence, res.lag) else best

/-- `burstCorrelation`: the strongest correlation between the on-CPU bursts of an offender
and the run-queue stalls of a victim, and its lag. -/
def burstCorrelation [Sqrt K] (tl : ℕ → Option CgroupTimeline) (offender : ℕ)
    (victims : List ℕ) : K × ℕ :=
  match tl offender with
  | none => (0, 0)
  | some off => victims.foldl (burstStep tl (toFloat off.cpuNs)) (0, 0)

/-- `signalFromRatio`: the severity of the worst degradation. -/
def signalFromRatio (worst : K) : K := if worst > 1 then clamp ((worst - 1) / 4) 0 1 else 1 / 2

/-! ## Confidence -/

/-- `offenderConfidence`: `-1` where nothing can be said yet. -/
def offenderConfidence (b : Baseline K) (cg : ℕ) (usage sharePct victimSignal fallback throttle : K) :
    K :=
  let magnitude := clamp (sharePct / 100 / (1 / 4)) 0 1
  let changed := match b.deviation cg usage with
    | some ratio => clamp ((ratio - 1) / 4) 0 1
    | none => fallback
  let changed := if throttle > 0 then max changed (clamp throttle 0 1) else changed
  if changed < 0 then -1 else clamp (min (min changed magnitude) victimSignal) 0 1

/-- `share`. -/
def share (part total : ℕ) : K := if total = 0 then 0 else part / total * 100

/-- `fairShareVerdict`. -/
def fairShareVerdict (intensity : K) (reqMilli totalReqMilli : ℤ) : Verdict K :=
  if reqMilli ≤ 0 then .noRequest
  else if totalReqMilli ≤ 0 then .noRequestData
  else
    let fair := (reqMilli : K) / totalReqMilli * 100
    if intensity > fair then .overFairShare fair else .withinRequest fair

/-! ## CPU -/

/-- `throttleFraction`: the fraction of CFS periods throttled since the last interval, and
the readings kept for the next one. -/
def throttleFraction (res : Resolver) (prevThrottle : ℕ → Option CPUStat) (cg : ℕ)
    (cur : ℕ → Option CPUStat) : K × (ℕ → Option CPUStat) :=
  match res.cpuStat cg with
  | none => (0, cur)
  | some now =>
      let cur := Function.update cur cg (some now)
      match prevThrottle cg with
      | none => (0, cur)
      | some prev => ((now.sub prev).throttledFraction, cur)

/-- What the loop of `cpuOffenders` reads. -/
structure CPUScores (K : Type) where
  res : Resolver
  tl : ℕ → Option CgroupTimeline
  prevThrottle : ℕ → Option CPUStat
  cpuUsage : Baseline K
  totalNs : ℕ
  totalReq : ℤ
  victimSignal : K
  victimIDs : List ℕ

/-- Its variables. -/
structure CPULoop (K : Type) where
  out : List (Offender K)
  newThrottle : ℕ → Option CPUStat
  maxConf : K

namespace CPUScores

variable (x : CPUScores K)

/-- The percentage of CPU time a cgroup used. -/
def intensity (r : CgroupCPUTime) : K :=
  if x.totalNs > 0 then (r.onCpuNs : K) / x.totalNs * 100 else 0

/-- The excess over the CPU request, before the usage baseline is warm. -/
def fallback (r : CgroupCPUTime) (pod : PodID) : K :=
  if x.totalReq > 0 then
    let fair := (pod.requestMilliCPU : K) / x.totalReq * 100
    clamp ((x.intensity r - fair) / 100 / (1 / 2)) 0 1
  else -1

/-- The body of the loop of `cpuOffenders`. -/
def step [Sqrt K] (s : CPULoop K) (r : CgroupCPUTime) : CPULoop K :=
  let o : Offender K :=
    { pod := x.res.label r.cgroupID, cpuMs := r.onCpuNs / 1000000, intensity := x.intensity r,
      reqMilli := -1, throttlePct := 0, correlPct := -1, confidence := -1,
      verdict := .unattributed }
  match x.res.pod r.cgroupID with
  | none => { s with out := s.out ++ [o] }
  | some pod =>
      let throttle := throttleFraction x.res x.prevThrottle r.cgroupID s.newThrottle
      let corr := (burstCorrelation x.tl r.cgroupID x.victimIDs).1
      let harm := max x.victimSignal corr
      let confidence := offenderConfidence x.cpuUsage r.cgroupID r.onCpuNs (x.intensity r) harm
        (x.fallback r pod) throttle.1
      { out := s.out ++ [{ o with
          reqMilli := pod.requestMilliCPU
          verdict := fairShareVerdict (x.intensity r) pod.requestMilliCPU x.totalReq
          throttlePct := throttle.1 * 100
          correlPct := corr * 100
          confidence }]
        newThrottle := throttle.2
        maxConf := if confidence > s.maxConf then confidence else s.maxConf }

end CPUScores

/-- The CPU requests of the cgroups that are resolved. -/
def totalRequest (res : Resolver) (cpu : List CgroupCPUTime) : ℤ :=
  (cpu.map fun r ↦ match res.request r.cgroupID with
    | some pod => pod.requestMilliCPU
    | none => 0).sum

/-- `cpuOffenders`: the largest users of CPU time, the readings of `cpu.stat` for the next
interval, and the highest confidence. -/
def cpuOffenders [Sqrt K] (srt : SliceSort) (topN : ℕ) (res : Resolver)
    (timeline : List CgroupTimeline) (prevThrottle : ℕ → Option CPUStat) (cpuUsage : Baseline K)
    (cpu : List CgroupCPUTime) (victimSignal : K) (victimIDs : List ℕ) (maxConf : K) : CPULoop K :=
  let x : CPUScores K :=
    { res, tl := timelineByCgroup timeline, prevThrottle, cpuUsage,
      totalNs := (cpu.map CgroupCPUTime.onCpuNs).sum, totalReq := totalRequest res cpu,
      victimSignal, victimIDs }
  ((srt.sort CgroupCPUTime.onCpuNs cpu).take topN).foldl x.step ⟨[], fun _ ↦ none, maxConf⟩

/-! ## Disk and network -/

/-- The body of the loops of `ioOffenders` and `netOffenders`: a row made of the
confidence of the cgroup, and the highest confidence so far. -/
def throughputStep {σ : Type} (res : Resolver) (usage : Baseline K) (victimSignal : K)
    (s : List σ × K) (cg bytes : ℕ) (sharePct : K) (row : K → σ) : List σ × K :=
  match res.pod cg with
  | none => (s.1 ++ [row (-1)], s.2)
  | some _ =>
      let confidence := offenderConfidence usage cg bytes sharePct victimSignal (-1) 0
      (s.1 ++ [row confidence], if confidence > s.2 then confidence else s.2)

/-- `ioOffenders`: the largest users of the disk, and the highest confidence. -/
def ioOffenders (srt : SliceSort) (topN : ℕ) (res : Resolver) (ioUsage : Baseline K)
    (blkio : List CgroupBlkio) (victimSignal maxConf : K) : List (IOOffender K) × K :=
  let total := (blkio.map CgroupBlkio.bytes).sum
  ((srt.sort CgroupBlkio.bytes blkio).take topN).foldl (fun s r ↦
    throughputStep res ioUsage victimSignal s r.cgroupID r.bytes (share r.bytes total)
      fun confidence ↦ ⟨res.label r.cgroupID, r.bytes / 1000000, share r.bytes total, r.count,
        confidence⟩) ([], maxConf)

/-- `netOffenders`: the largest senders, and the highest confidence. -/
def netOffenders (srt : SliceSort) (topN : ℕ) (res : Resolver) (netUsage : Baseline K)
    (network : List CgroupNet) (victimSignal maxConf : K) : List (NetOffender K) × K :=
  let total := (network.map CgroupNet.txBytes).sum
  ((srt.sort CgroupNet.txBytes network).take topN).foldl (fun s r ↦
    throughputStep res netUsage victimSignal s r.cgroupID r.txBytes (share r.txBytes total)
      fun confidence ↦ ⟨res.label r.cgroupID, r.txBytes / 1000000, share r.txBytes total, r.txSegs,
        confidence⟩) ([], maxConf)

/-! ## Learning the usage -/

/-- `observeUsage`: learn the usage of a cgroup, unless it is spiking. -/
def observeUsage (deviationFactor : K) (b : Baseline K) (cg : ℕ) (usage : K) : Baseline K :=
  let spiking := match b.deviation cg usage with
    | some ratio => decide (ratio ≥ deviationFactor)
    | none => false
  b.observe cg usage !spiking

/-- `trackCPUUsage`, `trackIOUsage` and `trackNetUsage`. -/
def trackUsage {ρ : Type} (deviationFactor : K) (cgroup usage : ρ → ℕ) (b : Baseline K)
    (rs : List ρ) : Baseline K :=
  (rs.foldl (fun b r ↦ observeUsage deviationFactor b (cgroup r) (usage r)) b).prune

/-! ## The burst correlation as a bound -/

theorem CorrelationResult.confidence_nonpos_iff [IsStrictOrderedRing K]
    (res : CorrelationResult K) : res.confidence ≤ 0 ↔ res.r ≤ 0 := by
  unfold confidence
  split_ifs with h h'
  · exact iff_of_true le_rfl h.le
  · exact iff_of_false (not_le.mpr one_pos) (not_le.mpr (one_pos.trans h'))
  · exact Iff.rfl

section Burst

variable [Sqrt K] {tl : ℕ → Option CgroupTimeline} {offender : ℕ} {victims : List ℕ}

theorem foldl_burstStep_le_iff {offCPU : List K} {best : K × ℕ} {c : K} :
    (victims.foldl (burstStep tl offCPU) best).1 ≤ c ↔ best.1 ≤ c ∧ ∀ v ∈ victims, ∀ vt,
      tl v = some vt →
        (correlate offCPU (toFloat vt.runqLatNs) correlationConfig).confidence ≤ c := by
  induction victims generalizing best with
  | nil => simp
  | cons v victims ih =>
      rw [List.foldl_cons, ih, List.forall_mem_cons]
      cases hv : tl v with
      | none => simp [burstStep, hv]
      | some vt =>
          have hstep : (burstStep tl offCPU best v).1 ≤ c ↔ best.1 ≤ c ∧
              (correlate offCPU (toFloat vt.runqLatNs) correlationConfig).confidence ≤ c := by
            simp only [burstStep, hv]
            split
            · next hgt => exact ⟨fun h ↦ ⟨hgt.le.trans h, h⟩, And.right⟩
            · next hle => exact ⟨fun h ↦ ⟨h, (not_lt.mp hle).trans h⟩, And.left⟩
          simp only [hstep, Option.some.injEq, forall_eq', and_assoc]

/-- The burst correlation is the least bound on the scores against the victims. -/
theorem burstCorrelation_le_iff {off : CgroupTimeline} (h : tl offender = some off) {c : K} :
    (burstCorrelation tl offender victims).1 ≤ c ↔ 0 ≤ c ∧ ∀ v ∈ victims, ∀ vt,
      tl v = some vt → (correlate (toFloat off.cpuNs) (toFloat vt.runqLatNs)
        correlationConfig).confidence ≤ c := by
  rw [burstCorrelation, h]
  exact foldl_burstStep_le_iff

theorem burstCorrelation_nonneg : 0 ≤ (burstCorrelation tl offender victims : K × ℕ).1 := by
  cases h : tl offender with
  | none => rw [burstCorrelation, h]
  | some off => exact ((burstCorrelation_le_iff h).mp le_rfl).1

/-- It is zero where every score is. -/
theorem burstCorrelation_eq_zero_iff [IsStrictOrderedRing K] {off : CgroupTimeline}
    (h : tl offender = some off) : (burstCorrelation tl offender victims : K × ℕ).1 = 0 ↔
      ∀ v ∈ victims, ∀ vt, tl v = some vt →
        (correlate (toFloat off.cpuNs : List K) (toFloat vt.runqLatNs) correlationConfig).r ≤ 0 := by
  rw [← burstCorrelation_nonneg.ge_iff_eq', burstCorrelation_le_iff h]
  simp only [le_refl, true_and, CorrelationResult.confidence_nonpos_iff]

end Burst
