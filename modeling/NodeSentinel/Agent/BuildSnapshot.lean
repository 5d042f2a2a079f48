import NodeSentinel.Agent.Offenders
import NodeSentinel.Agent.Victims

/-!
# The judgement of an interval

`buildSnapshot` of `agent.go`: judge the victims of all three dimensions, learn the usage,
and score offenders in the dimensions that have victims.
-/

variable {K : Type} [Field K] [LinearOrder K]

/-- The state of the agent between two intervals. -/
structure Agent (K : Type) where
  cfg : Config K
  prevThrottle : ℕ → Option CPUStat
  baseline : Baseline K
  ioBaseline : Baseline K
  netBaseline : Baseline K
  cpuUsage : Baseline K
  ioUsage : Baseline K
  netUsage : Baseline K

/-- `New`. -/
def newAgent (cfg : Config K) : Agent K where
  cfg := cfg
  prevThrottle _ := none
  baseline := .new cfg.baselineAlpha cfg.baselineWarmup
  ioBaseline := .new cfg.baselineAlpha cfg.baselineWarmup
  netBaseline := .new cfg.baselineAlpha cfg.baselineWarmup
  cpuUsage := .new cfg.baselineAlpha cfg.baselineWarmup
  ioUsage := .new cfg.baselineAlpha cfg.baselineWarmup
  netUsage := .new cfg.baselineAlpha cfg.baselineWarmup

/-- What an interval finds: the readings, which come from maps keyed by cgroup, the latest
timeline, and the resolver. -/
structure ReportInterval where
  cpu : List CgroupCPUTime
  runq : List CgroupLatency
  blkio : List CgroupBlkio
  network : List CgroupNet
  timeline : List CgroupTimeline
  res : Resolver
  cpu_nodup : (cpu.map CgroupCPUTime.cgroupID).Nodup := by first | exact List.nodup_nil | decide
  runq_nodup : (runq.map CgroupLatency.cgroupID).Nodup := by first | exact List.nodup_nil | decide
  blkio_nodup : (blkio.map CgroupBlkio.cgroupID).Nodup := by first | exact List.nodup_nil | decide
  network_nodup : (network.map CgroupNet.cgroupID).Nodup := by first | exact List.nodup_nil | decide

/-- `buildSnapshot`: the judgement of an interval, and the agent after it.  A dimension
without victims lists no offenders, and a node without victims is healthy. -/
def buildSnapshot [FloorSemiring K] [Sqrt K] (srt : SliceSort) (a : Agent K) (i : ReportInterval) :
    Snapshot K × Agent K :=
  let (cpuVictims, cpuWorst, cpuVictimIDs, baseline) :=
    cpuVictims srt a.cfg i.res.label a.baseline i.runq
  let (ioVictims, ioWorst, ioBaseline) := ioVictims srt a.cfg i.res.label a.ioBaseline i.blkio
  let (netVictims, netWorst, netBaseline) :=
    netVictims srt a.cfg i.res.label a.netBaseline i.network
  -- the usage is learned before the offenders are scored against it
  let cpuUsage := trackUsage a.cfg.deviationFactor CgroupCPUTime.cgroupID CgroupCPUTime.onCpuNs
    a.cpuUsage i.cpu
  let ioUsage := trackUsage a.cfg.deviationFactor CgroupBlkio.cgroupID CgroupBlkio.bytes
    a.ioUsage i.blkio
  let netUsage := trackUsage a.cfg.deviationFactor CgroupNet.cgroupID CgroupNet.txBytes
    a.netUsage i.network
  let cpu : CPULoop K :=
    if cpuVictims.isEmpty then ⟨[], a.prevThrottle, -1⟩
    else cpuOffenders srt a.cfg.topN i.res i.timeline a.prevThrottle cpuUsage i.cpu
      (signalFromRatio cpuWorst) cpuVictimIDs (-1)
  let io :=
    if ioVictims.isEmpty then ([], -1)
    else ioOffenders srt a.cfg.topN i.res ioUsage i.blkio (signalFromRatio ioWorst) (-1)
  let net :=
    if netVictims.isEmpty then ([], -1)
    else netOffenders srt a.cfg.topN i.res netUsage i.network (signalFromRatio netWorst) (-1)
  ({ nodeName := a.cfg.nodeName
     healthy := cpuVictims.isEmpty && ioVictims.isEmpty && netVictims.isEmpty
     cgroupsSeen := i.runq.length
     runqWarnUs := microseconds a.cfg.runqWarn
     minSamples := a.cfg.minSamples
     confidenceMin := a.cfg.confidenceThreshold
     maxConfidence := cpu.maxConf, offenders := cpu.out, victims := cpuVictims
     ioMaxConfidence := io.2, ioOffenders := io.1, ioVictims
     netMaxConfidence := net.2, netOffenders := net.1, netVictims },
   { a with
     prevThrottle := cpu.newThrottle
     baseline, ioBaseline, netBaseline, cpuUsage, ioUsage, netUsage })

/-! ## What an interval leaves behind -/

section Frame

variable [FloorSemiring K] [Sqrt K] {srt : SliceSort} {a : Agent K} {i : ReportInterval}

@[simp] theorem buildSnapshot_cfg : (buildSnapshot srt a i).2.cfg = a.cfg := rfl

theorem buildSnapshot_baseline : (buildSnapshot srt a i).2.baseline =
    ((cpuDimension a.cfg i.res.label).scan a.cfg a.baseline i.runq).baseline.prune := rfl

theorem buildSnapshot_ioBaseline : (buildSnapshot srt a i).2.ioBaseline =
    ((ioDimension a.cfg i.res.label).scan a.cfg a.ioBaseline i.blkio).baseline.prune := rfl

theorem buildSnapshot_netBaseline : (buildSnapshot srt a i).2.netBaseline =
    ((netDimension a.cfg i.res.label).scan a.cfg a.netBaseline i.network).baseline.prune := rfl

/-- A dimension without victims lists no offenders. -/
theorem buildSnapshot_offenders (h : (buildSnapshot srt a i).1.victims = []) :
    (buildSnapshot srt a i).1.offenders = [] := by
  change CPULoop.out (if (buildSnapshot srt a i).1.victims.isEmpty then _ else _) = []
  rw [h, List.isEmpty_nil, if_pos rfl]

theorem buildSnapshot_ioOffenders (h : (buildSnapshot srt a i).1.ioVictims = []) :
    (buildSnapshot srt a i).1.ioOffenders = [] := by
  change Prod.fst (if (buildSnapshot srt a i).1.ioVictims.isEmpty then _ else _) = []
  rw [h, List.isEmpty_nil, if_pos rfl]

theorem buildSnapshot_netOffenders (h : (buildSnapshot srt a i).1.netVictims = []) :
    (buildSnapshot srt a i).1.netOffenders = [] := by
  change Prod.fst (if (buildSnapshot srt a i).1.netVictims.isEmpty then _ else _) = []
  rw [h, List.isEmpty_nil, if_pos rfl]

end Frame

/-! ## Runs -/

/-- The agent before interval `n`. -/
def Agent.after [FloorSemiring K] [Sqrt K] (srt : SliceSort) (a : Agent K) (is : ℕ → ReportInterval) :
    ℕ → Agent K
  | 0 => a
  | n + 1 => (buildSnapshot srt (a.after srt is n) (is n)).2

@[simp] theorem Agent.after_cfg [FloorSemiring K] [Sqrt K] (srt : SliceSort) (a : Agent K)
    (is : ℕ → ReportInterval) (n : ℕ) : (a.after srt is n).cfg = a.cfg := by
  induction n with
  | zero => rfl
  | succ n ih => exact ih
