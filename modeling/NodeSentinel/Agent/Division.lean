import NodeSentinel.Agent.BuildSnapshot

/-!
# Division in the judgement

The judgement of an interval with a division that has no result where the denominator is zero.
The quotient of `float64` is then `NaN` or infinite: a baseline that learns it is lost, and
`json.Marshal` refuses a snapshot that has it.  What `Checked` computes is finite throughout.
-/

variable {K : Type} [Field K] [LinearOrder K]

/-- `x / y`, if that is a finite number. -/
def quotient (x y : K) : Option K := if y = 0 then none else some (x / y)

/-! ## The judgement, division by division -/

namespace Checked

section Victims

/-- `Deviation`. -/
def deviation (b : Baseline K) (key : ℕ) (current : K) : Option (Option K) :=
  match b.state key with
  | none => some none
  | some a =>
      if a.samples < b.warmup ∨ a.value ≤ 0 then some none
      else (quotient current a.value).map some

/-- `judgeVictim`. -/
def judgeVictim (cfg : Config K) (baseline : Baseline K) (floor : K) (cg : ℕ) (value : K) :
    Option (Judgement K × Baseline K) := do
  let dev ← deviation baseline cg value
  let isVictim := match dev with
    | some ratio => if ratio < cfg.deviationFactor then false else decide (value ≥ floor)
    | none => decide (value ≥ floor)
  pure (⟨isVictim, dev.getD 0⟩, baseline.observe cg value !(dev.isSome && isVictim))

/-- The rate that `netVictims` judges, if a reading clears the gates. -/
def retransmitRate (cfg : Config K) (r : CgroupNet) : Option (Option K) :=
  if r.txSegs < uint64 cfg.minSegs then some none
  else if r.retransmits < uint64 cfg.retransWarn then some none
  else (quotient (r.retransmits : K) r.txSegs).map some

variable {ρ σ : Type}

/-- The body of the loop of a pass, `value` being what is judged. -/
def step (d : Dimension K ρ σ) (value : ρ → Option (Option K)) (cfg : Config K) (s : Scan K σ)
    (r : ρ) : Option (Scan K σ) := do
  match ← value r with
  | none => pure s
  | some value =>
      let (j, baseline) ← judgeVictim cfg s.baseline d.floor (d.cgroup r) value
      if j.isVictim then
        pure
          { out := s.out ++ [d.row r value j.degradation]
            worst := if j.degradation > s.worst then j.degradation else s.worst
            ids := s.ids ++ [d.cgroup r]
            baseline }
      else pure { s with baseline }

/-- The loop. -/
def scan (d : Dimension K ρ σ) (value : ρ → Option (Option K)) (cfg : Config K)
    (baseline : Baseline K) (rs : List ρ) : Option (Scan K σ) :=
  rs.foldlM (step d value cfg) ⟨[], 0, [], baseline⟩

variable (srt : SliceSort) (cfg : Config K) (label : ℕ → String) (baseline : Baseline K)

/-- `cpuVictims`. -/
def cpuVictims [FloorSemiring K] (runq : List CgroupLatency) :
    Option (List (Victim K) × K × List ℕ × Baseline K) := do
  let d := cpuDimension cfg label
  let s ← scan d (fun r ↦ some (d.value r)) cfg baseline runq
  pure (capVictims (srt.sort Victim.p99us s.out) cfg.topN, s.worst, s.ids, s.baseline.prune)

/-- `ioVictims`. -/
def ioVictims [FloorSemiring K] (blkio : List CgroupBlkio) :
    Option (List (Victim K) × K × Baseline K) := do
  let d := ioDimension cfg label
  let s ← scan d (fun r ↦ some (d.value r)) cfg baseline blkio
  pure (capVictims (srt.sort Victim.p99us s.out) cfg.topN, s.worst, s.baseline.prune)

/-- `netVictims`. -/
def netVictims (network : List CgroupNet) : Option (List (NetVictim K) × K × Baseline K) := do
  let s ← scan (netDimension cfg label) (retransmitRate cfg) cfg baseline network
  pure (capVictims (srt.sort NetVictim.retransmits s.out) cfg.topN, s.worst, s.baseline.prune)

end Victims

/-! ### The burst correlation -/

section Correlation

variable [Sqrt K]

/-- `variance`. -/
def variance (xs : List K) : Option K :=
  if xs.length = 0 then some 0
  else do
    let mean ← quotient xs.sum xs.length
    quotient (xs.map fun x ↦ (x - mean) * (x - mean)).sum xs.length

/-- `pearsonLagged`. -/
def pearsonLagged (x y : List K) (lag : ℕ) : Option (K × ℤ) :=
  let count : ℤ := x.length - lag
  if count < 3 then some (0, count)
  else
    let pairs := (x.take count.toNat).zip (y.drop lag)
    let xs := pairs.map Prod.fst
    let ys := pairs.map Prod.snd
    let fn : K := count
    let num := fn * (pairs.map fun p ↦ p.1 * p.2).sum - xs.sum * ys.sum
    let vx := varianceTerm fn xs
    let vy := varianceTerm fn ys
    if vx ≤ 0 ∨ vy ≤ 0 then some (0, count)
    else (quotient num (Sqrt.sqrt (vx * vy))).map fun r ↦ (r, count)

/-- The lag search of `Correlate`. -/
def lagSearch (x y : List K) : List ℕ → Option (K × ℕ) → Option (Option (K × ℕ))
  | [], best => some best
  | lag :: lags, best => do
      let s ← pearsonLagged x y lag
      if s.2 < 3 then pure best
      else
        match best with
        | none => lagSearch x y lags (some (s.1, lag))
        | some (b, l) => lagSearch x y lags (if s.1 > b then some (s.1, lag) else some (b, l))

/-- `Correlate`. -/
def correlate (offender victim : List K) (cfg : CorrelationConfig K) :
    Option (CorrelationResult K) :=
  if offender.length ≠ victim.length ∨ offender.length = 0 then some ⟨0, 0, 0, true⟩
  else do
    let active := min (activeCount offender cfg.activeFloor) (activeCount victim cfg.activeFloor)
    if active < cfg.minActive then return ⟨0, 0, active, true⟩
    if cfg.varianceFloor > 0 then
      let vo ← variance offender
      let vv ← variance victim
      if vo < cfg.varianceFloor ∨ vv < cfg.varianceFloor then return ⟨0, 0, active, true⟩
    match ← lagSearch offender victim (List.range (cfg.maxLag + 1).toNat) none with
    | none => pure ⟨0, 0, active, true⟩
    | some (r, lag) => pure ⟨r, lag, active, false⟩

/-- The body of the loop of `burstCorrelation`. -/
def burstStep (tl : ℕ → Option CgroupTimeline) (offCPU : List K) (best : K × ℕ) (v : ℕ) :
    Option (K × ℕ) :=
  match tl v with
  | none => some best
  | some vt => do
      let res ← correlate offCPU (toFloat vt.runqLatNs) correlationConfig
      pure (if res.confidence > best.1 then (res.confidence, res.lag) else best)

/-- `burstCorrelation`. -/
def burstCorrelation (tl : ℕ → Option CgroupTimeline) (offender : ℕ) (victims : List ℕ) :
    Option (K × ℕ) :=
  match tl offender with
  | none => some (0, 0)
  | some off => victims.foldlM (burstStep tl (toFloat off.cpuNs)) (0, 0)

end Correlation

/-! ### Offenders -/

section Offenders

/-- `offenderConfidence`. -/
def offenderConfidence (b : Baseline K) (cg : ℕ)
    (usage sharePct victimSignal fallback throttle : K) : Option K := do
  let magnitude := clamp (sharePct / 100 / (1 / 4)) 0 1
  let changed := match ← deviation b cg usage with
    | some ratio => clamp ((ratio - 1) / 4) 0 1
    | none => fallback
  let changed := if throttle > 0 then max changed (clamp throttle 0 1) else changed
  pure (if changed < 0 then -1 else clamp (min (min changed magnitude) victimSignal) 0 1)

/-- `share`. -/
def share (part total : ℕ) : Option K :=
  if total = 0 then some 0 else (quotient (part : K) total).map (· * 100)

/-- `fairShareVerdict`. -/
def fairShareVerdict (intensity : K) (reqMilli totalReqMilli : ℤ) : Option (Verdict K) :=
  if reqMilli ≤ 0 then some .noRequest
  else if totalReqMilli ≤ 0 then some .noRequestData
  else do
    let fair := (← quotient (reqMilli : K) totalReqMilli) * 100
    pure (if intensity > fair then .overFairShare fair else .withinRequest fair)

/-- `ThrottledFraction`. -/
def throttledFraction (s : CPUStat) : Option K :=
  if s.nrPeriods = 0 then some 0 else quotient (s.nrThrottled : K) s.nrPeriods

/-- `throttleFraction`. -/
def throttleFraction (res : Resolver) (prevThrottle : ℕ → Option CPUStat) (cg : ℕ)
    (cur : ℕ → Option CPUStat) : Option (K × (ℕ → Option CPUStat)) :=
  match res.cpuStat cg with
  | none => some (0, cur)
  | some now =>
      let cur := Function.update cur cg (some now)
      match prevThrottle cg with
      | none => some (0, cur)
      | some prev => (throttledFraction (now.sub prev)).map fun f ↦ (f, cur)

/-- The percentage of CPU time a cgroup used. -/
def intensity (x : CPUScores K) (r : CgroupCPUTime) : Option K :=
  if x.totalNs > 0 then (quotient (r.onCpuNs : K) x.totalNs).map (· * 100) else some 0

/-- The excess over the CPU request. -/
def fallback (x : CPUScores K) (intensity : K) (pod : PodID) : Option K :=
  if x.totalReq > 0 then do
    let fair := (← quotient (pod.requestMilliCPU : K) x.totalReq) * 100
    pure (clamp ((intensity - fair) / 100 / (1 / 2)) 0 1)
  else some (-1)

/-- The body of the loop of `cpuOffenders`. -/
def cpuStep [Sqrt K] (x : CPUScores K) (s : CPULoop K) (r : CgroupCPUTime) :
    Option (CPULoop K) := do
  let intensity ← intensity x r
  let o : Offender K :=
    { pod := x.res.label r.cgroupID, cpuMs := r.onCpuNs / 1000000, intensity,
      reqMilli := -1, throttlePct := 0, correlPct := -1, confidence := -1,
      verdict := .unattributed }
  match x.res.pod r.cgroupID with
  | none => pure { s with out := s.out ++ [o] }
  | some pod =>
      let verdict ← fairShareVerdict intensity pod.requestMilliCPU x.totalReq
      let throttle ← throttleFraction x.res x.prevThrottle r.cgroupID s.newThrottle
      let corr ← burstCorrelation x.tl r.cgroupID x.victimIDs
      let fallback ← fallback x intensity pod
      let harm := max x.victimSignal corr.1
      let confidence ← offenderConfidence x.cpuUsage r.cgroupID r.onCpuNs intensity harm fallback
        throttle.1
      pure
        { out := s.out ++ [{ o with
            reqMilli := pod.requestMilliCPU
            verdict
            throttlePct := throttle.1 * 100
            correlPct := corr.1 * 100
            confidence }]
          newThrottle := throttle.2
          maxConf := if confidence > s.maxConf then confidence else s.maxConf }

/-- `cpuOffenders`. -/
def cpuOffenders [Sqrt K] (srt : SliceSort) (topN : ℕ) (res : Resolver)
    (timeline : List CgroupTimeline) (prevThrottle : ℕ → Option CPUStat) (cpuUsage : Baseline K)
    (cpu : List CgroupCPUTime) (victimSignal : K) (victimIDs : List ℕ) (maxConf : K) :
    Option (CPULoop K) :=
  let x : CPUScores K :=
    { res, tl := timelineByCgroup timeline, prevThrottle, cpuUsage,
      totalNs := (cpu.map CgroupCPUTime.onCpuNs).sum, totalReq := totalRequest res cpu,
      victimSignal, victimIDs }
  ((srt.sort CgroupCPUTime.onCpuNs cpu).take topN).foldlM (cpuStep x) ⟨[], fun _ ↦ none, maxConf⟩

/-- The body of the loops of `ioOffenders` and `netOffenders`. -/
def throughputStep {σ : Type} (res : Resolver) (usage : Baseline K) (victimSignal : K)
    (s : List σ × K) (cg bytes total : ℕ) (row : K → K → σ) : Option (List σ × K) := do
  let sharePct ← share bytes total
  match res.pod cg with
  | none => pure (s.1 ++ [row sharePct (-1)], s.2)
  | some _ =>
      let confidence ← offenderConfidence usage cg bytes sharePct victimSignal (-1) 0
      pure (s.1 ++ [row sharePct confidence], if confidence > s.2 then confidence else s.2)

/-- `ioOffenders`. -/
def ioOffenders (srt : SliceSort) (topN : ℕ) (res : Resolver) (ioUsage : Baseline K)
    (blkio : List CgroupBlkio) (victimSignal maxConf : K) : Option (List (IOOffender K) × K) :=
  let total := (blkio.map CgroupBlkio.bytes).sum
  ((srt.sort CgroupBlkio.bytes blkio).take topN).foldlM (fun s r ↦
    throughputStep res ioUsage victimSignal s r.cgroupID r.bytes total
      fun sharePct confidence ↦
        ⟨res.label r.cgroupID, r.bytes / 1000000, sharePct, r.count, confidence⟩) ([], maxConf)

/-- `netOffenders`. -/
def netOffenders (srt : SliceSort) (topN : ℕ) (res : Resolver) (netUsage : Baseline K)
    (network : List CgroupNet) (victimSignal maxConf : K) : Option (List (NetOffender K) × K) :=
  let total := (network.map CgroupNet.txBytes).sum
  ((srt.sort CgroupNet.txBytes network).take topN).foldlM (fun s r ↦
    throughputStep res netUsage victimSignal s r.cgroupID r.txBytes total
      fun sharePct confidence ↦
        ⟨res.label r.cgroupID, r.txBytes / 1000000, sharePct, r.txSegs, confidence⟩) ([], maxConf)

/-- `observeUsage`. -/
def observeUsage (deviationFactor : K) (b : Baseline K) (cg : ℕ) (usage : K) :
    Option (Baseline K) := do
  let spiking := match ← deviation b cg usage with
    | some ratio => decide (ratio ≥ deviationFactor)
    | none => false
  pure (b.observe cg usage !spiking)

/-- `trackCPUUsage`, `trackIOUsage` and `trackNetUsage`. -/
def trackUsage {ρ : Type} (deviationFactor : K) (cgroup usage : ρ → ℕ) (b : Baseline K)
    (rs : List ρ) : Option (Baseline K) := do
  let b ← rs.foldlM (fun b r ↦ observeUsage deviationFactor b (cgroup r) (usage r)) b
  pure b.prune

end Offenders

/-! ### The interval -/

section Interval

variable [FloorSemiring K] [Sqrt K]

/-- `buildSnapshot`. -/
def buildSnapshot (srt : SliceSort) (a : Agent K) (i : ReportInterval) :
    Option (Snapshot K × Agent K) := do
  let (cpuVictims, cpuWorst, cpuVictimIDs, baseline) ←
    cpuVictims srt a.cfg i.res.label a.baseline i.runq
  let (ioVictims, ioWorst, ioBaseline) ← ioVictims srt a.cfg i.res.label a.ioBaseline i.blkio
  let (netVictims, netWorst, netBaseline) ←
    netVictims srt a.cfg i.res.label a.netBaseline i.network
  let cpuUsage ← trackUsage a.cfg.deviationFactor CgroupCPUTime.cgroupID CgroupCPUTime.onCpuNs
    a.cpuUsage i.cpu
  let ioUsage ← trackUsage a.cfg.deviationFactor CgroupBlkio.cgroupID CgroupBlkio.bytes
    a.ioUsage i.blkio
  let netUsage ← trackUsage a.cfg.deviationFactor CgroupNet.cgroupID CgroupNet.txBytes
    a.netUsage i.network
  let cpu ← (if cpuVictims.isEmpty then some ⟨[], a.prevThrottle, -1⟩
    else cpuOffenders srt a.cfg.topN i.res i.timeline a.prevThrottle cpuUsage i.cpu
      (signalFromRatio cpuWorst) cpuVictimIDs (-1))
  let io ← (if ioVictims.isEmpty then some ([], -1)
    else ioOffenders srt a.cfg.topN i.res ioUsage i.blkio (signalFromRatio ioWorst) (-1))
  let net ← (if netVictims.isEmpty then some ([], -1)
    else netOffenders srt a.cfg.topN i.res netUsage i.network (signalFromRatio netWorst) (-1))
  pure
    ({ nodeName := a.cfg.nodeName
       healthy := cpuVictims.isEmpty && ioVictims.isEmpty && netVictims.isEmpty
       cgroupsSeen := i.runq.length
       runqWarnUs := microseconds a.cfg.runqWarn
       minSamples := a.cfg.minSamples
       confidenceMin := a.cfg.confidenceThreshold
       maxConfidence := cpu.maxConf, offenders := cpu.out, victims := cpuVictims
       ioMaxConfidence := io.2, ioOffenders := io.1, ioVictims
       netMaxConfidence := net.2, netOffenders := net.1, netVictims },
     { a with
       prevThrottle := cpu.newThrottle
       baseline, ioBaseline, netBaseline, cpuUsage, ioUsage, netUsage })

variable (srt : SliceSort) (a : Agent K) (is : ℕ → ReportInterval)

/-- The agent before interval `n`. -/
def after : ℕ → Option (Agent K)
  | 0 => some a
  | n + 1 => do
      let a ← after n
      let (_, a) ← buildSnapshot srt a (is n)
      pure a

/-- The snapshot of interval `n`. -/
def snapshot (n : ℕ) : Option (Snapshot K) := do
  let a ← after srt a is n
  let (snap, _) ← buildSnapshot srt a (is n)
  pure snap

end Interval

end Checked

/-! ## Loops that may stop -/

section Loop

variable {β ρ : Type}

/-- A loop whose body needs something of each element gets through if all of them have it. -/
theorem foldlM_eq_ite {f : β → ρ → Option β} {g : β → ρ → β} {P : ρ → Prop} [DecidablePred P]
    (h : ∀ b r, f b r = if P r then some (g b r) else none) (l : List ρ) (b : β) :
    l.foldlM f b = if ∀ r ∈ l, P r then some (l.foldl g b) else none := by
  induction l generalizing b with
  | nil => simp
  | cons r l ih =>
      rw [List.foldlM_cons, h]
      by_cases hr : P r
      · rw [if_pos hr, Option.bind_eq_bind, Option.bind_some, ih, List.foldl_cons]
        simp [hr]
      · simp [hr]

theorem foldlM_eq_some {f : β → ρ → Option β} {g : β → ρ → β} (h : ∀ b r, f b r = some (g b r))
    (l : List ρ) (b : β) : l.foldlM f b = some (l.foldl g b) := by
  have hf : f = fun b r ↦ pure (g b r) := funext fun b ↦ funext fun r ↦ h b r
  rw [hf, List.foldlM_pure]
  rfl

end Loop

theorem quotient_of_ne {x y : K} (h : y ≠ 0) : quotient x y = some (x / y) := if_neg h

/-! ## Divisions that are guarded where they are made -/

section Guarded

/-- The learned normal is positive where it is divided by. -/
theorem deviation_checked (b : Baseline K) (key : ℕ) (current : K) :
    Checked.deviation b key current = some (b.deviation key current) := by
  unfold Checked.deviation Baseline.deviation
  cases b.state key with
  | none => rfl
  | some a =>
      dsimp only
      split_ifs with h
      · rfl
      · rw [not_or, not_le] at h
        rw [quotient_of_ne h.2.ne']
        rfl

theorem judgeVictim_checked (cfg : Config K) (b : Baseline K) (floor : K) (cg : ℕ) (value : K) :
    Checked.judgeVictim cfg b floor cg value = some (judgeVictim cfg b floor cg value) := by
  rw [Checked.judgeVictim, deviation_checked]
  rfl

theorem offenderConfidence_checked (b : Baseline K) (cg : ℕ)
    (usage sharePct victimSignal fallback throttle : K) :
    Checked.offenderConfidence b cg usage sharePct victimSignal fallback throttle =
      some (offenderConfidence b cg usage sharePct victimSignal fallback throttle) := by
  rw [Checked.offenderConfidence, deviation_checked]
  rfl

theorem trackUsage_checked {ρ : Type} (deviationFactor : K) (cgroup usage : ρ → ℕ)
    (b : Baseline K) (rs : List ρ) : Checked.trackUsage deviationFactor cgroup usage b rs =
      some (trackUsage deviationFactor cgroup usage b rs) := by
  have hobserve : ∀ (b : Baseline K) (r : ρ),
      Checked.observeUsage deviationFactor b (cgroup r) (usage r) =
        some (observeUsage deviationFactor b (cgroup r) (usage r)) := by
    intro b r
    rw [Checked.observeUsage, deviation_checked]
    rfl
  rw [Checked.trackUsage, foldlM_eq_some hobserve]
  rfl

section CharZero

variable [IsStrictOrderedRing K]

theorem quotient_natCast {x : K} {n : ℕ} (h : n ≠ 0) : quotient x n = some (x / n) :=
  quotient_of_ne (Nat.cast_ne_zero.mpr h)

theorem share_checked (part total : ℕ) : Checked.share part total = some (share part total : K) := by
  unfold Checked.share share
  split_ifs with h
  · rfl
  · rw [quotient_natCast h]
    rfl

theorem fairShareVerdict_checked (intensity : K) (reqMilli totalReqMilli : ℤ) :
    Checked.fairShareVerdict intensity reqMilli totalReqMilli =
      some (fairShareVerdict intensity reqMilli totalReqMilli) := by
  unfold Checked.fairShareVerdict fairShareVerdict
  split_ifs with h h'
  · rfl
  · rfl
  · have hne : (totalReqMilli : K) ≠ 0 := Int.cast_ne_zero.mpr (not_le.mp h').ne'
    rw [quotient_of_ne hne]
    rfl

theorem throttleFraction_checked (res : Resolver) (prev : ℕ → Option CPUStat) (cg : ℕ)
    (cur : ℕ → Option CPUStat) : Checked.throttleFraction res prev cg cur =
      some (throttleFraction res prev cg cur : K × _) := by
  have hfraction : ∀ s : CPUStat,
      Checked.throttledFraction s = some (s.throttledFraction : K) := by
    intro s
    unfold Checked.throttledFraction CPUStat.throttledFraction
    split_ifs with h
    · rfl
    · exact quotient_natCast h
  unfold Checked.throttleFraction throttleFraction
  cases res.cpuStat cg with
  | none => rfl
  | some now =>
      cases prev cg with
      | none => rfl
      | some prev => exact congrArg (Option.map _) (hfraction _)

theorem intensity_checked (x : CPUScores K) (r : CgroupCPUTime) :
    Checked.intensity x r = some (x.intensity r) := by
  unfold Checked.intensity CPUScores.intensity
  split_ifs with h
  · rw [quotient_natCast h.ne']
    rfl
  · rfl

theorem fallback_checked (x : CPUScores K) (r : CgroupCPUTime) (pod : PodID) :
    Checked.fallback x (x.intensity r) pod = some (x.fallback r pod) := by
  unfold Checked.fallback CPUScores.fallback
  split_ifs with h
  · have hne : (x.totalReq : K) ≠ 0 := Int.cast_ne_zero.mpr h.ne'
    rw [quotient_of_ne hne]
    rfl
  · rfl

end CharZero

end Guarded

/-! ## The burst correlation -/

section Correlation

variable [IsStrictOrderedRing K]

theorem variance_checked (xs : List K) : Checked.variance xs = some (variance xs) := by
  unfold Checked.variance variance
  split_ifs with h
  · rfl
  · rw [quotient_natCast h, Option.bind_eq_bind, Option.bind_some, quotient_natCast h]

variable [Sqrt K]

/-- Both variance terms are positive where the root of their product is divided by. -/
theorem pearsonLagged_checked (x y : List K) (lag : ℕ) :
    Checked.pearsonLagged x y lag = some (pearsonLagged x y lag) := by
  unfold Checked.pearsonLagged pearsonLagged
  dsimp only
  split_ifs with h3 hv
  · rfl
  · rfl
  · rw [not_or, not_le, not_le] at hv
    rw [quotient_of_ne (Sqrt.sqrt_pos (mul_pos hv.1 hv.2)).ne']
    rfl

theorem lagSearch_checked (x y : List K) (lags : List ℕ) (best : Option (K × ℕ)) :
    Checked.lagSearch x y lags best = some (lagSearch x y lags best) := by
  induction lags generalizing best with
  | nil => rfl
  | cons lag lags ih =>
      cases best with
      | none =>
          simp only [Checked.lagSearch, lagSearch, pearsonLagged_checked, ih, Option.bind_eq_bind,
            Option.bind_some, Option.pure_def]
          split_ifs <;> rfl
      | some p =>
          simp only [Checked.lagSearch, lagSearch, pearsonLagged_checked, ih, Option.bind_eq_bind,
            Option.bind_some, Option.pure_def]
          split_ifs <;> rfl

theorem correlate_checked (x y : List K) (cfg : CorrelationConfig K) :
    Checked.correlate x y cfg = some (correlate x y cfg) := by
  by_cases hlen : x.length ≠ y.length ∨ x.length = 0
  · rw [Checked.correlate, if_pos hlen, correlate, if_pos hlen]
  rw [Checked.correlate, if_neg hlen, correlate, if_neg hlen]
  dsimp only
  by_cases hact : ((min (activeCount x cfg.activeFloor) (activeCount y cfg.activeFloor) : ℕ) : ℤ) <
      cfg.minActive
  · rw [if_pos hact, if_pos hact]
    rfl
  rw [if_neg hact, if_neg hact]
  by_cases hfloor : cfg.varianceFloor > 0
  · simp only [if_pos hfloor, variance_checked, lagSearch_checked, Option.bind_eq_bind,
      Option.bind_some]
    by_cases hlow : variance x < cfg.varianceFloor ∨ variance y < cfg.varianceFloor
    · rw [if_pos hlow, if_pos ⟨hfloor, hlow⟩]
      rfl
    · rw [if_neg hlow, if_neg fun h ↦ hlow h.2]
      cases lagSearch x y (List.range (cfg.maxLag + 1).toNat) none <;> rfl
  · rw [if_neg hfloor, if_neg fun h ↦ hfloor h.1, lagSearch_checked, Option.bind_eq_bind,
      Option.bind_some]
    cases lagSearch x y (List.range (cfg.maxLag + 1).toNat) none <;> rfl

theorem burstCorrelation_checked (tl : ℕ → Option CgroupTimeline) (offender : ℕ)
    (victims : List ℕ) : Checked.burstCorrelation tl offender victims =
      some (burstCorrelation tl offender victims : K × ℕ) := by
  have hstep : ∀ (offCPU : List K) (best : K × ℕ) (v : ℕ),
      Checked.burstStep tl offCPU best v = some (burstStep tl offCPU best v) := by
    intro offCPU best v
    unfold Checked.burstStep burstStep
    cases tl v with
    | none => rfl
    | some vt =>
        dsimp only
        rw [correlate_checked]
        rfl
  unfold Checked.burstCorrelation burstCorrelation
  cases tl offender with
  | none => rfl
  | some off => exact foldlM_eq_some (hstep _) _ _

end Correlation

/-! ## Offenders -/

section Offenders

variable [IsStrictOrderedRing K]

theorem cpuOffenders_checked [Sqrt K] (srt : SliceSort) (topN : ℕ) (res : Resolver)
    (timeline : List CgroupTimeline) (prev : ℕ → Option CPUStat) (cpuUsage : Baseline K)
    (cpu : List CgroupCPUTime) (victimSignal : K) (victimIDs : List ℕ) (maxConf : K) :
    Checked.cpuOffenders srt topN res timeline prev cpuUsage cpu victimSignal victimIDs maxConf =
      some (cpuOffenders srt topN res timeline prev cpuUsage cpu victimSignal victimIDs
        maxConf) := by
  refine foldlM_eq_some (fun s r ↦ ?_) _ _
  unfold Checked.cpuStep CPUScores.step
  rw [intensity_checked, Option.bind_eq_bind, Option.bind_some]
  dsimp only
  cases res.pod r.cgroupID with
  | none => rfl
  | some pod =>
      simp only [fairShareVerdict_checked, throttleFraction_checked, burstCorrelation_checked,
        fallback_checked, offenderConfidence_checked, Option.bind_some]
      rfl

theorem throughputStep_checked {σ : Type} (res : Resolver) (usage : Baseline K) (victimSignal : K)
    (s : List σ × K) (cg bytes total : ℕ) (row : K → K → σ) :
    Checked.throughputStep res usage victimSignal s cg bytes total row =
      some (throughputStep res usage victimSignal s cg bytes (share bytes total)
        (row (share bytes total))) := by
  unfold Checked.throughputStep throughputStep
  rw [share_checked, Option.bind_eq_bind, Option.bind_some]
  cases res.pod cg with
  | none => rfl
  | some pod =>
      simp only [offenderConfidence_checked, Option.bind_some]
      rfl

theorem ioOffenders_checked (srt : SliceSort) (topN : ℕ) (res : Resolver) (ioUsage : Baseline K)
    (blkio : List CgroupBlkio) (victimSignal maxConf : K) :
    Checked.ioOffenders srt topN res ioUsage blkio victimSignal maxConf =
      some (ioOffenders srt topN res ioUsage blkio victimSignal maxConf) :=
  foldlM_eq_some (fun _ _ ↦ throughputStep_checked _ _ _ _ _ _ _ _) _ _

theorem netOffenders_checked (srt : SliceSort) (topN : ℕ) (res : Resolver) (netUsage : Baseline K)
    (network : List CgroupNet) (victimSignal maxConf : K) :
    Checked.netOffenders srt topN res netUsage network victimSignal maxConf =
      some (netOffenders srt topN res netUsage network victimSignal maxConf) :=
  foldlM_eq_some (fun _ _ ↦ throughputStep_checked _ _ _ _ _ _ _ _) _ _

end Offenders

/-! ## Victims -/

section Victims

variable {ρ σ : Type}

theorem step_checked (d : Dimension K ρ σ) {value : ρ → Option (Option K)} (cfg : Config K)
    (s : Scan K σ) {r : ρ} (h : value r = some (d.value r)) :
    Checked.step d value cfg s r = some (d.step cfg s r) := by
  rw [Checked.step, h, Option.bind_eq_bind, Option.bind_some, Dimension.step]
  cases d.value r with
  | none => rfl
  | some v =>
      simp only [judgeVictim_checked, Option.bind_eq_bind, Option.bind_some]
      exact (apply_ite some _ _ _).symm

theorem scan_checked (d : Dimension K ρ σ) (cfg : Config K) (b : Baseline K) (rs : List ρ) :
    Checked.scan d (fun r ↦ some (d.value r)) cfg b rs = some (d.scan cfg b rs) :=
  foldlM_eq_some (fun s _ ↦ step_checked d cfg s rfl) _ _

/-- The rate of a reading is a number: it is not judged, or something was sent. -/
def RateDefined (cfg : Config K) (r : CgroupNet) : Prop :=
  uint64 cfg.minSegs ≤ r.txSegs → uint64 cfg.retransWarn ≤ r.retransmits → r.txSegs ≠ 0

instance (cfg : Config K) : DecidablePred (RateDefined cfg) := fun _ ↦
  inferInstanceAs (Decidable (_ → _ → _))

variable [IsStrictOrderedRing K]

theorem retransmitRate_checked (cfg : Config K) (label : ℕ → String) (r : CgroupNet) :
    Checked.retransmitRate cfg r =
      if RateDefined cfg r then some ((netDimension cfg label).value r) else none := by
  unfold Checked.retransmitRate netDimension
  dsimp only
  by_cases hsegs : r.txSegs < uint64 cfg.minSegs
  · have hd : RateDefined cfg r := fun h ↦ absurd hsegs h.not_gt
    rw [if_pos hsegs, if_pos hsegs, if_pos hd]
  by_cases hretrans : r.retransmits < uint64 cfg.retransWarn
  · have hd : RateDefined cfg r := fun _ h ↦ absurd hretrans h.not_gt
    rw [if_neg hsegs, if_neg hsegs, if_pos hretrans, if_pos hretrans, if_pos hd]
  rw [if_neg hsegs, if_neg hsegs, if_neg hretrans, if_neg hretrans]
  by_cases hzero : r.txSegs = 0
  · have hd : ¬ RateDefined cfg r := fun h ↦ h (not_lt.mp hsegs) (not_lt.mp hretrans) hzero
    have hcast : (r.txSegs : K) = 0 := by rw [hzero, Nat.cast_zero]
    rw [if_neg hd, quotient, if_pos hcast]
    rfl
  · have hd : RateDefined cfg r := fun _ _ ↦ hzero
    rw [if_pos hd, quotient_natCast hzero]
    rfl

theorem netVictims_checked (srt : SliceSort) (cfg : Config K) (label : ℕ → String)
    (b : Baseline K) (network : List CgroupNet) :
    Checked.netVictims srt cfg label b network =
      if ∀ r ∈ network, RateDefined cfg r then some (netVictims srt cfg label b network)
      else none := by
  have hstep : ∀ (s : Scan K (NetVictim K)) (r : CgroupNet),
      Checked.step (netDimension cfg label) (Checked.retransmitRate cfg) cfg s r =
        if RateDefined cfg r then some ((netDimension cfg label).step cfg s r) else none := by
    intro s r
    have hrate := retransmitRate_checked cfg label r
    by_cases h : RateDefined cfg r
    · rw [if_pos h] at hrate ⊢
      exact step_checked _ cfg s hrate
    · rw [if_neg h] at hrate ⊢
      rw [Checked.step, hrate]
      rfl
  rw [Checked.netVictims, Checked.scan, foldlM_eq_ite hstep]
  split_ifs <;> rfl

end Victims

/-! ## Runs -/

section Runs

variable [FloorSemiring K] [Sqrt K] [IsStrictOrderedRing K]

/-- The rates of an interval are numbers. -/
def RatesDefined (cfg : Config K) (i : ReportInterval) : Prop :=
  ∀ r ∈ i.network, RateDefined cfg r

instance (cfg : Config K) (i : ReportInterval) : Decidable (RatesDefined cfg i) :=
  inferInstanceAs (Decidable (∀ r ∈ i.network, RateDefined cfg r))

/-- Of all divisions of an interval only the retransmit rate is not guarded where it is made. -/
theorem buildSnapshot_checked (srt : SliceSort) (a : Agent K) (i : ReportInterval) :
    Checked.buildSnapshot srt a i =
      if RatesDefined a.cfg i then some (buildSnapshot srt a i) else none := by
  have hcpu : Checked.cpuVictims srt a.cfg i.res.label a.baseline i.runq =
      some (cpuVictims srt a.cfg i.res.label a.baseline i.runq) := by
    rw [Checked.cpuVictims, scan_checked]
    rfl
  have hio : Checked.ioVictims srt a.cfg i.res.label a.ioBaseline i.blkio =
      some (ioVictims srt a.cfg i.res.label a.ioBaseline i.blkio) := by
    rw [Checked.ioVictims, scan_checked]
    rfl
  have hnet := netVictims_checked srt a.cfg i.res.label a.netBaseline i.network
  by_cases h : RatesDefined a.cfg i
  · have hrates : ∀ r ∈ i.network, RateDefined a.cfg r := h
    rw [if_pos hrates] at hnet
    rw [if_pos h, Checked.buildSnapshot, hcpu, hio, hnet]
    simp only [trackUsage_checked, cpuOffenders_checked, ioOffenders_checked, netOffenders_checked,
      Option.bind_eq_bind, Option.bind_some, ← apply_ite some, Option.pure_def]
    rfl
  · have hrates : ¬ ∀ r ∈ i.network, RateDefined a.cfg r := h
    rw [if_neg hrates] at hnet
    rw [if_neg h, Checked.buildSnapshot, hcpu, hio, hnet]
    rfl

variable (srt : SliceSort) (a : Agent K) (is : ℕ → ReportInterval)

/-- A run gets as far as its first undefined rate. -/
theorem after_checked (n : ℕ) : Checked.after srt a is n =
    if ∀ k < n, RatesDefined a.cfg (is k) then some (a.after srt is n) else none := by
  induction n with
  | zero => simp [Checked.after, Agent.after]
  | succ n ih =>
      rw [Checked.after, ih]
      by_cases hbefore : ∀ k < n, RatesDefined a.cfg (is k)
      · rw [if_pos hbefore, Option.bind_eq_bind, Option.bind_some, buildSnapshot_checked,
          Agent.after_cfg]
        by_cases hn : RatesDefined a.cfg (is n)
        · have hall : ∀ k < n + 1, RatesDefined a.cfg (is k) := by
            intro k hk
            rcases Nat.lt_succ_iff_lt_or_eq.mp hk with hlt | rfl
            · exact hbefore k hlt
            · exact hn
          rw [if_pos hn, if_pos hall]
          rfl
        · rw [if_neg hn, if_neg fun h ↦ hn (h n n.lt_succ_self)]
          rfl
      · rw [if_neg hbefore, if_neg fun h ↦ hbefore fun k hk ↦ h k (hk.trans n.lt_succ_self)]
        rfl

/-- The numbers of interval `n`, in its snapshot and in the agent after it, are finite: no
division up to then had a zero denominator. -/
def FiniteAt (n : ℕ) : Prop :=
  Checked.snapshot srt a is n = some (buildSnapshot srt (a.after srt is n) (is n)).1 ∧
    Checked.after srt a is (n + 1) = some (a.after srt is (n + 1))

variable {srt a is} {n : ℕ}

theorem finiteAt_of_rates (h : ∀ k ≤ n, RatesDefined a.cfg (is k)) : FiniteAt srt a is n := by
  constructor
  · rw [Checked.snapshot, after_checked, if_pos fun k hk ↦ h k hk.le, Option.bind_eq_bind,
      Option.bind_some, buildSnapshot_checked, Agent.after_cfg, if_pos (h n le_rfl)]
    rfl
  · rw [after_checked, if_pos fun k hk ↦ h k (Nat.le_of_lt_succ hk)]

theorem rates_of_finiteAt (h : FiniteAt srt a is n) : ∀ k ≤ n, RatesDefined a.cfg (is k) := by
  intro k hk
  have hafter := h.2
  rw [after_checked] at hafter
  by_contra hundefined
  rw [if_neg fun h ↦ hundefined (h k (Nat.lt_succ_of_le hk))] at hafter
  cases hafter

/-- A gate of one segment, or more, is enough. -/
theorem ratesDefined_of_minSegs {K : Type} {cfg : Config K} (hpos : 0 < cfg.minSegs)
    (hlt : cfg.minSegs < 2 ^ 64) (i : ReportInterval) : RatesDefined cfg i := by
  intro r _ hsegs _ hzero
  have hmin : uint64 cfg.minSegs = cfg.minSegs.toNat := by
    rw [uint64, Int.emod_eq_of_lt hpos.le hlt]
  omega

end Runs

/-! ## A retransmission without a segment -/

/-- A cgroup that sends nothing in an interval, while what it sent before is retransmitted. -/
def strayRetransmits : ReportInterval where
  cpu := []
  runq := []
  blkio := []
  network := [⟨1, 12, 0, 0⟩]
  timeline := []
  res := ⟨fun _ ↦ none, fun _ ↦ none, fun _ ↦ none, fun _ ↦ none⟩
