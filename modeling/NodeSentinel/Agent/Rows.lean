import NodeSentinel.Agent.BuildSnapshot
import NodeSentinel.Data.Maximum

/-!
# The tables of an interval

The loops of `cpuOffenders`, `ioOffenders` and `netOffenders` treat the cgroups one by one:
each row is made of one reading, and the highest confidence is a maximum over the rows.
`Table` holds what such a loop ranks and how it scores it; `TopN` is no part of it.
-/

/-! ## Loops that append rows -/

section Loop

variable {K : Type} [LinearOrder K] [Field K] {β ρ σ : Type} {step : β → ρ → β}
  {out : β → List σ} {top : β → K} {row : ρ → σ} {score : ρ → K}

/-- A loop that appends a row for each reading and keeps the larger score. -/
theorem foldl_rows
    (h : ∀ s r, -1 ≤ top s → out (step s r) = out s ++ [row r] ∧
      top (step s r) = max (top s) (score r))
    {s : β} (hs : -1 ≤ top s) (l : List ρ) :
    out (l.foldl step s) = out s ++ l.map row ∧
      top (l.foldl step s) = (l.map score).foldl max (top s) := by
  induction l generalizing s with
  | nil => simp
  | cons r l ih =>
      obtain ⟨hout, htop⟩ := h s r hs
      obtain ⟨ihout, ihtop⟩ := ih (s := step s r) (htop ▸ le_max_of_le_left hs)
      constructor
      · rw [List.foldl_cons, ihout, hout, List.append_assoc, List.singleton_append, List.map_cons]
      · rw [List.foldl_cons, ihtop, htop, List.map_cons, List.foldl_cons]

end Loop

/-! ## The rows of the CPU table -/

section Throttle

variable {K : Type} [Field K] {res : Resolver} {prev : ℕ → Option CPUStat} {cg : ℕ}

theorem throttleFraction_fst (cur : ℕ → Option CPUStat) :
    (throttleFraction res prev cg cur : K × _).1 =
      (throttleFraction res prev cg fun _ ↦ none : K × _).1 := by
  unfold throttleFraction
  cases res.cpuStat cg with
  | none => rfl
  | some now => cases prev cg <;> rfl

theorem throttleFraction_snd (cur : ℕ → Option CPUStat) (cg' : ℕ) :
    (throttleFraction res prev cg cur : K × _).2 cg' =
      if cg' = cg then (res.cpuStat cg).or (cur cg) else cur cg' := by
  unfold throttleFraction
  by_cases h : cg' = cg
  · subst h
    cases res.cpuStat cg' with
    | none => simp
    | some now => cases prev cg' <;> simp
  · cases res.cpuStat cg with
    | none => simp [h]
    | some now => cases prev cg <;> simp [h]

end Throttle

variable {K : Type} [Field K] [LinearOrder K]

namespace CPUScores

variable [Sqrt K] (x : CPUScores K)

/-- The throttle fraction of a cgroup. -/
def throttle (cg : ℕ) : K := (throttleFraction x.res x.prevThrottle cg fun _ ↦ none).1

/-- The confidence of a cgroup that is resolved. -/
def confidence (r : CgroupCPUTime) (pod : PodID) : K :=
  offenderConfidence x.cpuUsage r.cgroupID r.onCpuNs (x.intensity r)
    (max x.victimSignal (burstCorrelation x.tl r.cgroupID x.victimIDs).1) (x.fallback r pod)
    (x.throttle r.cgroupID)

/-- The confidence in a row. -/
def score (r : CgroupCPUTime) : K :=
  match x.res.pod r.cgroupID with
  | none => -1
  | some pod => x.confidence r pod

/-- The row of a reading. -/
def row (r : CgroupCPUTime) : Offender K :=
  let o : Offender K :=
    { pod := x.res.label r.cgroupID, cpuMs := r.onCpuNs / 1000000, intensity := x.intensity r,
      reqMilli := -1, throttlePct := 0, correlPct := -1, confidence := -1,
      verdict := .unattributed }
  match x.res.pod r.cgroupID with
  | none => o
  | some pod =>
      { o with
        reqMilli := pod.requestMilliCPU
        verdict := fairShareVerdict (x.intensity r) pod.requestMilliCPU x.totalReq
        throttlePct := x.throttle r.cgroupID * 100
        correlPct := (burstCorrelation x.tl r.cgroupID x.victimIDs).1 * 100
        confidence := x.confidence r pod }

/-- The `cpu.stat` of a cgroup in the table, if it is resolved. -/
def reading (cg : ℕ) : Option CPUStat := (x.res.pod cg).bind fun _ ↦ x.res.cpuStat cg

omit [LinearOrder K] [Sqrt K] in
theorem throttle_eq (cg : ℕ) : x.throttle cg =
    match x.res.cpuStat cg, x.prevThrottle cg with
    | some now, some prev => (now.sub prev).throttledFraction
    | _, _ => 0 := by
  unfold throttle throttleFraction
  cases x.res.cpuStat cg with
  | none => rfl
  | some now => cases x.prevThrottle cg <;> rfl

variable {x} in
/-- Earlier readings only matter by the throttle fraction of a resolved cgroup. -/
theorem row_congr {prev : ℕ → Option CPUStat} {r : CgroupCPUTime}
    (h : (x.res.pod r.cgroupID).isSome →
      ({ x with prevThrottle := prev } : CPUScores K).throttle r.cgroupID =
        x.throttle r.cgroupID) :
    ({ x with prevThrottle := prev } : CPUScores K).row r = x.row r ∧
      ({ x with prevThrottle := prev } : CPUScores K).score r = x.score r := by
  unfold row score
  cases hp : x.res.pod r.cgroupID with
  | none => exact ⟨rfl, rfl⟩
  | some pod =>
      have ht := h (by rw [hp]; rfl)
      have hc : ({ x with prevThrottle := prev } : CPUScores K).confidence r pod =
          x.confidence r pod := by
        unfold confidence
        rw [ht]
        rfl
      dsimp only
      rw [hc, ht]
      exact ⟨rfl, rfl⟩

@[simp] theorem row_pod (r : CgroupCPUTime) : (x.row r).pod = x.res.label r.cgroupID := by
  unfold row
  cases x.res.pod r.cgroupID <;> rfl

variable {x} in
theorem row_throttlePct {r : CgroupCPUTime} (h : (x.res.pod r.cgroupID).isSome) :
    (x.row r).throttlePct = x.throttle r.cgroupID * 100 := by
  obtain ⟨pod, h⟩ := Option.isSome_iff_exists.mp h
  unfold row
  rw [h]

@[simp] theorem row_confidence (r : CgroupCPUTime) : (x.row r).confidence = x.score r := by
  unfold row score
  cases x.res.pod r.cgroupID <;> rfl

theorem step_eq (s : CPULoop K) (r : CgroupCPUTime) (hs : -1 ≤ s.maxConf) :
    (x.step s r).out = s.out ++ [x.row r] ∧
      (x.step s r).maxConf = max s.maxConf (x.score r) := by
  unfold step row score
  cases x.res.pod r.cgroupID with
  | none => exact ⟨rfl, (max_eq_left hs).symm⟩
  | some pod =>
      dsimp only
      rw [throttleFraction_fst]
      exact ⟨rfl, max_eq_ite _ _⟩

theorem step_newThrottle (s : CPULoop K) (r : CgroupCPUTime) (cg : ℕ) :
    (x.step s r).newThrottle cg =
      if cg = r.cgroupID then (x.reading cg).or (s.newThrottle cg) else s.newThrottle cg := by
  unfold step reading
  by_cases h : cg = r.cgroupID
  · subst h
    cases x.res.pod r.cgroupID with
    | none => simp
    | some pod =>
        rw [if_pos rfl, Option.bind_some]
        exact (throttleFraction_snd _ _).trans (if_pos rfl)
  · cases x.res.pod r.cgroupID with
    | none => simp [h]
    | some pod =>
        rw [if_neg h]
        exact (throttleFraction_snd _ _).trans (if_neg h)

theorem foldl_newThrottle (l : List CgroupCPUTime) (s : CPULoop K) (cg : ℕ) :
    (l.foldl x.step s).newThrottle cg =
      if cg ∈ l.map CgroupCPUTime.cgroupID then (x.reading cg).or (s.newThrottle cg)
      else s.newThrottle cg := by
  induction l generalizing s with
  | nil => simp
  | cons r l ih =>
      rw [List.foldl_cons, ih, step_newThrottle]
      by_cases h : cg = r.cgroupID
      · cases hx : x.reading cg <;> simp [h]
      · simp [h]

end CPUScores

/-! ## The rows of the disk and network tables -/

section Throughput

variable {σ : Type} {res : Resolver} {usage : Baseline K} {victimSignal : K}

/-- The confidence in a row of `ioOffenders` or `netOffenders`. -/
def throughputScore (res : Resolver) (usage : Baseline K) (victimSignal : K) (cg bytes : ℕ)
    (sharePct : K) : K :=
  match res.pod cg with
  | none => -1
  | some _ => offenderConfidence usage cg bytes sharePct victimSignal (-1) 0

theorem throughputStep_eq (s : List σ × K) (cg bytes : ℕ) (sharePct : K) (row : K → σ)
    (hs : -1 ≤ s.2) :
    (throughputStep res usage victimSignal s cg bytes sharePct row).1 =
        s.1 ++ [row (throughputScore res usage victimSignal cg bytes sharePct)] ∧
      (throughputStep res usage victimSignal s cg bytes sharePct row).2 =
        max s.2 (throughputScore res usage victimSignal cg bytes sharePct) := by
  unfold throughputStep throughputScore
  cases res.pod cg with
  | none => exact ⟨rfl, (max_eq_left hs).symm⟩
  | some pod => exact ⟨rfl, max_eq_ite _ _⟩

end Throughput

/-! ## Tables -/

/-- What a table of offenders is cut from: the readings by descending usage, whether the
dimension has a victim, and the row and confidence of each reading. -/
structure Table (K ρ σ : Type) where
  ranked : List ρ
  cgroup : ρ → ℕ
  harmed : Bool
  row : ρ → σ
  score : ρ → K

namespace Table

variable {ρ σ : Type}

section Listed

variable (t : Table K ρ σ)

/-- The readings in a table of `n` rows. -/
def listed (n : ℕ) : List ρ := if t.harmed then t.ranked.take n else []

/-- Its rows. -/
def rows (n : ℕ) : List σ := (t.listed n).map t.row

/-- The highest confidence, `-1` if nothing is attributed. -/
def top (n : ℕ) : K := ((t.listed n).map t.score).foldl max (-1)

end Listed

variable {t : Table K ρ σ}

omit [Field K] [LinearOrder K] in
theorem listed_of_harmed (h : t.harmed = true) (n : ℕ) : t.listed n = t.ranked.take n := if_pos h

/-- A loop over the first `n` of the ranking fills the table, and without victims, or
without rows, no loop does. -/
theorem foldl_eq {β : Type} {step : β → ρ → β} {out : β → List σ} {top : β → K}
    (h : ∀ s r, -1 ≤ top s → out (step s r) = out s ++ [t.row r] ∧
      top (step s r) = max (top s) (t.score r))
    {s s' : β} (hs : out s = [] ∧ top s = -1) (hs' : out s' = [] ∧ top s' = -1) {c : Bool} {n : ℕ}
    (hc : c = (!t.harmed || n == 0)) :
    out (if c then s' else (t.ranked.take n).foldl step s) = t.rows n ∧
      top (if c then s' else (t.ranked.take n).foldl step s) = t.top n := by
  obtain ⟨hout, htop⟩ := foldl_rows h hs.2.ge (t.listed n)
  rw [hs.1, List.nil_append] at hout
  rw [hs.2] at htop
  refine ⟨Eq.trans ?_ hout, Eq.trans ?_ htop⟩
  all_goals
    subst hc
    cases hh : t.harmed with
    | false => simp [listed, hh, hs, hs']
    | true =>
        cases n with
        | zero => simp [listed, hs, hs']
        | succ n => simp [listed, hh]

end Table

section Snapshot

variable [FloorSemiring K] [Sqrt K] (srt : SliceSort) (a : Agent K) (i : ReportInterval)

/-- The victims of CPU contention. -/
def cpuScan : Scan K (Victim K) := (cpuDimension a.cfg i.res.label).scan a.cfg a.baseline i.runq

/-- The victims of the disk. -/
def ioScan : Scan K (Victim K) := (ioDimension a.cfg i.res.label).scan a.cfg a.ioBaseline i.blkio

/-- The victims of the network. -/
def netScan : Scan K (NetVictim K) :=
  (netDimension a.cfg i.res.label).scan a.cfg a.netBaseline i.network

/-- What the loop of `cpuOffenders` reads in an interval. -/
def cpuScores : CPUScores K where
  res := i.res
  tl := timelineByCgroup i.timeline
  prevThrottle := a.prevThrottle
  cpuUsage := trackUsage a.cfg.deviationFactor CgroupCPUTime.cgroupID CgroupCPUTime.onCpuNs
    a.cpuUsage i.cpu
  totalNs := (i.cpu.map CgroupCPUTime.onCpuNs).sum
  totalReq := totalRequest i.res i.cpu
  victimSignal := signalFromRatio (cpuScan a i).worst
  victimIDs := (cpuScan a i).ids

/-- The table of `cpuOffenders`. -/
def cpuTable : Table K CgroupCPUTime (Offender K) where
  ranked := srt.sort CgroupCPUTime.onCpuNs i.cpu
  cgroup := CgroupCPUTime.cgroupID
  harmed := !(cpuScan a i).out.isEmpty
  row := (cpuScores a i).row
  score := (cpuScores a i).score

/-- The confidence of a user of the disk. -/
def ioScore (r : CgroupBlkio) : K :=
  throughputScore i.res
    (trackUsage a.cfg.deviationFactor CgroupBlkio.cgroupID CgroupBlkio.bytes a.ioUsage i.blkio)
    (signalFromRatio (ioScan a i).worst) r.cgroupID r.bytes
    (share r.bytes (i.blkio.map CgroupBlkio.bytes).sum)

/-- The table of `ioOffenders`. -/
def ioTable : Table K CgroupBlkio (IOOffender K) where
  ranked := srt.sort CgroupBlkio.bytes i.blkio
  cgroup := CgroupBlkio.cgroupID
  harmed := !(ioScan a i).out.isEmpty
  row r := ⟨i.res.label r.cgroupID, r.bytes / 1000000,
    share r.bytes (i.blkio.map CgroupBlkio.bytes).sum, r.count, ioScore a i r⟩
  score := ioScore a i

/-- The confidence of a sender. -/
def netScore (r : CgroupNet) : K :=
  throughputScore i.res
    (trackUsage a.cfg.deviationFactor CgroupNet.cgroupID CgroupNet.txBytes a.netUsage i.network)
    (signalFromRatio (netScan a i).worst) r.cgroupID r.txBytes
    (share r.txBytes (i.network.map CgroupNet.txBytes).sum)

/-- The table of `netOffenders`. -/
def netTable : Table K CgroupNet (NetOffender K) where
  ranked := srt.sort CgroupNet.txBytes i.network
  cgroup := CgroupNet.cgroupID
  harmed := !(netScan a i).out.isEmpty
  row r := ⟨i.res.label r.cgroupID, r.txBytes / 1000000,
    share r.txBytes (i.network.map CgroupNet.txBytes).sum, r.txSegs, netScore a i r⟩
  score := netScore a i

variable {srt a i}

/-- The cut leaves no victim if there is none, or if no row is printed. -/
theorem SliceSort.isEmpty_capVictims {α κ : Type} [LinearOrder κ] (srt : SliceSort) (key : α → κ)
    {v : List α} {n : ℕ} : (capVictims (srt.sort key v) n).isEmpty = (v.isEmpty || n == 0) := by
  rw [Bool.eq_iff_iff, List.isEmpty_iff, Bool.or_eq_true, List.isEmpty_iff, beq_iff_eq, capVictims,
    List.take_eq_nil_iff, or_comm, ← List.length_eq_zero_iff, srt.length_sort,
    List.length_eq_zero_iff]

theorem buildSnapshot_healthy : (buildSnapshot srt a i).1.healthy =
    ((!(cpuTable srt a i).harmed || a.cfg.topN == 0) &&
      (!(ioTable srt a i).harmed || a.cfg.topN == 0) &&
      (!(netTable srt a i).harmed || a.cfg.topN == 0)) := by
  simp only [cpuTable, ioTable, netTable, Bool.not_not]
  rw [← SliceSort.isEmpty_capVictims srt Victim.p99us,
    ← SliceSort.isEmpty_capVictims srt Victim.p99us,
    ← SliceSort.isEmpty_capVictims srt NetVictim.retransmits]
  rfl

/-- The CPU half of a snapshot is the table of `TopN` rows. -/
theorem buildSnapshot_cpu :
    (buildSnapshot srt a i).1.offenders = (cpuTable srt a i).rows a.cfg.topN ∧
      (buildSnapshot srt a i).1.maxConfidence = (cpuTable srt a i).top a.cfg.topN :=
  Table.foldl_eq (t := cpuTable srt a i) (fun s r hs ↦ (cpuScores a i).step_eq s r hs) ⟨rfl, rfl⟩
    ⟨rfl, rfl⟩ (by
      simp only [cpuTable, Bool.not_not]
      exact SliceSort.isEmpty_capVictims _ _)

theorem buildSnapshot_io :
    (buildSnapshot srt a i).1.ioOffenders = (ioTable srt a i).rows a.cfg.topN ∧
      (buildSnapshot srt a i).1.ioMaxConfidence = (ioTable srt a i).top a.cfg.topN :=
  Table.foldl_eq (t := ioTable srt a i) (fun s r hs ↦ throughputStep_eq s _ _ _ _ hs) ⟨rfl, rfl⟩
    ⟨rfl, rfl⟩ (by
      simp only [ioTable, Bool.not_not]
      exact SliceSort.isEmpty_capVictims _ _)

theorem buildSnapshot_net :
    (buildSnapshot srt a i).1.netOffenders = (netTable srt a i).rows a.cfg.topN ∧
      (buildSnapshot srt a i).1.netMaxConfidence = (netTable srt a i).top a.cfg.topN :=
  Table.foldl_eq (t := netTable srt a i) (fun s r hs ↦ throughputStep_eq s _ _ _ _ hs) ⟨rfl, rfl⟩
    ⟨rfl, rfl⟩ (by
      simp only [netTable, Bool.not_not]
      exact SliceSort.isEmpty_capVictims _ _)

/-- An interval without CPU victims keeps the readings of `cpu.stat`; any other replaces them
by those of the cgroups in its table. -/
theorem buildSnapshot_prevThrottle (cg : ℕ) : (buildSnapshot srt a i).2.prevThrottle cg =
    if (!(cpuTable srt a i).harmed || a.cfg.topN == 0) then a.prevThrottle cg
    else if cg ∈ ((cpuTable srt a i).listed a.cfg.topN).map CgroupCPUTime.cgroupID then
      (cpuScores a i).reading cg
    else none := by
  have hc : (buildSnapshot srt a i).1.victims.isEmpty =
      (!(cpuTable srt a i).harmed || a.cfg.topN == 0) := by
    simp only [cpuTable, Bool.not_not]
    exact SliceSort.isEmpty_capVictims _ _
  have hstep : (buildSnapshot srt a i).2.prevThrottle =
      (if (buildSnapshot srt a i).1.victims.isEmpty then ⟨[], a.prevThrottle, -1⟩
        else ((cpuTable srt a i).ranked.take a.cfg.topN).foldl (cpuScores a i).step
          ⟨[], fun _ ↦ none, -1⟩).newThrottle := rfl
  rw [hstep, hc]
  split_ifs with h h'
  · rfl
  all_goals
    rw [Bool.or_eq_true, not_or, Bool.not_eq_true', Bool.not_eq_false] at h
    rw [Table.listed_of_harmed h.1] at h'
    rw [CPUScores.foldl_newThrottle]
  · rw [if_pos h', Option.or_none]
  · rw [if_neg h']

end Snapshot
