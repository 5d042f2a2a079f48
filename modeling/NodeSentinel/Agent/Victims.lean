import NodeSentinel.Agent.Config
import NodeSentinel.Data.Keyed
import NodeSentinel.Data.SliceSort
import NodeSentinel.Ebpf.Types
import NodeSentinel.Metrics.Baseline
import NodeSentinel.Metrics.Histogram
import NodeSentinel.Report.Snapshot

/-!
# Judging victims

`judgeVictim` and the three passes that use it.  The passes differ in the gate a reading
has to clear, in the value that is judged and in the row they print; `Dimension` holds
these, and `scan` is the loop.
-/

variable {K : Type} [Field K] [LinearOrder K]

/-- The verdict on one reading. -/
structure Judgement (K : Type) where
  isVictim : Bool
  degradation : K
deriving Repr, DecidableEq

/-- `judgeVictim`: above the floor and, once the baseline is warm, unusual for itself.  The
baseline learns the value, unless it is of a known victim. -/
def judgeVictim (cfg : Config K) (baseline : Baseline K) (floor : K) (cg : ℕ) (value : K) :
    Judgement K × Baseline K :=
  let dev := baseline.deviation cg value
  let isVictim := match dev with
    | some ratio => if ratio < cfg.deviationFactor then false else decide (value ≥ floor)
    | none => decide (value ≥ floor)
  (⟨isVictim, dev.getD 0⟩, baseline.observe cg value !(dev.isSome && isVictim))

/-! ## The loop over the readings -/

/-- What the three passes differ in: the cgroup of a reading, its value if it clears the
gates, the floor, and the row of a victim from its value and degradation. -/
structure Dimension (K ρ σ : Type) where
  cgroup : ρ → ℕ
  value : ρ → Option K
  floor : K
  row : ρ → K → K → σ

/-- The variables of the loop. -/
structure Scan (K σ : Type) where
  out : List σ
  worst : K
  ids : List ℕ
  baseline : Baseline K

variable {ρ σ : Type}

namespace Dimension

/-- The body of the loop. -/
def step (d : Dimension K ρ σ) (cfg : Config K) (s : Scan K σ) (r : ρ) : Scan K σ :=
  match d.value r with
  | none => s
  | some value =>
      let (j, baseline) := judgeVictim cfg s.baseline d.floor (d.cgroup r) value
      if j.isVictim then
        { out := s.out ++ [d.row r value j.degradation]
          worst := if j.degradation > s.worst then j.degradation else s.worst
          ids := s.ids ++ [d.cgroup r]
          baseline }
      else { s with baseline }

/-- The loop. -/
def scan (d : Dimension K ρ σ) (cfg : Config K) (baseline : Baseline K) (rs : List ρ) :
    Scan K σ :=
  rs.foldl (d.step cfg) ⟨[], 0, [], baseline⟩

end Dimension

/-! ## The three passes -/

/-- `capVictims`. -/
def capVictims {α : Type} (v : List α) (n : ℕ) : List α := v.take n

/-- The row of a victim of latency. -/
def Victim.of [FloorSemiring K] (label : ℕ → String) (cg : ℕ) (slots : List ℕ) (count : ℕ)
    (p99 deg : K) : Victim K :=
  ⟨label cg, percentile slots 50, p99, deg, count⟩

/-- Run-queue latency against `RunqWarn`, with at least `MinSamples` samples. -/
def cpuDimension [FloorSemiring K] (cfg : Config K) (label : ℕ → String) :
    Dimension K CgroupLatency (Victim K) where
  cgroup := CgroupLatency.cgroupID
  value r := if r.count < uint64 cfg.minSamples then none else some (percentile r.slots 99)
  floor := microseconds cfg.runqWarn
  row r := .of label r.cgroupID r.slots r.count

/-- I/O latency against `IOWarn`, with at least `MinOps` requests. -/
def ioDimension [FloorSemiring K] (cfg : Config K) (label : ℕ → String) :
    Dimension K CgroupBlkio (Victim K) where
  cgroup := CgroupBlkio.cgroupID
  value r := if r.count < uint64 cfg.minOps then none else some (percentile r.slots 99)
  floor := microseconds cfg.ioWarn
  row r := .of label r.cgroupID r.slots r.count

/-- The retransmit rate against `RetransRateWarn`, with at least `MinSegs` segments and
`RetransWarn` retransmits. -/
def netDimension (cfg : Config K) (label : ℕ → String) :
    Dimension K CgroupNet (NetVictim K) where
  cgroup := CgroupNet.cgroupID
  value r :=
    if r.txSegs < uint64 cfg.minSegs then none
    else if r.retransmits < uint64 cfg.retransWarn then none
    else some (r.retransmits / r.txSegs)
  floor := cfg.retransRateWarn
  row r rate deg := ⟨label r.cgroupID, r.retransmits, rate * 100, deg, r.txSegs⟩

section Passes

variable (srt : SliceSort) (cfg : Config K) (label : ℕ → String) (baseline : Baseline K)

/-- `cpuVictims`: pods starved of CPU, the worst degradation among them, their cgroups and
the baseline afterwards. -/
def cpuVictims [FloorSemiring K] (runq : List CgroupLatency) :
    List (Victim K) × K × List ℕ × Baseline K :=
  let s := (cpuDimension cfg label).scan cfg baseline runq
  (capVictims (srt.sort Victim.p99us s.out) cfg.topN, s.worst, s.ids, s.baseline.prune)

/-- `ioVictims`: pods waiting on the disk. -/
def ioVictims [FloorSemiring K] (blkio : List CgroupBlkio) :
    List (Victim K) × K × Baseline K :=
  let s := (ioDimension cfg label).scan cfg baseline blkio
  (capVictims (srt.sort Victim.p99us s.out) cfg.topN, s.worst, s.baseline.prune)

/-- `netVictims`: pods whose TCP segments are being retransmitted. -/
def netVictims (network : List CgroupNet) : List (NetVictim K) × K × Baseline K :=
  let s := (netDimension cfg label).scan cfg baseline network
  (capVictims (srt.sort NetVictim.retransmits s.out) cfg.topN, s.worst, s.baseline.prune)

end Passes

/-! ## A reading is judged by what was learned of its own cgroup -/

/-- Two baselines that have learned the same of a key. -/
structure Baseline.Alike (b b' : Baseline K) (key : ℕ) : Prop where
  alpha : b'.alpha = b.alpha
  warmup : b'.warmup = b.warmup
  state : b'.state key = b.state key

omit [Field K] [LinearOrder K] in
theorem Baseline.Alike.refl (b : Baseline K) (key : ℕ) : b.Alike b key := ⟨rfl, rfl, rfl⟩

omit [LinearOrder K] in
theorem Baseline.Alike.observe {b b' : Baseline K} {key key' : ℕ} (h : b.Alike b' key)
    (hne : key ≠ key') (current : K) (update : Bool) :
    b.Alike (b'.observe key' current update) key :=
  ⟨h.alpha, h.warmup, (observe_state_of_ne hne update).trans h.state⟩

theorem judgeVictim_congr {cfg : Config K} {b b' : Baseline K} {cg : ℕ} (h : b.Alike b' cg)
    (floor value : K) :
    (judgeVictim cfg b' floor cg value).1 = (judgeVictim cfg b floor cg value).1 ∧
      (judgeVictim cfg b' floor cg value).2.state cg =
        (judgeVictim cfg b floor cg value).2.state cg := by
  have hd : b'.deviation cg value = b.deviation cg value :=
    Baseline.deviation_congr h.warmup h.state
  refine ⟨by simp only [judgeVictim, hd], ?_⟩
  simp only [judgeVictim, hd, Baseline.observe, Function.update_self, h.state, h.alpha]

namespace Dimension

variable (d : Dimension K ρ σ) (cfg : Config K)

/-- The value and degradation of a reading that is judged a victim. -/
def judged (b : Baseline K) (r : ρ) : Option (K × K) :=
  (d.value r).bind fun value ↦
    let j := (judgeVictim cfg b d.floor (d.cgroup r) value).1
    if j.isVictim then some (value, j.degradation) else none

variable {d cfg} {b : Baseline K} {s : Scan K σ} {r : ρ} {rs : List ρ}

theorem judged_congr (h : b.Alike s.baseline (d.cgroup r)) :
    d.judged cfg s.baseline r = d.judged cfg b r := by
  unfold judged
  congr 1
  funext value
  rw [(judgeVictim_congr h d.floor value).1]

theorem step_out (s : Scan K σ) (r : ρ) : (d.step cfg s r).out =
    s.out ++ ((d.judged cfg s.baseline r).map fun p ↦ d.row r p.1 p.2).toList := by
  unfold step judged
  cases d.value r with
  | none => simp
  | some value =>
      dsimp only [Option.bind_some]
      split <;> simp

theorem step_ids (s : Scan K σ) (r : ρ) : (d.step cfg s r).ids =
    s.ids ++ ((d.judged cfg s.baseline r).map fun _ ↦ d.cgroup r).toList := by
  unfold step judged
  cases d.value r with
  | none => simp
  | some value =>
      dsimp only [Option.bind_some]
      split <;> simp

/-- The baseline after one reading. -/
theorem step_baseline (s : Scan K σ) (r : ρ) : (d.step cfg s r).baseline =
    match d.value r with
    | none => s.baseline
    | some value => (judgeVictim cfg s.baseline d.floor (d.cgroup r) value).2 := by
  unfold step
  cases d.value r with
  | none => rfl
  | some value =>
      dsimp only
      split <;> rfl

/-- A reading leaves the other cgroups alone. -/
theorem step_alike {key : ℕ} (h : b.Alike s.baseline key) (hne : key ≠ d.cgroup r) :
    b.Alike (d.step cfg s r).baseline key := by
  rw [step_baseline]
  cases d.value r with
  | none => exact h
  | some value => exact h.observe hne _ _

/-- The rows and cgroups of the loop are those of the readings that are judged victims. -/
theorem foldl_step (hnd : (rs.map d.cgroup).Nodup)
    (h : ∀ r ∈ rs, b.Alike s.baseline (d.cgroup r)) :
    (rs.foldl (d.step cfg) s).out =
        s.out ++ rs.filterMap (fun r ↦ (d.judged cfg b r).map fun p ↦ d.row r p.1 p.2) ∧
      (rs.foldl (d.step cfg) s).ids =
        s.ids ++ rs.filterMap (fun r ↦ (d.judged cfg b r).map fun _ ↦ d.cgroup r) := by
  induction rs generalizing s with
  | nil => simp
  | cons r rs ih =>
      obtain ⟨hr, hnd⟩ := List.nodup_cons.mp hnd
      have hj : d.judged cfg s.baseline r = d.judged cfg b r := judged_congr (h r (.head _))
      obtain ⟨hout, hids⟩ := ih (s := d.step cfg s r) hnd fun r' hr' ↦
        step_alike (h r' (.tail _ hr')) fun he ↦ hr (he ▸ List.mem_map_of_mem hr')
      rw [List.foldl_cons, hout, hids, step_out, step_ids, hj]
      cases hp : d.judged cfg b r <;> simp [hp]

theorem scan_out (hnd : (rs.map d.cgroup).Nodup) : (d.scan cfg b rs).out =
    rs.filterMap fun r ↦ (d.judged cfg b r).map fun p ↦ d.row r p.1 p.2 :=
  (foldl_step hnd fun _ _ ↦ .refl b _).1

/-- What an interval does to the entry of a cgroup, the reading of that cgroup does. -/
theorem scan_alike {b' : Baseline K} (hnd : (rs.map d.cgroup).Nodup) (hr : r ∈ rs)
    (own : ∀ s : Scan K σ, b.Alike s.baseline (d.cgroup r) →
      b'.Alike (d.step cfg s r).baseline (d.cgroup r)) :
    b'.Alike (d.scan cfg b rs).baseline (d.cgroup r) := by
  have hother : ∀ (b : Baseline K) (s : Scan K σ) (r' : ρ), d.cgroup r ≠ d.cgroup r' →
      b.Alike s.baseline (d.cgroup r) → b.Alike (d.step cfg s r').baseline (d.cgroup r) :=
    fun _ _ _ hne h ↦ step_alike h hne
  exact foldl_of_mem (P := fun s : Scan K σ ↦ b.Alike s.baseline (d.cgroup r))
    (Q := fun s : Scan K σ ↦ b'.Alike s.baseline (d.cgroup r)) (hother b) (hother b') own hnd hr
    (.refl b _)

/-- What an interval has learned of a cgroup it judged. -/
theorem scan_judged (hnd : (rs.map d.cgroup).Nodup) (hr : r ∈ rs) {value : K}
    (hv : d.value r = some value) :
    (judgeVictim cfg b d.floor (d.cgroup r) value).2.Alike (d.scan cfg b rs).baseline
      (d.cgroup r) := by
  refine scan_alike hnd hr fun s h ↦ ?_
  rw [step_baseline, hv]
  exact ⟨h.alpha, h.warmup, (judgeVictim_congr h d.floor value).2⟩

/-- A reading that clears no gate leaves its cgroup alone. -/
theorem scan_gated (hnd : (rs.map d.cgroup).Nodup) (hr : r ∈ rs) (hv : d.value r = none) :
    b.Alike (d.scan cfg b rs).baseline (d.cgroup r) := by
  refine scan_alike hnd hr fun s h ↦ ?_
  rw [step_baseline, hv]
  exact h

/-- The row of a reading that is judged a victim. -/
theorem row_mem_scan (hnd : (rs.map d.cgroup).Nodup) (hr : r ∈ rs) {value deg : K}
    (hv : d.value r = some value)
    (hj : (judgeVictim cfg b d.floor (d.cgroup r) value).1 = ⟨true, deg⟩) :
    d.row r value deg ∈ (d.scan cfg b rs).out := by
  rw [scan_out hnd, List.mem_filterMap]
  exact ⟨r, hr, by simp [judged, hv, hj]⟩

end Dimension
