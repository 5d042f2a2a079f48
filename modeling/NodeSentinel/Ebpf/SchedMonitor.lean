import NodeSentinel.Data.Pairing
import NodeSentinel.Ebpf.Clock
import NodeSentinel.Ebpf.Drain
import NodeSentinel.Ebpf.ReadTimeline
import NodeSentinel.Ebpf.RunqLatency

/-!
# The scheduler monitor

`sched_monitor.bpf.c` with the three reads of `sched.go`: the table of wakeups, the start
of the slice that each CPU is in, and the maps they feed.  A wakeup is kept under the pid
of its task until the task takes a CPU; the two are a wait.  A context switch ends a slice
and may end a wait.

`marks`, `lastSwitch` and `slice` say from the events alone what is to be measured, and
`Tracks` that the programs measure it.
-/

open Function (update update_self update_of_ne)

/-- `MAX_TASKS`. -/
def maxTasks : ℕ := 65536

/-- What the programs read of a `struct task_struct`. -/
structure TaskStruct where
  pid : ℕ
  cgroup : ℕ
deriving Repr, DecidableEq

/-! ## The programs -/

/-- The maps of the monitor, with all that user space has read from them. -/
structure SchedSystem (n : ℕ) where
  /-- `wakeup_ts_map` -/
  wakeupTs : PendingTable ℕ ℕ := ∅
  /-- `cpu_slice_start` -/
  sliceStart : Fin n → ℕ := fun _ ↦ 0
  cpuTime : Ledger n CPUTime := {}
  runqLatency : Ledger n SchedHist := {}
  timeline : TimelineMap n := ∅
  timelines : List CgroupTimeline := []

namespace SchedSystem

variable {n : ℕ} (s : SchedSystem n)

/-- `save_wakeup_time`. -/
def saveWakeupTime (pid now : ℕ) : SchedSystem n :=
  { s with wakeupTs := s.wakeupTs.begin maxTasks pid now }

/-- The slice that ends is charged to the task that leaves the CPU, unless that is the
idle task or nothing is known of the CPU yet. -/
def endSlice (cpu : Fin n) (now : ℕ) (prev : TaskStruct) : SchedSystem n :=
  let s' :=
    if s.sliceStart cpu ≠ 0 ∧ prev.pid ≠ 0 then
      let sliceNs := sub64 now (s.sliceStart cpu)
      { s with
        cpuTime := s.cpuTime.step (.event ⟨cpu, prev.cgroup, cpuMonitor sliceNs⟩)
        timeline := s.timeline.charge ⟨cpu, prev.cgroup, now, .slice, sliceNs⟩ }
    else s
  { s' with sliceStart := update s'.sliceStart cpu now }

/-- The wait that ends is charged to the task that takes the CPU, if it has been woken. -/
def endWait (cpu : Fin n) (now : ℕ) (next : TaskStruct) : SchedSystem n :=
  match s.wakeupTs.lookup next.pid with
  | none => s
  | some woken =>
      let waitNs := sub64 now woken
      { s with
        wakeupTs := s.wakeupTs.erase next.pid
        timeline := s.timeline.charge ⟨cpu, next.cgroup, now, .wait, waitNs⟩
        runqLatency := s.runqLatency.step (.event ⟨cpu, next.cgroup, runqMonitor (waitNs / 1000)⟩) }

/-- `handle_sched_switch`. -/
def handleSchedSwitch (cpu : Fin n) (now : ℕ) (prev next : TaskStruct) : SchedSystem n :=
  (s.endSlice cpu now prev).endWait cpu now next

end SchedSystem

/-- What happens to the monitor. -/
inductive SchedOp (n : ℕ) where
  /-- `handle_sched_wakeup` and `handle_sched_wakeup_new`. -/
  | wakeup (pid now : ℕ)
  | switch (cpu : Fin n) (now : ℕ) (prev next : TaskStruct)
  /-- `Read` -/
  | read
  /-- `ReadCPU` -/
  | readCPU
  /-- `ReadTimeline`, on the clock of the kernel. -/
  | readTimeline (now : ℕ)

namespace SchedSystem

variable {n : ℕ}

def step (s : SchedSystem n) : SchedOp n → SchedSystem n
  | .wakeup pid now => s.saveWakeupTime pid now
  | .switch cpu now prev next => s.handleSchedSwitch cpu now prev next
  | .read => { s with runqLatency := s.runqLatency.step .drain }
  | .readCPU => { s with cpuTime := s.cpuTime.step .drain }
  | .readTimeline now =>
      let r := readTimeline s.timeline (now / timelineBucketNs)
      { s with timelines := s.timelines ++ r.1, timeline := r.2 }

def run (ops : List (SchedOp n)) : SchedSystem n := ops.foldl step {}

theorem run_concat (ops : List (SchedOp n)) (op : SchedOp n) :
    run (ops ++ [op]) = (run ops).step op := by
  rw [run, List.foldl_append]
  rfl

end SchedSystem

/-! ## What is to be measured -/

section Spec

variable {n : ℕ}

/-- A task that takes a CPU. -/
structure SwitchIn (n : ℕ) where
  cpu : Fin n
  now : ℕ
  cgroup : ℕ
deriving Repr, DecidableEq

/-- A wakeup starts a wait of the pid, and a switch to it finishes one. -/
def SchedOp.mark : SchedOp n → Option (Mark ℕ ℕ (SwitchIn n))
  | .wakeup pid now => some (.start pid now)
  | .switch cpu now _ next => some (.finish next.pid ⟨cpu, now, next.cgroup⟩)
  | _ => none

def schedMarks (ops : List (SchedOp n)) : List (Mark ℕ ℕ (SwitchIn n)) := ops.filterMap SchedOp.mark

/-- The wait of a task that has been woken and then taken a CPU. -/
def Pair.waitNs (p : Pair ℕ ℕ (SwitchIn n)) : ℕ := sub64 p.finished.now p.started

/-- The same, for the histogram. -/
def Pair.wait (p : Pair ℕ ℕ (SwitchIn n)) : Wait n :=
  ⟨p.finished.cpu, p.finished.cgroup, p.waitNs / 1000⟩

/-- The same, for the ring. -/
def Pair.charge (p : Pair ℕ ℕ (SwitchIn n)) : Charge n :=
  ⟨p.finished.cpu, p.finished.cgroup, p.finished.now, .wait, p.waitNs⟩

/-- The time of an event that is a switch of the CPU. -/
def SchedOp.switchTime (cpu : Fin n) : SchedOp n → Option ℕ
  | .switch cpu' now _ _ => if cpu' = cpu then some now else none
  | _ => none

/-- The time of the last switch of a CPU, 0 if there was none. -/
def lastSwitch (ops : List (SchedOp n)) (cpu : Fin n) : ℕ :=
  ops.foldl (fun last op ↦ (op.switchTime cpu).getD last) 0

/-- The slice that an event ends: since the last switch of its CPU, the task that now leaves
it ran there. -/
def slice (before : List (SchedOp n)) : SchedOp n → Option (Charge n)
  | .switch cpu now prev _ =>
      if lastSwitch before cpu ≠ 0 ∧ prev.pid ≠ 0 then
        some ⟨cpu, prev.cgroup, now, .slice, sub64 now (lastSwitch before cpu)⟩
      else none
  | _ => none

/-- The wait that an event ends, in a table of so many tasks. -/
def ended (before : List (SchedOp n)) (op : SchedOp n) : Option (Pair ℕ ℕ (SwitchIn n)) :=
  op.mark.bind (Pairing.run maxTasks (schedMarks before)).table.completed

/-- The charges of an event. -/
def schedCharges (before : List (SchedOp n)) (op : SchedOp n) : List (Charge n) :=
  (slice before op).toList ++ (ended before op).toList.map Pair.charge

/-- What a wait does to `runq_latency_map`. -/
def waitEvent (w : Wait n) : KernelEvent n SchedHist := ⟨w.cpu, w.cgroup, runqMonitor w.us⟩

/-- What a slice does to `cpu_time_map`. -/
def sliceEvent (ch : Charge n) : KernelEvent n CPUTime := ⟨ch.cpu, ch.cgroup, cpuMonitor ch.ns⟩

def SchedOp.isRead : SchedOp n → Bool
  | .read => true
  | _ => false

def SchedOp.isReadCPU : SchedOp n → Bool
  | .readCPU => true
  | _ => false

def SchedOp.isReadTimeline : SchedOp n → Bool
  | .readTimeline _ => true
  | _ => false

/-- What happens to `cpu_time_map`. -/
def cpuOps : List (SchedOp n) → SchedOp n → List (CounterOp n CPUTime) :=
  drainedOps SchedOp.isReadCPU fun before op ↦ (slice before op).toList.map sliceEvent

/-- What happens to `runq_latency_map`. -/
def runqOps : List (SchedOp n) → SchedOp n → List (CounterOp n SchedHist) :=
  drainedOps SchedOp.isRead fun before op ↦ (ended before op).toList.map (waitEvent ∘ Pair.wait)

end Spec

/-! ## The programs measure it -/

section Refinement

variable {n : ℕ} {ops : List (SchedOp n)} {s : SchedSystem n}

/-- The state of the monitor after some events. -/
structure Tracks (ops : List (SchedOp n)) (s : SchedSystem n) : Prop where
  wakeupTs : s.wakeupTs = (Pairing.run maxTasks (schedMarks ops)).table
  sliceStart : s.sliceStart = lastSwitch ops
  cpuTime : s.cpuTime = Ledger.run (outputs cpuOps ops)
  runqLatency : s.runqLatency = Ledger.run (outputs runqOps ops)
  timeline : s.timeline = TimelineMap.run (outputsSince SchedOp.isReadTimeline schedCharges ops)

theorem lastSwitch_concat (ops : List (SchedOp n)) (op : SchedOp n) (cpu : Fin n) :
    lastSwitch (ops ++ [op]) cpu = (op.switchTime cpu).getD (lastSwitch ops cpu) := by
  rw [lastSwitch, List.foldl_append]
  rfl

theorem schedMarks_concat (ops : List (SchedOp n)) (op : SchedOp n) :
    schedMarks (ops ++ [op]) = schedMarks ops ++ op.mark.toList :=
  filterMap_mark_concat ops op

theorem lastSwitch_switch (ops : List (SchedOp n)) (cpu : Fin n) (now : ℕ)
    (prev next : TaskStruct) :
    lastSwitch (ops ++ [.switch cpu now prev next]) = update (lastSwitch ops) cpu now := by
  funext cpu'
  rw [lastSwitch_concat, SchedOp.switchTime]
  by_cases hcpu : cpu' = cpu
  · rw [hcpu, update_self, if_pos rfl]
    rfl
  · rw [update_of_ne hcpu, if_neg (Ne.symm hcpu)]
    rfl

theorem TimelineMap.run_append (charges charges' : List (Charge n)) :
    TimelineMap.run (charges ++ charges') = charges'.foldl TimelineMap.charge (TimelineMap.run charges) := by
  rw [TimelineMap.run, List.foldl_append]
  rfl

theorem endSlice_eq {cpu : Fin n} (h : s.sliceStart = lastSwitch ops) (now : ℕ)
    (prev next : TaskStruct) : s.endSlice cpu now prev =
      { s with
        cpuTime := (cpuOps ops (.switch cpu now prev next)).foldl Ledger.step s.cpuTime
        timeline := (slice ops (.switch cpu now prev next)).toList.foldl TimelineMap.charge s.timeline
        sliceStart := update s.sliceStart cpu now } := by
  have hops : cpuOps ops (.switch cpu now prev next) =
      ((slice ops (.switch cpu now prev next)).toList.map sliceEvent).map .event :=
    drainedOps_of_not rfl
  rw [hops]
  unfold SchedSystem.endSlice slice
  rw [← h]
  dsimp only
  by_cases hc : s.sliceStart cpu ≠ 0 ∧ prev.pid ≠ 0
  · rw [if_pos hc, if_pos hc]
    rfl
  · rw [if_neg hc, if_neg hc]
    rfl

theorem endWait_eq (h : s.wakeupTs = (Pairing.run maxTasks (schedMarks ops)).table) (cpu : Fin n)
    (now : ℕ) (prev next : TaskStruct) : s.endWait cpu now next =
      { s with
        wakeupTs := s.wakeupTs.erase next.pid
        timeline := ((ended ops (.switch cpu now prev next)).toList.map Pair.charge).foldl
          TimelineMap.charge s.timeline
        runqLatency := (runqOps ops (.switch cpu now prev next)).foldl Ledger.step
          s.runqLatency } := by
  have hended : ended ops (.switch cpu now prev next) = (s.wakeupTs.lookup next.pid).map fun woken ↦
      ⟨next.pid, woken, ⟨cpu, now, next.cgroup⟩⟩ := by
    rw [h]
    cases hl : (Pairing.run maxTasks (schedMarks ops)).table.lookup next.pid <;>
      simp [ended, SchedOp.mark, PendingTable.completed, Mark.key, Mark.completes, hl]
  have hops : runqOps ops (.switch cpu now prev next) =
      ((ended ops (.switch cpu now prev next)).toList.map (waitEvent ∘ Pair.wait)).map .event :=
    drainedOps_of_not rfl
  rw [hops, hended]
  unfold SchedSystem.endWait
  cases hl : s.wakeupTs.lookup next.pid with
  | none =>
      rw [PendingTable.erase_of_lookup hl]
      rfl
  | some woken => rfl

theorem handleSchedSwitch_eq (h : Tracks ops s) (cpu : Fin n) (now : ℕ) (prev next : TaskStruct) :
    s.handleSchedSwitch cpu now prev next =
      { s with
        wakeupTs := s.wakeupTs.erase next.pid
        sliceStart := lastSwitch (ops ++ [.switch cpu now prev next])
        cpuTime := (cpuOps ops (.switch cpu now prev next)).foldl Ledger.step s.cpuTime
        runqLatency := (runqOps ops (.switch cpu now prev next)).foldl Ledger.step s.runqLatency
        timeline := (schedCharges ops (.switch cpu now prev next)).foldl TimelineMap.charge
          s.timeline } := by
  have hslice : s.endSlice cpu now prev = _ := endSlice_eq h.sliceStart now prev next
  have hw : (s.endSlice cpu now prev).wakeupTs = (Pairing.run maxTasks (schedMarks ops)).table := by
    rw [hslice]
    exact h.wakeupTs
  rw [SchedSystem.handleSchedSwitch, endWait_eq hw cpu now prev next, hslice, lastSwitch_switch,
    schedCharges, List.foldl_append, h.sliceStart]

theorem Tracks.step (h : Tracks ops s) (op : SchedOp n) : Tracks (ops ++ [op]) (s.step op) := by
  have hcpu : Ledger.run (outputs cpuOps (ops ++ [op])) = (cpuOps ops op).foldl Ledger.step s.cpuTime := by
    rw [Ledger.run_outputs_concat, h.cpuTime]
  have hrunq : Ledger.run (outputs runqOps (ops ++ [op])) =
      (runqOps ops op).foldl Ledger.step s.runqLatency := by
    rw [Ledger.run_outputs_concat, h.runqLatency]
  have hring : op.isReadTimeline = false →
      TimelineMap.run (outputsSince SchedOp.isReadTimeline schedCharges (ops ++ [op])) =
        (schedCharges ops op).foldl TimelineMap.charge s.timeline := by
    intro hop
    rw [outputsSince_concat, hop, if_neg Bool.false_ne_true, TimelineMap.run_append, h.timeline]
  have hmark : ∀ m, op.mark = some m →
      (Pairing.run maxTasks (schedMarks (ops ++ [op]))).table = s.wakeupTs.step maxTasks m := by
    intro m hm
    rw [schedMarks_concat, hm, Option.toList_some, Pairing.run_concat, Pairing.step_table, h.wakeupTs]
  have hunmarked : op.mark = none →
      s.wakeupTs = (Pairing.run maxTasks (schedMarks (ops ++ [op]))).table := by
    intro hm
    rw [schedMarks_concat, hm, Option.toList_none, List.append_nil, h.wakeupTs]
  have hquiet : (∀ cpu, op.switchTime cpu = none) → s.sliceStart = lastSwitch (ops ++ [op]) := by
    intro hnone
    funext cpu
    rw [lastSwitch_concat, hnone, h.sliceStart]
    rfl
  cases op with
  | switch cpu now prev next =>
      have hstep : s.step (.switch cpu now prev next) = s.handleSchedSwitch cpu now prev next := rfl
      rw [hstep, handleSchedSwitch_eq h]
      exact ⟨(hmark _ rfl).symm, rfl, hcpu.symm, hrunq.symm, (hring rfl).symm⟩
  | wakeup pid now =>
      exact ⟨(hmark _ rfl).symm, hquiet fun _ ↦ rfl, hcpu.symm, hrunq.symm, (hring rfl).symm⟩
  | read => exact ⟨hunmarked rfl, hquiet fun _ ↦ rfl, hcpu.symm, hrunq.symm, (hring rfl).symm⟩
  | readCPU => exact ⟨hunmarked rfl, hquiet fun _ ↦ rfl, hcpu.symm, hrunq.symm, (hring rfl).symm⟩
  | readTimeline now =>
      refine ⟨hunmarked rfl, hquiet fun _ ↦ rfl, hcpu.symm, hrunq.symm, ?_⟩
      rw [outputsSince_concat]
      rfl

/-- A run of the monitor. -/
theorem tracks_run (ops : List (SchedOp n)) : Tracks ops (SchedSystem.run ops) := by
  induction ops using List.reverseRecOn with
  | nil => exact ⟨rfl, rfl, rfl, rfl, rfl⟩
  | append_singleton ops op ih =>
      rw [SchedSystem.run_concat]
      exact ih.step op

end Refinement
