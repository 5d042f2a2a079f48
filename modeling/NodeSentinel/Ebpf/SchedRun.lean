import NodeSentinel.Ebpf.SchedMonitor

/-!
# The scheduler monitor over a run

What the reads of `sched.go` have returned over a whole run, together with what the maps
still hold: the waits between a wakeup and the switch to the task, once each; on every CPU
the time between its first and its last switch, less its idle time; and, in the ring, no
more than that.
-/

variable {n : ℕ} {ops : List (SchedOp n)}

/-! ## The clock -/

/-- The time of an event. -/
def SchedOp.time : SchedOp n → Option ℕ
  | .wakeup _ now => some now
  | .switch _ now _ _ => some now
  | .readTimeline now => some now
  | _ => none

/-! ## Waits -/

/-- The waits of a run. -/
def waits (ops : List (SchedOp n)) : List (Wait n) := (pairs (schedMarks ops)).map Pair.wait

/-- The counters of some latencies. -/
def histogram (us : List ℕ) : SchedHist → ℕ
  | .slot i => us.countP fun us ↦ log2Bucket us = i
  | .totalUs => us.sum
  | .count => us.length

theorem eventTotal_waitEvent (waits : List (Wait n)) (cgroup : ℕ) (f : SchedHist) :
    eventTotal (waits.map waitEvent) cgroup f = histogram (latencies waits cgroup) f := by
  cases f with
  | slot i => exact eventTotal_slot waits cgroup i
  | totalUs =>
      refine (eventTotal_waits waits cgroup .totalUs).trans ?_
      have hamount : ∀ us, amount (runqMonitor us) .totalUs = us := by
        intro us
        simp [amount, runqMonitor]
      simp [hamount, histogram]
  | count => exact eventTotal_count waits cgroup

/-- The waits that the programs count are those that the table has paired. -/
theorem events_runqOps (ops : List (SchedOp n)) : CounterOp.events (outputs runqOps ops) =
    ((Pairing.run maxTasks (schedMarks ops)).done.map Pair.wait).map waitEvent := by
  have hdone := Pairing.outputs_done maxTasks SchedOp.mark ops
  rw [schedMarks, ← hdone, runqOps, events_drainedOps]
  · rw [List.map_map, map_outputs]
    rfl
  · intro before op hop
    cases op with
    | read => rfl
    | _ => cases hop

theorem histogram_sublist {us us' : List ℕ} (h : us.Sublist us') (f : SchedHist) :
    histogram us f ≤ histogram us' f := by
  cases f with
  | slot i => exact h.countP_le
  | totalUs => exact h.sum_le_sum fun _ _ ↦ Nat.zero_le _
  | count => exact h.length_le

theorem mem_times_of_awaiting {pid woken : ℕ} (h : awaiting (schedMarks ops) pid = some woken) :
    woken ∈ ops.filterMap SchedOp.time := by
  obtain ⟨op, hop, hmark⟩ := exists_start_of_awaiting h
  refine List.mem_filterMap.mpr ⟨op, hop, ?_⟩
  cases op with
  | wakeup pid' now =>
      obtain ⟨-, hnow⟩ := Mark.start.inj (Option.some.inj hmark)
      exact congrArg some hnow
  | switch cpu now prev next => cases hmark
  | _ => cases hmark

/-- A wait ends with a switch to a task that has been woken since it last took a CPU; its time
is the time since then. -/
theorem mem_waits (h : InClock SchedOp.time ops) {w : Wait n} (hw : w ∈ waits ops) :
    ∃ before cpu now prev next after woken, ops = before ++ .switch cpu now prev next :: after ∧
      awaiting (schedMarks before) next.pid = some woken ∧ woken ≤ now ∧
      w = ⟨cpu, next.cgroup, (now - woken) / 1000⟩ := by
  obtain ⟨p, hp, rfl⟩ := List.mem_map.mp hw
  obtain ⟨before, op, after, rfl, hm, hawait⟩ := mem_pairs_events hp
  cases op with
  | switch cpu now prev next =>
      obtain ⟨hpid, hswitch⟩ := Mark.finish.inj (Option.some.inj hm)
      have hclock := h.restrict (concat_prefix_split before after _)
      rw [← hpid] at hawait
      have hle : p.started ≤ now := hclock.le_of_concat (mem_times_of_awaiting hawait) rfl
      refine ⟨before, cpu, now, prev, next, after, p.started, rfl, hawait, hle, ?_⟩
      rw [Pair.wait, Pair.waitNs, ← hswitch, sub64_of_le hle (hclock.of_concat rfl).2]
  | wakeup pid now => cases hm
  | _ => cases hm

/-- A task that is woken, runs, and is woken twice before it runs again on the other CPU, with
a read in between. -/
def twoWaits : List (SchedOp 2) :=
  [.wakeup 7 1000000000, .switch 0 1005000000 ⟨3, 1⟩ ⟨7, 2⟩, .read, .wakeup 7 1006000000,
    .wakeup 7 1007000000, .switch 1 1009000000 ⟨0, 0⟩ ⟨7, 2⟩,
    .switch 0 1010000000 ⟨7, 2⟩ ⟨0, 0⟩, .readCPU, .readTimeline 1020000000]

theorem inClock_twoWaits : InClock SchedOp.time twoWaits := ⟨by decide, by decide, by decide⟩

section OnCPU

/-- The time of the first switch of a CPU, 0 if there was none. -/
def firstSwitch (ops : List (SchedOp n)) (cpu : Fin n) : ℕ :=
  ops.foldl (fun first op ↦ if first = 0 then (op.switchTime cpu).getD 0 else first) 0

/-- The idle time that an event ends on a CPU. -/
def idleSlices (cpu : Fin n) (before : List (SchedOp n)) : SchedOp n → List ℕ
  | .switch cpu' now prev _ =>
      if cpu' = cpu ∧ lastSwitch before cpu ≠ 0 ∧ prev.pid = 0 then [now - lastSwitch before cpu]
      else []
  | _ => []

/-- The time that the idle task had a CPU, up to the last switch. -/
def idleNs (ops : List (SchedOp n)) (cpu : Fin n) : ℕ := (outputs (idleSlices cpu) ops).sum

/-- The slices of a run. -/
def slices (ops : List (SchedOp n)) : List (Charge n) :=
  outputs (fun before op ↦ (slice before op).toList) ops

/-- The time that other tasks had it. -/
def onCpuNs (ops : List (SchedOp n)) (cpu : Fin n) : ℕ :=
  ((slices ops).map fun ch ↦ if ch.cpu = cpu then ch.ns else 0).sum

theorem SchedOp.time_of_switchTime {op : SchedOp n} {cpu : Fin n} {now : ℕ}
    (h : op.switchTime cpu = some now) : op.time = some now := by
  cases op with
  | switch cpu' now' prev next =>
      rw [switchTime] at h
      split_ifs at h
      exact h
  | _ => cases h

theorem firstSwitch_concat (ops : List (SchedOp n)) (op : SchedOp n) (cpu : Fin n) :
    firstSwitch (ops ++ [op]) cpu =
      if firstSwitch ops cpu = 0 then (op.switchTime cpu).getD 0 else firstSwitch ops cpu := by
  rw [firstSwitch, List.foldl_append]
  rfl

theorem lastSwitch_mem {cpu : Fin n} (h : lastSwitch ops cpu ≠ 0) :
    lastSwitch ops cpu ∈ ops.filterMap SchedOp.time := by
  induction ops using List.reverseRecOn with
  | nil => exact absurd rfl h
  | append_singleton ops op ih =>
      rw [lastSwitch_concat] at h ⊢
      rw [List.filterMap_append, List.mem_append]
      cases hop : op.switchTime cpu with
      | none =>
          rw [hop] at h
          exact .inl (ih h)
      | some now =>
          exact .inr (List.mem_filterMap.mpr ⟨op, .head _, SchedOp.time_of_switchTime hop⟩)

/-- A switch is not earlier than the last one of its CPU. -/
theorem lastSwitch_le {op : SchedOp n} {cpu : Fin n} {now : ℕ} (h : InClock SchedOp.time (ops ++ [op]))
    (hop : op.time = some now) : lastSwitch ops cpu ≤ now := by
  by_cases h0 : lastSwitch ops cpu = 0
  · rw [h0]
    exact Nat.zero_le now
  · exact h.le_of_concat (lastSwitch_mem h0) hop

/-- The first switch is the last one at first, and earlier from then on. -/
theorem firstSwitch_le (h : InClock SchedOp.time ops) (cpu : Fin n) : firstSwitch ops cpu ≤ lastSwitch ops cpu ∧
    (firstSwitch ops cpu = 0 → lastSwitch ops cpu = 0) := by
  induction ops using List.reverseRecOn with
  | nil => exact ⟨le_rfl, fun _ ↦ rfl⟩
  | append_singleton ops op ih =>
      obtain ⟨hle, hzero⟩ := ih (h.restrict (List.prefix_append _ _))
      rw [firstSwitch_concat, lastSwitch_concat]
      cases hop : op.switchTime cpu with
      | none =>
          rw [Option.getD_none, Option.getD_none]
          split_ifs with h0
          · exact ⟨Nat.zero_le _, fun _ ↦ hzero h0⟩
          · exact ⟨hle, fun h ↦ absurd h h0⟩
      | some now =>
          have htime := SchedOp.time_of_switchTime hop
          have hpos := (h.of_concat htime).1
          have hlast : lastSwitch ops cpu ≤ now := lastSwitch_le h htime
          rw [Option.getD_some, Option.getD_some]
          split_ifs with h0 <;> omega

/-- What an event ends on a CPU, a task's slice or idle time, began with its last switch. -/
theorem slice_add_idle {op : SchedOp n} (h : InClock SchedOp.time (ops ++ [op])) (cpu : Fin n) :
    ((slice ops op).toList.map fun ch ↦ if ch.cpu = cpu then ch.ns else 0).sum +
      (idleSlices cpu ops op).sum =
    if lastSwitch ops cpu = 0 then 0 else lastSwitch (ops ++ [op]) cpu - lastSwitch ops cpu := by
  rw [lastSwitch_concat]
  cases op with
  | switch cpu' now prev next =>
      have hlast : lastSwitch ops cpu' ≤ now := lastSwitch_le h rfl
      have hsub := sub64_of_le hlast (h.of_concat rfl).2
      by_cases hcpu : cpu' = cpu
      · subst hcpu
        by_cases h0 : lastSwitch ops cpu' = 0 <;> by_cases hpid : prev.pid = 0 <;>
          simp [slice, idleSlices, SchedOp.switchTime, h0, hpid, hsub]
      · by_cases hslice : lastSwitch ops cpu' ≠ 0 ∧ prev.pid ≠ 0 <;>
          simp [slice, idleSlices, SchedOp.switchTime, hcpu, hslice]
  | _ => simp [slice, idleSlices, SchedOp.switchTime]

/-- Between its first and its last switch a CPU runs tasks or is idle. -/
theorem onCpuNs_add_idleNs (h : InClock SchedOp.time ops) (cpu : Fin n) :
    onCpuNs ops cpu + idleNs ops cpu = lastSwitch ops cpu - firstSwitch ops cpu := by
  induction ops using List.reverseRecOn with
  | nil => rfl
  | append_singleton ops op ih =>
      have hbefore := h.restrict (List.prefix_append ops [op])
      obtain ⟨hle, hzero⟩ := firstSwitch_le hbefore cpu
      have ih := ih hbefore
      have hone := slice_add_idle h cpu
      have hfirst := firstSwitch_concat ops op cpu
      have hafter := lastSwitch_concat ops op cpu
      have hlast : lastSwitch ops cpu ≤ lastSwitch (ops ++ [op]) cpu := by
        rw [hafter]
        cases hop : op.switchTime cpu with
        | none => exact le_rfl
        | some now => exact lastSwitch_le h (SchedOp.time_of_switchTime hop)
      rw [onCpuNs, slices, outputs_concat, List.map_append, List.sum_append, idleNs, outputs_concat,
        List.sum_append]
      rw [onCpuNs, slices, idleNs] at ih
      by_cases h0 : firstSwitch ops cpu = 0
      · rw [if_pos (hzero h0)] at hone
        rw [if_pos h0, ← hzero h0] at hfirst
        rw [hzero h0] at hfirst ih hafter
        omega
      · rw [if_neg h0] at hfirst
        rw [if_neg fun hz ↦ h0 (by omega)] at hone
        omega

theorem events_cpuOps (ops : List (SchedOp n)) :
    CounterOp.events (outputs cpuOps ops) = (slices ops).map sliceEvent := by
  rw [cpuOps, events_drainedOps, slices, map_outputs]
  intro before op hop
  cases op with
  | readCPU => rfl
  | _ => cases hop

/-- The slices of all CPUs. -/
theorem sum_onCpuNs (ops : List (SchedOp n)) :
    ∑ cpu, onCpuNs ops cpu = ((slices ops).map Charge.ns).sum := by
  unfold onCpuNs
  induction slices ops with
  | nil => simp
  | cons ch l ih => simp [Finset.sum_add_distrib, ih]

/-- The time between the first and the last switch of all CPUs. -/
theorem sum_switches (h : InClock SchedOp.time ops) :
    ∑ cpu, (lastSwitch ops cpu - firstSwitch ops cpu) =
      ((slices ops).map Charge.ns).sum + ∑ cpu, idleNs ops cpu := by
  rw [← sum_onCpuNs, ← Finset.sum_add_distrib]
  exact Finset.sum_congr rfl fun cpu _ ↦ (onCpuNs_add_idleNs h cpu).symm

/-- What slices add up to for some cgroups. -/
theorem sum_eventTotal_slices (l : List (Charge n)) (cgroups : Finset ℕ) :
    ∑ c ∈ cgroups, eventTotal (l.map sliceEvent) c CPUTime.onCpuNs =
      (l.map fun ch ↦ if ch.cgroup ∈ cgroups then ch.ns else 0).sum := by
  have hamount : ∀ ch : Charge n, amount (sliceEvent ch).adds CPUTime.onCpuNs = ch.ns := fun ch ↦ by
    simp [amount, sliceEvent, cpuMonitor]
  rw [sum_eventTotal, List.map_map]
  refine congrArg List.sum (List.map_congr_left fun ch _ ↦ ?_)
  rw [Function.comp_apply, hamount]
  rfl

end OnCPU

/-! ## The ring -/

section Ring

/-- What some charges add to a series of a cgroup. -/
def chargedTotal (charges : List (Charge n)) (cgroup : ℕ) (s : Series) : ℕ :=
  (charges.map fun ch ↦ if ch.cgroup = cgroup then ch.amount s else 0).sum

/-- What some timelines say of it. -/
def timelineTotal (timelines : List CgroupTimeline) (cgroup : ℕ) (s : Series) : ℕ :=
  (timelines.map fun tl ↦ if tl.cgroupID = cgroup then (tl.get s).sum else 0).sum

@[simp] theorem chargedTotal_append (charges charges' : List (Charge n)) (cgroup : ℕ) (s : Series) :
    chargedTotal (charges ++ charges') cgroup s =
      chargedTotal charges cgroup s + chargedTotal charges' cgroup s := by
  simp [chargedTotal]

@[simp] theorem timelineTotal_append (timelines timelines' : List CgroupTimeline) (cgroup : ℕ)
    (s : Series) : timelineTotal (timelines ++ timelines') cgroup s =
      timelineTotal timelines cgroup s + timelineTotal timelines' cgroup s := by
  simp [timelineTotal]

variable {charges : List (Charge n)} {cgroup refEpoch : ℕ}

/-- A charge counts in one window of the axis at most. -/
theorem sum_charged_le (h : InOrder charges) (cgroup refEpoch : ℕ) (s : Series) :
    ((List.range timelineBuckets).map fun pos ↦
      charged charges cgroup (refEpoch + pos - (timelineBuckets - 1)) s).sum ≤
      chargedTotal charges cgroup s := by
  have hstart := h.started
  clear h
  induction charges with
  | nil => simp [charged, chargedTotal]
  | cons ch charges ih =>
      have hone : ((List.range timelineBuckets).map fun pos ↦
          if ch.cgroup = cgroup ∧ ch.epoch = refEpoch + pos - (timelineBuckets - 1) then
            ch.amount s else 0).sum ≤ if ch.cgroup = cgroup then ch.amount s else 0 := by
        have h0 := hstart ch (.head _)
        have hpos : ∀ pos, ch.epoch = refEpoch + pos - (timelineBuckets - 1) →
            pos = ch.epoch + (timelineBuckets - 1) - refEpoch := by
          have hT : timelineBuckets = 64 := rfl
          omega
        calc ∑ pos ∈ Finset.range timelineBuckets, (if ch.cgroup = cgroup ∧
              ch.epoch = refEpoch + pos - (timelineBuckets - 1) then ch.amount s else 0)
            ≤ ∑ pos ∈ Finset.range timelineBuckets,
              (if pos = ch.epoch + (timelineBuckets - 1) - refEpoch then
                (if ch.cgroup = cgroup then ch.amount s else 0) else 0) := by
              refine Finset.sum_le_sum fun pos _ ↦ ?_
              by_cases hc : ch.cgroup = cgroup ∧ ch.epoch = refEpoch + pos - (timelineBuckets - 1)
              · rw [if_pos hc, if_pos (hpos pos hc.2), if_pos hc.1]
              · rw [if_neg hc]
                exact Nat.zero_le _
          _ ≤ if ch.cgroup = cgroup then ch.amount s else 0 := by
              rw [Finset.sum_ite_eq']
              split_ifs
              all_goals first | exact le_rfl | exact Nat.zero_le _
      have ih := ih fun ch hch ↦ hstart ch (.tail _ hch)
      simp only [charged, chargedTotal, List.map_cons, List.sum_cons, List.sum_map_add] at ih ⊢
      exact Nat.add_le_add hone ih

/-- The charges of an event are of its time. -/
theorem now_of_schedCharges {op : SchedOp n} {ch : Charge n} (h : ch ∈ schedCharges ops op) :
    op.time = some ch.now := by
  rcases List.mem_append.mp h with h | h
  · cases op with
    | switch cpu now prev next =>
        rw [slice, Option.mem_toList] at h
        split_ifs at h
        cases h
        rfl
    | _ => cases h
  · obtain ⟨p, hp, rfl⟩ := List.mem_map.mp h
    obtain ⟨m, hm, hcomp⟩ := Option.bind_eq_some_iff.mp (Option.mem_toList.mp hp)
    obtain ⟨-, hfinish⟩ := Mark.completes_eq_some hcomp
    cases op with
    | switch cpu now prev next =>
        rw [SchedOp.mark, Option.some.injEq, hfinish] at hm
        obtain ⟨-, hswitch⟩ := Mark.finish.inj hm
        exact congrArg (some ·.now) hswitch
    | wakeup pid now =>
        rw [SchedOp.mark, Option.some.injEq, hfinish] at hm
        cases hm
    | _ => cases hm

theorem mem_times_of_charge {ch : Charge n} (h : ch ∈ outputs schedCharges ops) :
    ch.now ∈ ops.filterMap SchedOp.time := by
  obtain ⟨before, op, after, rfl, hone⟩ := mem_outputs.mp h
  exact List.mem_filterMap.mpr ⟨op, by simp, now_of_schedCharges hone⟩

/-- The charges of a run are in order. -/
theorem inOrder_schedCharges (h : InClock SchedOp.time ops)
    (hboot : ∀ now ∈ ops.filterMap SchedOp.time, timelineBucketNs ≤ now) :
    InOrder (outputs schedCharges ops) := by
  refine ⟨?_, fun ch hch ↦ ?_⟩
  · clear hboot
    induction ops using List.reverseRecOn with
    | nil => exact .nil
    | append_singleton ops op ih =>
        rw [outputs_concat, List.pairwise_append]
        refine ⟨ih (h.restrict (List.prefix_append _ _)), ?_, fun ch hch ch' hch' _ ↦ ?_⟩
        · refine List.pairwise_iff_forall_sublist.mpr fun {ch ch'} hsub _ ↦ ?_
          have hone := now_of_schedCharges (hsub.subset (.head _))
          have htwo := now_of_schedCharges (hsub.subset (.tail _ (.head _)))
          exact (Option.some.inj (hone.symm.trans htwo)).le
        · exact h.le_of_concat (mem_times_of_charge hch) (now_of_schedCharges hch')
  · have hle := hboot ch.now (mem_times_of_charge hch)
    exact (Nat.div_pos hle (by decide)).ne'

theorem InOrder.sublist {charges' : List (Charge n)} (h : InOrder charges)
    (hsub : charges'.Sublist charges) : InOrder charges' :=
  ⟨h.mono.sublist hsub, fun ch hch ↦ h.started ch (hsub.subset hch)⟩

/-! ### One drain -/

/-- A drain returns at most what the ring has been charged, and all of it where no charge is
too old and no cgroup had to be turned away. -/
theorem timelineTotal_drain (h : InOrder charges) (href : ∀ ch ∈ charges, ch.epoch ≤ refEpoch)
    (cgroup : ℕ) (s : Series) :
    timelineTotal (readTimeline (TimelineMap.run charges) refEpoch).1 cgroup s ≤
      chargedTotal charges cgroup s ∧
    ((∀ ch ∈ charges, refEpoch < ch.epoch + timelineBuckets) →
      (charges.map Charge.cgroup).toFinset.card < maxActiveCgroups →
      timelineTotal (readTimeline (TimelineMap.run charges) refEpoch).1 cgroup s =
        chargedTotal charges cgroup s) := by
  have hrings := Rings.run h
  have htotal : timelineTotal (readTimeline (TimelineMap.run charges) refEpoch).1 cgroup s =
      ((TimelineMap.run charges).lookup cgroup).elim 0 fun _ ↦
        ((List.range timelineBuckets).map fun pos ↦
          charged charges cgroup (refEpoch + pos - (timelineBuckets - 1)) s).sum := by
    rw [timelineTotal, readTimeline, List.map_map, ← AList.sum_entries]
    refine congrArg List.sum (List.map_congr_left fun e he ↦ ?_)
    rw [Function.comp_apply, drainCgroup_cgroupID]
    by_cases hc : e.1 = cgroup
    · have hl : (TimelineMap.run charges).lookup e.1 = some e.2 := AList.mem_lookup_iff.mpr he
      rw [if_pos hc, if_pos hc, drainCgroup_get (hrings.slots hl) h.started href, hc]
    · rw [if_neg hc, if_neg hc]
  rw [htotal]
  constructor
  · cases (TimelineMap.run charges).lookup cgroup with
    | none => exact Nat.zero_le _
    | some bs => exact sum_charged_le h cgroup refEpoch s
  · intro hyoung hroom
    cases hl : (TimelineMap.run charges).lookup cgroup with
    | some bs => exact sum_charged cgroup refEpoch s h.started href hyoung
    | none =>
        refine (List.sum_eq_zero fun v hv ↦ ?_).symm
        obtain ⟨ch, hch, rfl⟩ := List.mem_map.mp hv
        refine if_neg fun hc ↦ ?_
        have hmem := TimelineMap.mem_run_of_charge h hroom hch
        rw [hc] at hmem
        exact absurd hmem (AList.lookup_eq_none.mp hl)

/-! ### A run -/

/-- What the ring has been charged since it was last drained. -/
def pendingCharges (ops : List (SchedOp n)) : List (Charge n) :=
  outputsSince SchedOp.isReadTimeline schedCharges ops

/-- Every drain comes before a charge is too old for the axis, and before the ring has been
charged for too many cgroups. -/
def DrainedInTime (ops : List (SchedOp n)) : Prop :=
  ∀ before now, before ++ [.readTimeline now] <+: ops →
    (∀ ch ∈ pendingCharges before, now / timelineBucketNs < ch.epoch + timelineBuckets) ∧
      ((pendingCharges before).map Charge.cgroup).toFinset.card < maxActiveCgroups

theorem DrainedInTime.restrict {before : List (SchedOp n)} (h : DrainedInTime ops)
    (hb : before <+: ops) : DrainedInTime before := fun _ _ hb' ↦ h _ _ (hb'.trans hb)

/-- Only `ReadTimeline` returns timelines. -/
theorem timelines_step {s : SchedSystem n} {op : SchedOp n} (h : Tracks ops s)
    (hop : op.isReadTimeline = false) : (s.step op).timelines = s.timelines := by
  cases op with
  | switch cpu now prev next =>
      rw [SchedSystem.step, handleSchedSwitch_eq h]
  | readTimeline now => cases hop
  | _ => rfl

/-- A drain at the end of a run returns at most what is pending, and all of it if it is timely. -/
theorem timelines_drain {now : ℕ} (h : InClock SchedOp.time (ops ++ [.readTimeline now]))
    (hboot : ∀ now ∈ ops.filterMap SchedOp.time, timelineBucketNs ≤ now) (cgroup : ℕ) (s : Series) :
    timelineTotal (SchedSystem.run (ops ++ [.readTimeline now])).timelines cgroup s ≤
      timelineTotal (SchedSystem.run ops).timelines cgroup s +
        chargedTotal (pendingCharges ops) cgroup s ∧
    (DrainedInTime (ops ++ [.readTimeline now]) →
      timelineTotal (SchedSystem.run (ops ++ [.readTimeline now])).timelines cgroup s =
        timelineTotal (SchedSystem.run ops).timelines cgroup s +
          chargedTotal (pendingCharges ops) cgroup s) := by
  have hsub : (pendingCharges ops).Sublist (outputs schedCharges ops) := outputsSince_sublist _ _ _
  have horder : InOrder (pendingCharges ops) :=
    (inOrder_schedCharges (h.restrict (List.prefix_append _ _)) hboot).sublist hsub
  have href : ∀ ch ∈ pendingCharges ops, ch.epoch ≤ now / timelineBucketNs := fun ch hch ↦
    Nat.div_le_div_right (h.le_of_concat (mem_times_of_charge (hsub.subset hch)) rfl)
  obtain ⟨hdrain, hall⟩ := timelineTotal_drain horder href cgroup s
  have hafter : (SchedSystem.run (ops ++ [.readTimeline now])).timelines =
      (SchedSystem.run ops).timelines ++
        (readTimeline (TimelineMap.run (pendingCharges ops)) (now / timelineBucketNs)).1 := by
    rw [SchedSystem.run_concat, pendingCharges, ← (tracks_run ops).timeline]
    rfl
  rw [hafter, timelineTotal_append]
  refine ⟨Nat.add_le_add_left hdrain _, fun htime ↦ ?_⟩
  obtain ⟨hyoung, hroom⟩ := htime ops now (List.prefix_refl _)
  rw [hall hyoung hroom]

end Ring
