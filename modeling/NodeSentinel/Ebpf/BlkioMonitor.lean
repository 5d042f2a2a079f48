import NodeSentinel.Data.Pairing
import NodeSentinel.Ebpf.Clock
import NodeSentinel.Ebpf.Drain

/-!
# The block I/O monitor

`blkio_monitor.bpf.c` with the read of `blkio.go`.  A request is stamped when it enters the
queue of its device, under its pointer, with the cgroup that issued it; when it completes,
its latency and its size are charged to that cgroup.

Over a whole run each completion is counted once, for the cgroup that the request was issued
by, and the bytes that a cgroup has issued have been counted, are in flight, or are lost.
-/

/-- `MAX_INFLIGHT`. -/
def maxInflight : ℕ := 65536

/-- `struct rq_start`. -/
structure RqStart where
  ts : ℕ
  cgroup : ℕ
  bytes : ℕ
deriving Repr, DecidableEq

/-- A request that completes. -/
structure RqDone (n : ℕ) where
  cpu : Fin n
  now : ℕ
deriving Repr, DecidableEq

/-! ## The programs -/

/-- `inflight_rq` and `blkio_latency_map`, with all that user space has read. -/
structure BlkioSystem (n : ℕ) where
  inflight : PendingTable ℕ RqStart := ∅
  blkioLatency : Ledger n BlkioHist := {}

/-- What happens to the monitor. -/
inductive BlkioOp (n : ℕ) where
  /-- `handle_block_rq_insert` -/
  | insert (rq now cgroup bytes : ℕ)
  /-- `handle_block_rq_complete` -/
  | complete (cpu : Fin n) (rq now : ℕ)
  /-- `Read` -/
  | read

namespace BlkioSystem

variable {n : ℕ} (s : BlkioSystem n)

/-- `handle_block_rq_complete`. -/
def handleBlockRqComplete (cpu : Fin n) (rq now : ℕ) : BlkioSystem n :=
  match s.inflight.lookup rq with
  | none => s
  | some start =>
      let deltaUs := sub64 now start.ts / 1000
      { inflight := s.inflight.erase rq
        blkioLatency := s.blkioLatency.step
          (.event ⟨cpu, start.cgroup, blkioMonitor (deltaUs, start.bytes)⟩) }

def step : BlkioOp n → BlkioSystem n
  | .insert rq now cgroup bytes =>
      { s with inflight := s.inflight.begin maxInflight rq ⟨now, cgroup, bytes⟩ }
  | .complete cpu rq now => s.handleBlockRqComplete cpu rq now
  | .read => { s with blkioLatency := s.blkioLatency.step .drain }

def run (ops : List (BlkioOp n)) : BlkioSystem n := ops.foldl step {}

theorem run_concat (ops : List (BlkioOp n)) (op : BlkioOp n) :
    run (ops ++ [op]) = (run ops).step op := by
  rw [run, List.foldl_append]
  rfl

end BlkioSystem

/-! ## What is to be measured -/

section Spec

variable {n : ℕ}

/-- An insertion starts a request, and a completion finishes it. -/
def BlkioOp.mark : BlkioOp n → Option (Mark ℕ RqStart (RqDone n))
  | .insert rq now cgroup bytes => some (.start rq ⟨now, cgroup, bytes⟩)
  | .complete cpu rq now => some (.finish rq ⟨cpu, now⟩)
  | .read => none

def blkioMarks (ops : List (BlkioOp n)) : List (Mark ℕ RqStart (RqDone n)) :=
  ops.filterMap BlkioOp.mark

/-- The latency of a request in microseconds. -/
def Pair.deltaUs (p : Pair ℕ RqStart (RqDone n)) : ℕ := sub64 p.finished.now p.started.ts / 1000

/-- What a completed request does to `blkio_latency_map`. -/
def rqEvent (p : Pair ℕ RqStart (RqDone n)) : KernelEvent n BlkioHist :=
  ⟨p.finished.cpu, p.started.cgroup, blkioMonitor (p.deltaUs, p.started.bytes)⟩

/-- The request that an event completes, in a table of so many. -/
def completed (before : List (BlkioOp n)) (op : BlkioOp n) : Option (Pair ℕ RqStart (RqDone n)) :=
  op.mark.bind (Pairing.run maxInflight (blkioMarks before)).table.completed

def BlkioOp.isRead : BlkioOp n → Bool
  | .read => true
  | _ => false

/-- What happens to `blkio_latency_map`. -/
def blkioOps : List (BlkioOp n) → BlkioOp n → List (CounterOp n BlkioHist) :=
  drainedOps BlkioOp.isRead fun before op ↦ (completed before op).toList.map rqEvent

end Spec

/-! ## The programs measure it -/

section Refinement

variable {n : ℕ} {ops : List (BlkioOp n)} {s : BlkioSystem n}

theorem blkioMarks_concat (ops : List (BlkioOp n)) (op : BlkioOp n) :
    blkioMarks (ops ++ [op]) = blkioMarks ops ++ op.mark.toList :=
  filterMap_mark_concat ops op

theorem handleBlockRqComplete_eq
    (h : s.inflight = (Pairing.run maxInflight (blkioMarks ops)).table) (cpu : Fin n) (rq now : ℕ) :
    s.handleBlockRqComplete cpu rq now =
      { inflight := s.inflight.erase rq
        blkioLatency := (blkioOps ops (.complete cpu rq now)).foldl Ledger.step s.blkioLatency } := by
  have hdone : completed ops (.complete cpu rq now) =
      (s.inflight.lookup rq).map fun start ↦ ⟨rq, start, ⟨cpu, now⟩⟩ := by
    rw [h]
    cases hl : (Pairing.run maxInflight (blkioMarks ops)).table.lookup rq <;>
      simp [completed, BlkioOp.mark, PendingTable.completed, Mark.key, Mark.completes, hl]
  have hops : blkioOps ops (.complete cpu rq now) =
      ((completed ops (.complete cpu rq now)).toList.map rqEvent).map .event :=
    drainedOps_of_not rfl
  rw [hops, hdone]
  unfold BlkioSystem.handleBlockRqComplete
  cases hl : s.inflight.lookup rq with
  | none =>
      rw [PendingTable.erase_of_lookup hl]
      rfl
  | some start => rfl

/-- A run of the monitor. -/
theorem blkio_run (ops : List (BlkioOp n)) :
    (BlkioSystem.run ops).inflight = (Pairing.run maxInflight (blkioMarks ops)).table ∧
      (BlkioSystem.run ops).blkioLatency = Ledger.run (outputs blkioOps ops) := by
  induction ops using List.reverseRecOn with
  | nil => exact ⟨rfl, rfl⟩
  | append_singleton ops op ih =>
      obtain ⟨hinflight, hlatency⟩ := ih
      rw [BlkioSystem.run_concat, blkioMarks_concat, Ledger.run_outputs_concat, ← hlatency]
      cases op with
      | insert rq now cgroup bytes =>
          refine ⟨?_, rfl⟩
          rw [BlkioOp.mark, Option.toList_some, Pairing.run_concat, Pairing.step_table, ← hinflight]
          rfl
      | complete cpu rq now =>
          rw [BlkioSystem.step, handleBlockRqComplete_eq hinflight, BlkioOp.mark, Option.toList_some,
            Pairing.run_concat, Pairing.step_table, ← hinflight]
          exact ⟨rfl, rfl⟩
      | read =>
          rw [BlkioOp.mark, Option.toList_none, List.append_nil, ← hinflight]
          exact ⟨rfl, rfl⟩

theorem events_blkioOps (ops : List (BlkioOp n)) : CounterOp.events (outputs blkioOps ops) =
    (Pairing.run maxInflight (blkioMarks ops)).done.map rqEvent := by
  have hdone := Pairing.outputs_done maxInflight BlkioOp.mark ops
  rw [blkioMarks, ← hdone, blkioOps, events_drainedOps, map_outputs]
  · rfl
  · intro before op hop
    cases op with
    | read => rfl
    | _ => cases hop

end Refinement

/-! ## A run -/

section Account

variable {n : ℕ} {ops : List (BlkioOp n)} {cgroup : ℕ}

/-- The counters of some requests, each with its latency and its size. -/
def ioHistogram (rqs : List (ℕ × ℕ)) : BlkioHist → ℕ
  | .slot i => rqs.countP fun rq ↦ log2Bucket rq.1 = i
  | .totalUs => (rqs.map Prod.fst).sum
  | .count => rqs.length
  | .bytes => (rqs.map Prod.snd).sum

/-- The requests of a cgroup that have completed. -/
def requests (ps : List (Pair ℕ RqStart (RqDone n))) (cgroup : ℕ) : List (ℕ × ℕ) :=
  (ps.filter fun p ↦ p.started.cgroup = cgroup).map fun p ↦ (p.deltaUs, p.started.bytes)

/-- The bytes among some requests that a cgroup has issued. -/
def bytesOf (cgroup : ℕ) (rqs : List (ℕ × RqStart)) : ℕ :=
  weight (fun rq ↦ if rq.2.cgroup = cgroup then rq.2.bytes else 0) rqs

theorem ioHistogram_cons (rq : ℕ × ℕ) (rqs : List (ℕ × ℕ)) (f : BlkioHist) :
    ioHistogram (rq :: rqs) f = amount (blkioMonitor rq) f + ioHistogram rqs f := by
  cases f with
  | slot i => simp [ioHistogram, amount, blkioMonitor, List.countP_cons, Fin.ext_iff, Nat.add_comm]
  | totalUs => simp [ioHistogram, amount, blkioMonitor]
  | count => simp [ioHistogram, amount, blkioMonitor, Nat.add_comm]
  | bytes => simp [ioHistogram, amount, blkioMonitor]

section Requests

variable {p : Pair ℕ RqStart (RqDone n)} {ps : List (Pair ℕ RqStart (RqDone n))}

theorem requests_cons_of_pos (hc : p.started.cgroup = cgroup) :
    requests (p :: ps) cgroup = (p.deltaUs, p.started.bytes) :: requests ps cgroup := by
  rw [requests, List.filter_cons, if_pos (decide_eq_true hc), List.map_cons, requests]

theorem requests_cons_of_neg (hc : ¬ p.started.cgroup = cgroup) :
    requests (p :: ps) cgroup = requests ps cgroup := by
  rw [requests, List.filter_cons, if_neg (by simpa using hc), requests]

end Requests

/-- What completed requests add is the histogram of those that the cgroup has issued. -/
theorem eventTotal_rqEvent (ps : List (Pair ℕ RqStart (RqDone n))) (cgroup : ℕ) (f : BlkioHist) :
    eventTotal (ps.map rqEvent) cgroup f = ioHistogram (requests ps cgroup) f := by
  induction ps with
  | nil => cases f <;> rfl
  | cons p ps ih =>
      rw [eventTotal] at ih ⊢
      rw [List.map_cons, List.map_cons, List.sum_cons, ih]
      by_cases hc : p.started.cgroup = cgroup
      · rw [requests_cons_of_pos hc, ioHistogram_cons]
        exact congrArg (· + _) (if_pos hc)
      · rw [requests_cons_of_neg hc]
        exact (congrArg (· + _) (if_neg hc)).trans (Nat.zero_add _)

theorem ioHistogram_sublist {rqs rqs' : List (ℕ × ℕ)} (h : rqs.Sublist rqs') (f : BlkioHist) :
    ioHistogram rqs f ≤ ioHistogram rqs' f := by
  cases f with
  | slot i => exact h.countP_le
  | totalUs => exact (h.map _).sum_le_sum fun _ _ ↦ Nat.zero_le _
  | count => exact h.length_le
  | bytes => exact (h.map _).sum_le_sum fun _ _ ↦ Nat.zero_le _

theorem bytesOf_opening (ps : List (Pair ℕ RqStart (RqDone n))) (cgroup : ℕ) :
    bytesOf cgroup (ps.map Pair.opening) = ioHistogram (requests ps cgroup) .bytes := by
  induction ps with
  | nil => rfl
  | cons p ps ih =>
      rw [bytesOf] at ih ⊢
      rw [List.map_cons, weight_cons, ih]
      by_cases hc : p.started.cgroup = cgroup
      · rw [requests_cons_of_pos hc]
        exact congrArg (· + _) (if_pos hc)
      · rw [requests_cons_of_neg hc]
        exact (congrArg (· + _) (if_neg hc)).trans (Nat.zero_add _)

/-- The time of an event. -/
def BlkioOp.time : BlkioOp n → Option ℕ
  | .insert _ now _ _ => some now
  | .complete _ _ now => some now
  | .read => none

/-- A completion ends the last request that has entered the queue under its pointer and not
completed. -/
theorem mem_pairs_blkio (h : InClock BlkioOp.time ops) {p : Pair ℕ RqStart (RqDone n)}
    (hp : p ∈ pairs (blkioMarks ops)) : ∃ before cpu now after,
      ops = before ++ .complete cpu p.key now :: after ∧
      awaiting (blkioMarks before) p.key = some p.started ∧ p.started.ts ≤ now ∧
      p.deltaUs = (now - p.started.ts) / 1000 := by
  obtain ⟨before, op, after, rfl, hm, hawait⟩ := mem_pairs_events hp
  cases op with
  | complete cpu rq now =>
      obtain ⟨rfl, hfin⟩ := Mark.finish.inj (Option.some.inj hm)
      have hclock := h.restrict (concat_prefix_split before after _)
      obtain ⟨op, hop, hstart⟩ := exists_start_of_awaiting hawait
      have hts : p.started.ts ∈ before.filterMap BlkioOp.time := by
        refine List.mem_filterMap.mpr ⟨op, hop, ?_⟩
        cases op with
        | insert rq now cgroup bytes =>
            obtain ⟨-, hstart⟩ := Mark.start.inj (Option.some.inj hstart)
            rw [← hstart]
            rfl
        | _ => cases hstart
      have hle : p.started.ts ≤ now := hclock.le_of_concat hts rfl
      refine ⟨before, cpu, now, after, rfl, hawait, hle, ?_⟩
      rw [Pair.deltaUs, ← hfin, sub64_of_le hle (hclock.of_concat rfl).2]
  | insert rq now cgroup bytes => cases hm
  | read => cases hm

theorem blkio_counted_le (ops : List (BlkioOp n)) (cgroup : ℕ) (f : BlkioHist) :
    (BlkioSystem.run ops).blkioLatency.counted cgroup f ≤
      ioHistogram (requests (pairs (blkioMarks ops)) cgroup) f := by
  rw [(blkio_run ops).2]
  refine (Ledger.counted_le _ cgroup f).trans ?_
  rw [events_blkioOps, eventTotal_rqEvent]
  exact ioHistogram_sublist (((Pairing.done_sublist maxInflight _).filter _).map _) f

theorem blkio_counted
    (hroom : ((starts (blkioMarks ops)).map fun rq ↦ rq.2.cgroup).toFinset.card < maxCgroups)
    (cgroup : ℕ) (f : BlkioHist) : (BlkioSystem.run ops).blkioLatency.counted cgroup f =
      ioHistogram (requests (Pairing.run maxInflight (blkioMarks ops)).done cgroup) f := by
  rw [(blkio_run ops).2, Ledger.counted_eq, events_blkioOps, eventTotal_rqEvent]
  refine (Finset.card_le_card fun c hc ↦ ?_).trans_lt hroom
  rw [events_blkioOps, List.map_map] at hc
  obtain ⟨p, hp, rfl⟩ := List.mem_map.mp (List.mem_toFinset.mp hc)
  refine List.mem_toFinset.mpr (List.mem_map.mpr ⟨p.opening, ?_, rfl⟩)
  exact mem_starts_of_mem_pairs ((Pairing.done_sublist maxInflight _).subset hp)

/-- Two requests of a cgroup and one of another; the first completes, and is read. -/
def threeRequests : List (BlkioOp 1) :=
  [.insert 100 1000000 5 4096, .insert 200 1500000 6 512, .complete 0 100 3000000, .read,
    .insert 300 4000000 5 1024]

end Account
