import NodeSentinel.Cgroup.Runtime
import NodeSentinel.Data.Fifo
import NodeSentinel.Data.LittleEndian

/-!
# Lifecycle events

`cgroup_monitor.bpf.c` writes an event into the ring buffer whenever a cgroup is made or
removed; `CgroupObserver.Read` decodes it, and `runLifecycle` acts on it: a new container is
named by the lazy join, one that is gone is tombstoned.

A record has memory in it that the program does not write, and a path that is cut where it is
too long.  `Pipeline` is the ring with its bytes; it behaves as a bounded queue of events.
-/

/-! ## The record -/

/-- `EVENT_PATH_LEN`. -/
def eventPathLen : ℕ := 256

/-- `sizeof(struct cgroup_event)`, four bytes of padding included. -/
def eventSize : ℕ := 272

/-- `CGROUP_OP_MKDIR`. -/
def cgroupOpMkdir : ℕ := 0

/-- `CGROUP_OP_RMDIR`. -/
def cgroupOpRmdir : ℕ := 1

/-- `CgroupEvent`; the path is a Go string, of bytes. -/
structure CgroupEvent where
  cgroupID : ℕ
  op : ℕ
  path : List UInt8
deriving Repr, DecidableEq

/-- Some bytes of a memory are written. -/
def writeAt (mem : List UInt8) (pos : ℕ) (bytes : List UInt8) : List UInt8 :=
  mem.take pos ++ bytes ++ mem.drop (pos + bytes.length)

/-- `bpf_probe_read_kernel_str`: what it writes of a string, which ends with a NUL.  A fault
leaves zeros. -/
def probeReadKernelStr (size : ℕ) : Option (List UInt8) → List UInt8
  | none => List.replicate size 0
  | some path => path.take (size - 1) ++ [0]

/-- `emit`: what it makes of the memory it has reserved. -/
def emitRecord (mem : List UInt8) (cgroupID op : ℕ) (path : Option (List UInt8)) : List UInt8 :=
  let mem := writeAt mem 0 (toBytes 8 cgroupID)
  let mem := writeAt mem 8 (toBytes 4 op)
  writeAt mem 12 (probeReadKernelStr eventPathLen path)

/-- `cString`. -/
def cString (bytes : List UInt8) : List UInt8 := bytes.takeWhile (· ≠ 0)

/-- `Read`, of a record: `binary.Read` fails only on one that is too short. -/
def decodeEvent (sample : List UInt8) : Option CgroupEvent :=
  if sample.length < eventSize then none
  else some {
    cgroupID := ofBytes (sample.take 8)
    op := ofBytes ((sample.drop 8).take 4)
    path := cString ((sample.drop 12).take eventPathLen) }

section Record

variable {mem path : List UInt8}

theorem cString_append_nul (h : 0 ∉ path) (rest : List UInt8) : cString (path ++ 0 :: rest) = path := by
  rw [cString, List.takeWhile_append_of_pos]
  · simp
  · intro b hb
    have hne : b ≠ 0 := fun h0 ↦ h (by rwa [h0] at hb)
    simpa using hne

theorem length_probeReadKernelStr {size : ℕ} (hsize : 0 < size) (path : Option (List UInt8)) :
    (probeReadKernelStr size path).length ≤ size := by
  cases path with
  | none => exact (List.length_replicate ..).le
  | some path =>
      rw [probeReadKernelStr, List.length_append, List.length_take, List.length_singleton]
      omega

theorem writeAt_append {b : List UInt8} {pos : ℕ} (h : b.length = pos)
    (mem bytes : List UInt8) :
    writeAt (b ++ mem) pos bytes = b ++ (bytes ++ mem.drop bytes.length) := by
  rw [writeAt, List.take_left' h, List.append_assoc, ← h, List.drop_length_add_append]

/-- The fields follow each other; behind the path is what was there before. -/
theorem emit_eq (hmem : mem.length = eventSize) (cgroupID op : ℕ) (path : Option (List UInt8)) :
    ∃ rest, emitRecord mem cgroupID op path = toBytes 8 cgroupID ++ (toBytes 4 op ++
      (probeReadKernelStr eventPathLen path ++ rest)) ∧
      (emitRecord mem cgroupID op path).length = eventSize := by
  have hsize : eventSize = 272 := rfl
  have hlen : (probeReadKernelStr eventPathLen path).length ≤ 256 :=
    length_probeReadKernelStr (by decide) path
  have hid : writeAt mem 0 (toBytes 8 cgroupID) = toBytes 8 cgroupID ++ mem.drop 8 := by
    have hw := writeAt_append (b := []) rfl mem (toBytes 8 cgroupID)
    rwa [List.nil_append, List.nil_append, length_toBytes] at hw
  have hop : writeAt (toBytes 8 cgroupID ++ mem.drop 8) 8 (toBytes 4 op) =
      toBytes 8 cgroupID ++ (toBytes 4 op ++ mem.drop 12) := by
    rw [writeAt_append (length_toBytes 8 cgroupID), length_toBytes, List.drop_drop]
  have hemit : emitRecord mem cgroupID op path = toBytes 8 cgroupID ++ (toBytes 4 op ++
      (probeReadKernelStr eventPathLen path ++
        (mem.drop 12).drop (probeReadKernelStr eventPathLen path).length)) := by
    rw [emitRecord, hid, hop, ← List.append_assoc, writeAt_append, List.append_assoc]
    rw [List.length_append, length_toBytes, length_toBytes]
  refine ⟨_, hemit, ?_⟩
  rw [hemit]
  simp only [List.length_append, length_toBytes, List.length_drop, hmem]
  omega

/-- What is decoded is what was emitted, whatever the memory held; the path is cut to 255
bytes. -/
theorem decodeEvent_emit {cgroupID op : ℕ} {path : Option (List UInt8)}
    (hmem : mem.length = eventSize) (hid : cgroupID < 2 ^ 64) (hop : op < 2 ^ 32)
    (hnul : ∀ p ∈ path, 0 ∉ p) : decodeEvent (emitRecord mem cgroupID op path) =
      some ⟨cgroupID, op, (path.getD []).take (eventPathLen - 1)⟩ := by
  obtain ⟨rest, hemit, hlen⟩ := emit_eq hmem cgroupID op path
  have hstr : cString ((probeReadKernelStr eventPathLen path ++ rest).take eventPathLen) =
      (path.getD []).take (eventPathLen - 1) := by
    cases path with
    | none =>
        rw [probeReadKernelStr, List.take_left' (List.length_replicate ..)]
        rfl
    | some p =>
        have hshort : (p.take (eventPathLen - 1)).length ≤ eventPathLen - 1 := by
          rw [List.length_take]
          exact min_le_left _ _
        have hcut : (p.take (eventPathLen - 1) ++ 0 :: rest).take eventPathLen =
            p.take (eventPathLen - 1) ++
              0 :: rest.take (eventPathLen - 1 - (p.take (eventPathLen - 1)).length) := by
          have hlast : eventPathLen - (p.take (eventPathLen - 1)).length =
              eventPathLen - 1 - (p.take (eventPathLen - 1)).length + 1 := by
            have hpath : eventPathLen = 256 := rfl
            omega
          rw [List.take_append, List.take_of_length_le (hshort.trans (Nat.sub_le _ _)), hlast,
            List.take_succ_cons]
        rw [probeReadKernelStr, List.append_assoc]
        refine (congrArg cString hcut).trans (cString_append_nul (fun h0 ↦ ?_) _)
        exact hnul p rfl (List.mem_of_mem_take h0)
  have h8 : (emitRecord mem cgroupID op path).take 8 = toBytes 8 cgroupID := by
    rw [hemit]
    exact List.take_left' (length_toBytes 8 cgroupID)
  have h4 : ((emitRecord mem cgroupID op path).drop 8).take 4 = toBytes 4 op := by
    rw [hemit, List.drop_left' (length_toBytes 8 cgroupID)]
    exact List.take_left' (length_toBytes 4 op)
  have h12 : (emitRecord mem cgroupID op path).drop 12 = probeReadKernelStr eventPathLen path ++ rest := by
    rw [hemit, ← List.append_assoc]
    exact List.drop_left' (by rw [List.length_append, length_toBytes, length_toBytes])
  rw [decodeEvent, if_neg (by rw [hlen]; exact lt_irrefl _), h8, h4, h12, hstr, ofBytes_toBytes hid,
    ofBytes_toBytes hop]

end Record

/-! ## The ring -/

/-- The path as text: `scopeRe` looks at ASCII only, so a byte is a character here. -/
def CgroupEvent.text (ev : CgroupEvent) : String :=
  String.ofList (ev.path.map fun b ↦ Char.ofNat b.toNat)

/-- The body of the loop of `runLifecycle`, after the read. -/
def NameResolver.act (r : NameResolver) (now : ℤ) (status : String → Option ContainerStatus)
    (ev : CgroupEvent) : NameResolver :=
  if ev.op = cgroupOpMkdir then (r.resolveCgroupPath status ev.cgroupID ev.text).1
  else if ev.op = cgroupOpRmdir then { r with cache := r.cache.tombstone now ev.cgroupID }
  else r

/-- The records for which the ring has room: `bpf_ringbuf_reserve` takes 8 bytes more for each,
and never fills the ring. -/
def ringRecords : ℕ := (256 * 1024 - 1) / (8 + eventSize)

/-- What happens to the ring and to the resolver. -/
inductive LifecycleOp where
  /-- `handle_cgroup_mkdir` and `handle_cgroup_rmdir`, in some memory of the ring. -/
  | emit (mem : List UInt8) (cgroupID op : ℕ) (path : Option (List UInt8))
  /-- A round of `runLifecycle`, at a time and with what the runtime answers. -/
  | read (now : ℤ) (status : String → Option ContainerStatus)
  /-- `Refresh`, from the watcher or the ticker. -/
  | refresh (now : ℤ) (a : Answers)

/-- The ring with its bytes; the loop runs until a read fails. -/
structure Pipeline where
  ring : List (List UInt8) := []
  running : Bool := true
  resolver : NameResolver

namespace Pipeline

def step (s : Pipeline) : LifecycleOp → Pipeline
  | .emit mem cgroupID op path =>
      if s.ring.length < ringRecords then
        { s with ring := s.ring ++ [emitRecord mem cgroupID op path] }
      else s
  | .read now status =>
      if s.running then
        match s.ring with
        | [] => s
        | sample :: ring =>
            match decodeEvent sample with
            | none => { s with ring, running := false }
            | some ev => { s with ring, resolver := s.resolver.act now status ev }
      else s
  | .refresh now a => { s with resolver := (s.resolver.refresh now a).1 }

def run (r : NameResolver) (ops : List LifecycleOp) : Pipeline := ops.foldl step { resolver := r }

end Pipeline

/-! ## The queue of events -/

/-- What the kernel can put into a record. -/
def LifecycleOp.WellFormed : LifecycleOp → Prop
  | .emit mem cgroupID op path =>
      mem.length = eventSize ∧ cgroupID < 2 ^ 64 ∧ op < 2 ^ 32 ∧ ∀ p ∈ path, 0 ∉ p
  | _ => True

/-- The queue of the events, with their paths cut. -/
def LifecycleOp.queued : LifecycleOp → Option (FifoOp CgroupEvent)
  | .emit _ cgroupID op path =>
      some (.put ⟨cgroupID, op, (path.getD []).take (eventPathLen - 1)⟩)
  | .read _ _ => some .take
  | .refresh _ _ => none

/-- A resolver that is told of the events by a bounded queue. -/
structure Lifecycle where
  events : Fifo CgroupEvent := {}
  resolver : NameResolver

namespace Lifecycle

def step (s : Lifecycle) (op : LifecycleOp) : Lifecycle where
  events := op.queued.toList.foldl (Fifo.step ringRecords) s.events
  resolver :=
    match op with
    | .emit _ _ _ _ => s.resolver
    | .read now status =>
        match s.events.queue with
        | [] => s.resolver
        | ev :: _ => s.resolver.act now status ev
    | .refresh now a => (s.resolver.refresh now a).1

def run (r : NameResolver) (ops : List LifecycleOp) : Lifecycle := ops.foldl step { resolver := r }

end Lifecycle

/-- The ring holds the records of the events in the queue, and the resolvers agree. -/
structure Simulates (s : Pipeline) (t : Lifecycle) : Prop where
  running : s.running = true
  ring : s.ring.map decodeEvent = t.events.queue.map some
  resolver : s.resolver = t.resolver

/-- The queues that the events go through. -/
def queueOps (ops : List LifecycleOp) : List (FifoOp CgroupEvent) := ops.filterMap LifecycleOp.queued

section Simulation

variable {s : Pipeline} {t : Lifecycle} {r : NameResolver} {ops : List LifecycleOp}

theorem Simulates.step (h : Simulates s t) {op : LifecycleOp} (hop : op.WellFormed) :
    Simulates (s.step op) (t.step op) := by
  obtain ⟨hrun, hring, hres⟩ := h
  cases op with
  | emit mem cgroupID op path =>
      obtain ⟨hmem, hid, hop, hnul⟩ := hop
      have hdecode := decodeEvent_emit hmem hid hop hnul
      have hlen : s.ring.length = t.events.queue.length := by
        simpa using congrArg List.length hring
      have hput : (t.step (.emit mem cgroupID op path)).events = t.events.put ringRecords
          ⟨cgroupID, op, (path.getD []).take (eventPathLen - 1)⟩ := rfl
      rw [Pipeline.step]
      by_cases hroom : s.ring.length < ringRecords
      · refine ⟨by rwa [if_pos hroom], ?_, by rwa [if_pos hroom]⟩
        rw [if_pos hroom, hput, Fifo.put, if_pos (hlen ▸ hroom), List.map_append, hring,
          List.map_append, List.map_singleton, hdecode]
        rfl
      · refine ⟨by rwa [if_neg hroom], ?_, by rwa [if_neg hroom]⟩
        rw [if_neg hroom, hput, Fifo.put, if_neg (hlen ▸ hroom)]
        exact hring
  | read now status =>
      have htake : (t.step (.read now status)).events = t.events.take := rfl
      rw [Pipeline.step, if_pos hrun]
      cases hqueue : t.events.queue with
      | nil =>
          rw [hqueue, List.map_nil, List.map_eq_nil_iff] at hring
          refine ⟨by rw [hring]; exact hrun, ?_, ?_⟩
          · rw [htake, Fifo.take, hqueue, hring]
            dsimp only
            rw [hring, hqueue]
            rfl
          · rw [hring, Lifecycle.step, hqueue]
            exact hres
      | cons ev queue =>
          rw [hqueue, List.map_cons] at hring
          obtain ⟨sample, ring, hs, hsample, hrest⟩ := List.map_eq_cons_iff.mp hring
          rw [hs]
          dsimp only
          rw [hsample]
          refine ⟨hrun, ?_, ?_⟩
          · rw [htake, Fifo.take, hqueue]
            exact hrest
          · rw [Lifecycle.step, hqueue, hres]
  | refresh now a => exact ⟨hrun, hring, by rw [Pipeline.step, Lifecycle.step, hres]⟩

/-- The queue of a run is one that the events have gone through. -/
theorem Lifecycle.run_events (r : NameResolver) (ops : List LifecycleOp) :
    (run r ops).events = Fifo.run ringRecords (queueOps ops) := by
  induction ops using List.reverseRecOn with
  | nil => rfl
  | append_singleton ops op ih =>
      rw [run, List.foldl_append, List.foldl_cons, List.foldl_nil, ← run, queueOps,
        List.filterMap_append, Fifo.run, List.foldl_append, ← Fifo.run, ← queueOps, ← ih]
      cases op <;> rfl

/-- The bytes in the ring do not matter: the resolver is told of the events by a bounded queue.
The loop never stops by itself, no event is acted on twice or out of order, and if the ring is
never full when an event comes, each is. -/
theorem pipeline_run (r : NameResolver) {ops : List LifecycleOp} (h : ∀ op ∈ ops, op.WellFormed) :
    Simulates (Pipeline.run r ops) (Lifecycle.run r ops) ∧
      (Lifecycle.run r ops).events.passed.Sublist (Fifo.offered (queueOps ops)) ∧
      (Fifo.NeverFull ringRecords (queueOps ops) →
        (Lifecycle.run r ops).events.passed = Fifo.offered (queueOps ops)) := by
  refine ⟨?_, ?_, fun hroom ↦ ?_⟩
  · induction ops using List.reverseRecOn with
    | nil => exact ⟨rfl, rfl, rfl⟩
    | append_singleton ops op ih =>
        rw [Pipeline.run, Lifecycle.run, List.foldl_append, List.foldl_append]
        exact (ih fun op hop ↦ h op (List.mem_append_left _ hop)).step (h op (by simp))
  · rw [Lifecycle.run_events]
    exact Fifo.passed_sublist _
  · rw [Lifecycle.run_events]
    exact Fifo.passed_eq hroom

/-- A resolver that knows nothing. -/
def freshResolver : NameResolver := ⟨newTTLCache 30, fun _ ↦ none⟩

/-- A cgroup that is made and removed, in memory that has been used before. -/
def briefCgroup : List LifecycleOp :=
  [.emit (List.replicate 272 7) 5 0 (some [97, 98]), .emit (List.replicate 272 9) 5 1 (some [97, 98]),
    .read 0 fun _ ↦ none, .read 1 fun _ ↦ none]

theorem briefCgroup_run : (Pipeline.run freshResolver briefCgroup).running = true ∧
    (Lifecycle.run freshResolver briefCgroup).events.taken = [⟨5, 0, [97, 98]⟩, ⟨5, 1, [97, 98]⟩] := by
  have hwell : ∀ op ∈ briefCgroup, op.WellFormed := by
    intro op hop
    simp only [briefCgroup, List.mem_cons, List.not_mem_nil, or_false] at hop
    rcases hop with rfl | rfl | rfl | rfl
    · exact ⟨List.length_replicate .., by decide, by decide, by simp⟩
    · exact ⟨List.length_replicate .., by decide, by decide, by simp⟩
    · exact trivial
    · exact trivial
  obtain ⟨hsim, -, hall⟩ := pipeline_run freshResolver hwell
  have hpassed := hall (Fifo.NeverFull.of_length (by decide))
  refine ⟨hsim.running, ?_⟩
  have hqueue : (Lifecycle.run freshResolver briefCgroup).events.queue = [] := by
    rw [Lifecycle.run_events]
    rfl
  rwa [Fifo.passed, hqueue, List.append_nil] at hpassed

end Simulation
