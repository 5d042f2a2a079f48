import NodeSentinel.Data.History
import NodeSentinel.Ebpf.CounterMap

/-!
# Counters over a run

A counter map that user space drains again and again while the programs count.  A drain
takes what the map holds and empties it; nothing comes between the two here.  Over a whole
run, what the drains have taken together with what is left is what the programs added, up
to the events of cgroups for which the map had no room.
-/

variable {n : ℕ} {F : Type}

/-- A counter map, and every element that a drain has returned. -/
structure Ledger (n : ℕ) (F : Type) where
  map : CounterMap n F := ∅
  returned : List (ℕ × (F → ℕ)) := []

/-- What happens to a counter map. -/
inductive CounterOp (n : ℕ) (F : Type) where
  | event (e : KernelEvent n F)
  | drain

/-- The events of a run. -/
def CounterOp.events (ops : List (CounterOp n F)) : List (KernelEvent n F) :=
  ops.filterMap fun
    | .event e => some e
    | .drain => none

namespace Ledger

/-- `Read`: every element is returned and deleted. -/
def drain (s : Ledger n F) : Ledger n F := ⟨∅, s.returned ++ s.map.read⟩

variable [DecidableEq F]

def step (s : Ledger n F) : CounterOp n F → Ledger n F
  | .event e => { s with map := s.map.record e.cpu e.cgroup e.adds }
  | .drain => s.drain

def run (ops : List (CounterOp n F)) : Ledger n F := ops.foldl step {}

/-- What the drains have returned of a counter. -/
def taken (s : Ledger n F) (cgroup : ℕ) (f : F) : ℕ :=
  (s.returned.map fun e ↦ if e.1 = cgroup then e.2 f else 0).sum

/-- What has been counted of it. -/
def counted (s : Ledger n F) (cgroup : ℕ) (f : F) : ℕ := s.taken cgroup f + s.map.stored cgroup f

end Ledger

/-! ## One step -/

namespace CounterMap

variable {m : CounterMap n F} {cgroup : ℕ} {f : F}

/-- What a drain returns of a cgroup is what the map holds of it. -/
theorem sum_read : (m.read.map fun e ↦ if e.1 = cgroup then e.2 f else 0).sum =
    m.stored cgroup f := by
  rw [read, List.map_map, stored]
  refine (AList.sum_entries m cgroup fun v ↦ v.merge f).trans ?_
  cases m.lookup cgroup <;> rfl

variable [DecidableEq F] {e : KernelEvent n F}

theorem stored_record_of_mem (h : e.cgroup ∈ m.create e.cgroup) :
    (m.record e.cpu e.cgroup e.adds).stored cgroup f =
      m.stored cgroup f + if e.cgroup = cgroup then amount e.adds f else 0 := by
  rw [record, stored_foldl_add h, stored_create]

/-- An event adds what it says, or, in a full map, nothing. -/
theorem stored_record_le : (m.record e.cpu e.cgroup e.adds).stored cgroup f ≤
    m.stored cgroup f + if e.cgroup = cgroup then amount e.adds f else 0 := by
  by_cases h : e.cgroup ∈ m.create e.cgroup
  · exact (stored_record_of_mem h).le
  · rw [record, foldl_add_of_notMem h, stored_create]
    exact Nat.le_add_right _ _

theorem mem_record {key : ℕ} (h : key ∈ m.record e.cpu e.cgroup e.adds) :
    key = e.cgroup ∨ key ∈ m :=
  mem_create (mem_foldl_add.mp h)

end CounterMap

/-- What the events of some cgroups add. -/
theorem sum_eventTotal [DecidableEq F] (evs : List (KernelEvent n F)) (cgroups : Finset ℕ) (f : F) :
    ∑ c ∈ cgroups, eventTotal evs c f =
      (evs.map fun e ↦ if e.cgroup ∈ cgroups then amount e.adds f else 0).sum := by
  induction evs with
  | nil => simp [eventTotal]
  | cons e evs ih =>
      simp only [eventTotal, List.map_cons, List.sum_cons, Finset.sum_add_distrib] at ih ⊢
      rw [ih]
      simp

/-! ## A run -/

namespace Ledger

variable {s : Ledger n F} {ops : List (CounterOp n F)} {cgroup : ℕ} {f : F}

theorem counted_drain : s.drain.counted cgroup f = s.counted cgroup f := by
  rw [counted, counted, taken, drain, List.map_append, List.sum_append, CounterMap.sum_read]
  rfl

theorem events_concat (ops : List (CounterOp n F)) (op : CounterOp n F) :
    CounterOp.events (ops ++ [op]) = CounterOp.events ops ++ CounterOp.events [op] :=
  List.filterMap_append

variable [DecidableEq F]

theorem run_concat (ops : List (CounterOp n F)) (op : CounterOp n F) :
    run (ops ++ [op]) = (run ops).step op := by
  rw [run, List.foldl_append]
  rfl

/-- The map holds nothing that has had no event. -/
theorem mem_run {key : ℕ} (h : key ∈ (run ops).map) :
    ∃ e ∈ CounterOp.events ops, e.cgroup = key := by
  induction ops using List.reverseRecOn with
  | nil => exact absurd h (AList.notMem_empty key)
  | append_singleton ops op ih =>
      rw [run_concat] at h
      rw [events_concat]
      cases op with
      | drain => exact absurd h (AList.notMem_empty key)
      | event e =>
          rcases CounterMap.mem_record h with rfl | h
          · exact ⟨e, List.mem_append_right _ (.head _), rfl⟩
          · obtain ⟨e', he', hkey⟩ := ih h
            exact ⟨e', List.mem_append_left _ he', hkey⟩

/-- Nothing is counted that has not happened. -/
theorem counted_le (ops : List (CounterOp n F)) (cgroup : ℕ) (f : F) :
    (run ops).counted cgroup f ≤ eventTotal (CounterOp.events ops) cgroup f := by
  induction ops using List.reverseRecOn with
  | nil => exact le_rfl
  | append_singleton ops op ih =>
      rw [run_concat, events_concat]
      cases op with
      | drain =>
          change (run ops).drain.counted cgroup f ≤ eventTotal (CounterOp.events ops ++ []) cgroup f
          rw [counted_drain, List.append_nil]
          exact ih
      | event e =>
          change taken _ cgroup f + _ ≤ eventTotal (CounterOp.events ops ++ [e]) cgroup f
          rw [eventTotal_append]
          have hle : ((run ops).map.record e.cpu e.cgroup e.adds).stored cgroup f ≤
              (run ops).map.stored cgroup f + _ := CounterMap.stored_record_le
          rw [counted] at ih
          change taken (run ops) cgroup f +
            ((run ops).map.record e.cpu e.cgroup e.adds).stored cgroup f ≤ _
          omega

/-- Where there are few cgroups, everything is counted once. -/
theorem counted_eq (hroom : ((CounterOp.events ops).map KernelEvent.cgroup).toFinset.card < maxCgroups) :
    (run ops).counted cgroup f = eventTotal (CounterOp.events ops) cgroup f := by
  induction ops using List.reverseRecOn with
  | nil => rfl
  | append_singleton ops op ih =>
      rw [events_concat] at hroom ⊢
      cases op with
      | drain =>
          change _ = eventTotal (CounterOp.events ops ++ []) cgroup f
          change (((CounterOp.events ops ++ []).map _).toFinset).card < _ at hroom
          rw [List.append_nil] at hroom ⊢
          rw [run_concat, ← ih hroom]
          exact counted_drain
      | event e =>
          change _ = eventTotal (CounterOp.events ops ++ [e]) cgroup f
          change (((CounterOp.events ops ++ [e]).map _).toFinset).card < _ at hroom
          have hbefore : ((CounterOp.events ops).map KernelEvent.cgroup).toFinset ⊆
              ((CounterOp.events ops ++ [e]).map KernelEvent.cgroup).toFinset := fun key hkey ↦ by
            rw [List.map_append, List.toFinset_append]
            exact Finset.mem_union_left _ hkey
          have hmap : (run ops).map.entries.length < maxCgroups := by
            refine lt_of_le_of_lt (AList.length_le_card _ fun key hkey ↦ ?_)
              ((Finset.card_le_card hbefore).trans_lt hroom)
            obtain ⟨e', he', rfl⟩ := mem_run hkey
            exact List.mem_toFinset.mpr (List.mem_map_of_mem he')
          rw [run_concat, eventTotal_append, ← ih ((Finset.card_le_card hbefore).trans_lt hroom)]
          change taken (run ops) cgroup f + _ = taken (run ops) cgroup f + _ + _
          rw [add_assoc]
          congr 1
          exact CounterMap.stored_record_of_mem (CounterMap.self_mem_create hmap)

end Ledger

/-! ## A counter map in a larger system -/

section System

variable {α : Type*} {isDrain : α → Bool} {g : List α → α → List (KernelEvent n F)} {h : List α}

/-- What happens to the map when the system takes a step: it is drained, or it counts. -/
def drainedOps (isDrain : α → Bool) (g : List α → α → List (KernelEvent n F)) (before : List α)
    (x : α) : List (CounterOp n F) :=
  if isDrain x then [.drain] else (g before x).map .event

theorem drainedOps_of_not {before : List α} {x : α} (hx : isDrain x = false) :
    drainedOps isDrain g before x = (g before x).map .event := by
  rw [drainedOps, hx]
  rfl

theorem events_drainedOps (hquiet : ∀ before x, isDrain x = true → g before x = []) (h : List α) :
    CounterOp.events (outputs (drainedOps isDrain g) h) = outputs g h := by
  induction h using List.reverseRecOn with
  | nil => rfl
  | append_singleton h x ih =>
      have hone : CounterOp.events (drainedOps isDrain g h x) = g h x := by
        unfold drainedOps
        split_ifs with hd
        · exact (hquiet h x hd).symm
        · simp [CounterOp.events, List.filterMap_map]
      rw [outputs_concat, outputs_concat, ← ih, CounterOp.events, List.filterMap_append]
      exact congrArg _ hone

variable [DecidableEq F]

theorem Ledger.run_append (ops ops' : List (CounterOp n F)) :
    Ledger.run (ops ++ ops') = ops'.foldl Ledger.step (Ledger.run ops) := by
  rw [Ledger.run, List.foldl_append]
  rfl

theorem Ledger.run_outputs_concat (f : List α → α → List (CounterOp n F)) (h : List α) (x : α) :
    Ledger.run (outputs f (h ++ [x])) = (f h x).foldl Ledger.step (Ledger.run (outputs f h)) := by
  rw [outputs_concat, Ledger.run_append]

end System
