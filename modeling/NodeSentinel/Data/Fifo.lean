import Mathlib

/-!
# Bounded queues

A queue with room for so many elements; what is put into a full one is lost.  What has been
taken out and what is still in it, in this order, is what was put in, less what was lost.
-/

variable {α β : Type*}

/-- A queue, and all that has been taken out of it. -/
structure Fifo (α : Type*) where
  queue : List α := []
  taken : List α := []

/-- What happens to a queue. -/
inductive FifoOp (α : Type*) where
  | put (x : α)
  | take

namespace Fifo

def put (cap : ℕ) (s : Fifo α) (x : α) : Fifo α :=
  if s.queue.length < cap then { s with queue := s.queue ++ [x] } else s

def take (s : Fifo α) : Fifo α :=
  match s.queue with
  | [] => s
  | x :: queue => ⟨queue, s.taken ++ [x]⟩

def step (cap : ℕ) (s : Fifo α) : FifoOp α → Fifo α
  | .put x => s.put cap x
  | .take => s.take

def run (cap : ℕ) (ops : List (FifoOp α)) : Fifo α := ops.foldl (step cap) {}

/-- All that was to be put in. -/
def offered (ops : List (FifoOp α)) : List α :=
  ops.filterMap fun
    | .put x => some x
    | .take => none

/-- All that has been in the queue. -/
def passed (s : Fifo α) : List α := s.taken ++ s.queue

/-- The queue is never full when something is put in. -/
def NeverFull (cap : ℕ) (ops : List (FifoOp α)) : Prop :=
  ∀ before x, before ++ [.put x] <+: ops → (run cap before).queue.length < cap

variable {cap : ℕ} {ops : List (FifoOp α)} {s : Fifo α}

theorem run_concat (ops : List (FifoOp α)) (op : FifoOp α) :
    run cap (ops ++ [op]) = (run cap ops).step cap op := by
  rw [run, List.foldl_append]
  rfl

theorem passed_take : s.take.passed = s.passed := by
  unfold take passed
  cases hq : s.queue with
  | nil => simp [hq]
  | cons x queue => simp

theorem passed_put (x : α) :
    (s.put cap x).passed = if s.queue.length < cap then s.passed ++ [x] else s.passed := by
  unfold put passed
  split_ifs
  · exact (List.append_assoc _ _ _).symm
  · rfl

/-- Nothing is taken out twice, or out of order. -/
theorem passed_sublist (ops : List (FifoOp α)) : (run cap ops).passed.Sublist (offered ops) := by
  induction ops using List.reverseRecOn with
  | nil => exact .slnil
  | append_singleton ops op ih =>
      rw [run_concat, offered, List.filterMap_append]
      cases op with
      | take =>
          rw [step, passed_take]
          exact ih.trans (List.sublist_append_left _ _)
      | put x =>
          rw [step, passed_put]
          split_ifs
          · exact ih.append (List.Sublist.refl _)
          · exact ih.trans (List.sublist_append_left _ _)

theorem NeverFull.restrict {before : List (FifoOp α)} (h : NeverFull cap ops)
    (hb : before <+: ops) : NeverFull cap before := fun _ _ hb' ↦ h _ _ (hb'.trans hb)

/-- Nothing is lost where the queue is never full. -/
theorem passed_eq (h : NeverFull cap ops) : (run cap ops).passed = offered ops := by
  induction ops using List.reverseRecOn with
  | nil => rfl
  | append_singleton ops op ih =>
      have ih := ih (h.restrict (List.prefix_append _ _))
      rw [run_concat, offered, List.filterMap_append, ← offered, ← ih]
      cases op with
      | take =>
          rw [step, passed_take]
          exact (List.append_nil _).symm
      | put x =>
          rw [step, passed_put, if_pos (h ops x (List.prefix_refl _))]
          rfl

theorem length_run_le (ops : List (FifoOp α)) : (run cap ops).queue.length ≤ ops.length := by
  induction ops using List.reverseRecOn with
  | nil => exact le_rfl
  | append_singleton ops op ih =>
      rw [run_concat, List.length_append, List.length_singleton]
      cases op with
      | put x =>
          rw [step, put]
          split_ifs
          · rw [List.length_append, List.length_singleton]
            exact Nat.succ_le_succ ih
          · exact ih.trans (Nat.le_succ _)
      | take =>
          rw [step, take]
          split
          · exact ih.trans (Nat.le_succ _)
          · next hq =>
              rw [hq, List.length_cons] at ih
              exact Nat.le_of_succ_le (ih.trans (Nat.le_succ _))

/-- A queue always has room for a few elements. -/
theorem NeverFull.of_length (h : ops.length ≤ cap) : NeverFull cap ops := by
  intro before x hb
  have hlen := hb.length_le
  rw [List.length_append, List.length_singleton] at hlen
  exact (length_run_le before).trans_lt (by omega)

end Fifo
