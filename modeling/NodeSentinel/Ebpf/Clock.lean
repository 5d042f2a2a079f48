import NodeSentinel.Data.History

/-!
# The clock of the kernel

`bpf_ktime_get_ns` is monotonic and a `__u64`; the programs subtract its values as such.  The
difference is the time that has passed if the clock does not go back.
-/

/-- The difference of two `__u64`. -/
def sub64 (now start : ℕ) : ℕ := (now + 2 ^ 64 - start) % 2 ^ 64

theorem sub64_of_le {now start : ℕ} (hle : start ≤ now) (hlt : now < 2 ^ 64) :
    sub64 now start = now - start := by
  unfold sub64
  omega

variable {α : Type*} {time : α → Option ℕ} {ops : List α}

/-- The clock has started, does not go back, and fits into a `__u64`. -/
structure InClock (time : α → Option ℕ) (ops : List α) : Prop where
  mono : (ops.filterMap time).Pairwise (· ≤ ·)
  started : ∀ now ∈ ops.filterMap time, 0 < now
  bounded : ∀ now ∈ ops.filterMap time, now < 2 ^ 64

namespace InClock

theorem restrict {before : List α} (h : InClock time ops) (hb : before <+: ops) :
    InClock time before where
  mono := h.mono.sublist (hb.sublist.filterMap _)
  started now hnow := h.started now ((hb.sublist.filterMap _).subset hnow)
  bounded now hnow := h.bounded now ((hb.sublist.filterMap _).subset hnow)

/-- An event is not earlier than those before it. -/
theorem le_of_concat {op : α} {now now' : ℕ} (h : InClock time (ops ++ [op]))
    (hnow : now ∈ ops.filterMap time) (hop : time op = some now') : now ≤ now' := by
  have hmono := h.mono
  rw [List.filterMap_append, List.pairwise_append] at hmono
  refine hmono.2.2 now hnow now' ?_
  rw [List.filterMap_cons, hop]
  exact .head _

theorem of_concat {op : α} {now : ℕ} (h : InClock time (ops ++ [op])) (hop : time op = some now) :
    0 < now ∧ now < 2 ^ 64 := by
  have hmem : now ∈ (ops ++ [op]).filterMap time := List.mem_filterMap.mpr ⟨op, by simp, hop⟩
  exact ⟨h.started now hmem, h.bounded now hmem⟩

end InClock

/-- Up to an event is part of a history that has it. -/
theorem concat_prefix_split (before after : List α) (op : α) :
    before ++ [op] <+: before ++ op :: after := ⟨after, by simp⟩
