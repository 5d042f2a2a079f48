import NodeSentinel.Agent.Rows

/-!
# The display limit

`TopN` is documented as the number of rows to print.  It cuts the victims before the health
of the node is decided, and the ranking of the users before they are scored, so the verdict
depends on it: with no rows the node is healthy, and a cgroup below the cut has no say in
the highest confidence.
-/

variable {K : Type} [Field K] [LinearOrder K]

/-- The agent with another display limit. -/
def Agent.withTopN (a : Agent K) (n : ℕ) : Agent K := { a with cfg := { a.cfg with topN := n } }

/-- Two snapshots that differ in the number of their rows only. -/
structure SameVerdict (s s' : Snapshot K) : Prop where
  healthy : s.healthy = s'.healthy
  maxConfidence : s.maxConfidence = s'.maxConfidence
  ioMaxConfidence : s.ioMaxConfidence = s'.ioMaxConfidence
  netMaxConfidence : s.netMaxConfidence = s'.netMaxConfidence
  /-- Both tables are cut from one ranking, so rows in the same place are of the same cgroup. -/
  offenders : ∀ {k : ℕ} {o o' : Offender K}, s.offenders[k]? = some o →
    s'.offenders[k]? = some o' → o.confidence = o'.confidence
  ioOffenders : ∀ {k : ℕ} {o o' : IOOffender K}, s.ioOffenders[k]? = some o →
    s'.ioOffenders[k]? = some o' → o.confidence = o'.confidence
  netOffenders : ∀ {k : ℕ} {o o' : NetOffender K}, s.netOffenders[k]? = some o →
    s'.netOffenders[k]? = some o' → o.confidence = o'.confidence

/-! ## One table -/

namespace Table

variable {ρ σ : Type} {t : Table K ρ σ} {n n' : ℕ}

/-- No cgroup between two limits is attributed with more confidence than all those within
both. -/
def Covered (t : Table K ρ σ) (n n' : ℕ) : Prop :=
  ∀ r ∈ t.ranked.take (max n n'),
    t.score r ≤ -1 ∨ ∃ r' ∈ t.ranked.take (min n n'), t.score r ≤ t.score r'

theorem covered_comm : t.Covered n n' ↔ t.Covered n' n := by
  rw [Covered, Covered, max_comm, min_comm]

/-- A larger table does not have a smaller top. -/
theorem top_mono (h : n ≤ n') : t.top n ≤ t.top n' := by
  refine foldl_max_le_iff.mpr ⟨le_foldl_max_iff.mpr (.inl le_rfl), fun x hx ↦ ?_⟩
  refine le_foldl_max_iff.mpr (.inr ⟨x, ?_, le_rfl⟩)
  unfold listed at hx ⊢
  split_ifs at hx ⊢
  · exact (List.map_subset _ (List.take_subset_take_left _ h)) hx
  · exact hx

theorem top_le_iff (hh : t.harmed = true) (h : n ≤ n') :
    t.top n' ≤ t.top n ↔ t.Covered n n' := by
  rw [Covered, max_eq_right h, min_eq_left h]
  unfold top
  rw [t.listed_of_harmed hh, t.listed_of_harmed hh, foldl_max_le_iff]
  simp only [le_foldl_max_iff, le_refl, true_or, true_and, List.mem_map,
    exists_exists_and_eq_and, forall_exists_index, and_imp, forall_apply_eq_imp_iff₂]

/-- When two limits agree on the highest confidence. -/
theorem top_eq_iff : t.top n = t.top n' ↔ (t.harmed = true → t.Covered n n') := by
  cases hh : t.harmed with
  | false => simp [top, listed, hh]
  | true =>
      rw [forall_prop_of_true rfl]
      rcases le_total n n' with h | h
      · rw [← top_le_iff hh h]
        exact ⟨fun he ↦ he.ge, fun hle ↦ (top_mono h).antisymm hle⟩
      · rw [covered_comm, ← top_le_iff hh h]
        exact ⟨fun he ↦ he.le, fun hle ↦ hle.antisymm (top_mono h)⟩

omit [LinearOrder K] [Field K] in
/-- Rows in the same place are the same. -/
theorem rows_agree {k : ℕ} {o o' : σ} (h : (t.rows n)[k]? = some o)
    (h' : (t.rows n')[k]? = some o') : o = o' := by
  have hcut : ∀ n, t.listed n <+: t.ranked := fun n ↦ by
    unfold listed
    split
    · exact List.take_prefix _ _
    · exact List.nil_prefix
  have hget : ∀ {n o}, (t.rows n)[k]? = some o → (t.ranked.map t.row)[k]? = some o :=
    fun {n _} ho ↦ by
      obtain ⟨hk, rfl⟩ := List.getElem?_eq_some_iff.mp ho
      exact List.prefix_iff_getElem?.mp ((hcut n).map t.row) k hk
  exact Option.some.inj ((hget h).symm.trans (hget h'))

end Table

/-! ## The snapshot -/

section Snapshot

variable [FloorSemiring K] [Sqrt K]

theorem healthy_eq_iff {c c' c'' : Bool} {n n' : ℕ} :
    (((!c || n == 0) && (!c' || n == 0) && (!c'' || n == 0)) =
      ((!c || n' == 0) && (!c' || n' == 0) && (!c'' || n' == 0))) ↔
      (n = 0 ↔ n' = 0) ∨ c = false ∧ c' = false ∧ c'' = false := by
  cases c <;> cases c' <;> cases c'' <;> cases n <;> cases n' <;> simp

end Snapshot

/-! ## A cgroup below the cut -/

/-- Pod 1 uses the most CPU, as its request lets it, and pod 2 four times its share. -/
def belowTheCut : ReportInterval where
  cpu := [⟨1, 600⟩, ⟨2, 400⟩]
  runq := [⟨3, List.replicate 13 0 ++ [100], 100⟩]
  blkio := []
  network := []
  timeline := []
  res := .steady (fun cg ↦ if cg = 1 then some ⟨"web", "a", "app", 900⟩
    else if cg = 2 then some ⟨"web", "b", "app", 100⟩ else none) fun _ ↦ none
