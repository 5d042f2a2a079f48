import NodeSentinel.Data.AList
import NodeSentinel.Data.History

/-!
# Starts and finishes

What has started is kept in a table until it finishes.  A start that comes before the last
one of its key has finished takes its place; a finish takes the start out, and the two are
a pair.  The table has a capacity: a start for which there is no room is lost.

`awaiting` and `pairs` say what is to be paired with what, from the marks alone; `run` is
the table.
-/

variable {κ σ φ : Type*}

/-- A mark: the start or the finish of a key. -/
inductive Mark (κ σ φ : Type*) where
  | start (key : κ) (x : σ)
  | finish (key : κ) (y : φ)

/-- A start and the finish that came after it. -/
structure Pair (κ σ φ : Type*) where
  key : κ
  started : σ
  finished : φ

namespace Mark

def key : Mark κ σ φ → κ
  | start key _ => key
  | finish key _ => key

/-- A mark of the key. -/
def IsOf (key : κ) (m : Mark κ σ φ) : Prop := m.key = key

/-- What the mark leaves to be finished. -/
def opens : Mark κ σ φ → Option σ
  | start _ x => some x
  | finish _ _ => none

/-- The pair that the mark completes, if its key has started. -/
def completes : Mark κ σ φ → Option σ → Option (Pair κ σ φ)
  | finish key y, some x => some ⟨key, x, y⟩
  | _, _ => none

theorem completes_eq_some {m : Mark κ σ φ} {o : Option σ} {p : Pair κ σ φ}
    (h : m.completes o = some p) :
    o = some p.started ∧ m = .finish p.key p.finished := by
  cases m with
  | start key x => cases h
  | finish key y =>
      cases o with
      | none => cases h
      | some x =>
          cases h
          exact ⟨rfl, rfl⟩

end Mark

/-- The keys and values that have started. -/
def starts (marks : List (Mark κ σ φ)) : List (κ × σ) :=
  marks.filterMap fun m ↦ m.opens.map (m.key, ·)

theorem starts_concat (marks : List (Mark κ σ φ)) (m : Mark κ σ φ) :
    starts (marks ++ [m]) = starts marks ++ (m.opens.map (m.key, ·)).toList := by
  rw [starts, List.filterMap_append]
  cases m <;> rfl

variable [DecidableEq κ]

/-! ## What is to be paired -/

/-- What a key has started and not finished. -/
def awaiting (marks : List (Mark κ σ φ)) (key : κ) : Option σ :=
  marks.foldl (fun o m ↦ if m.key = key then m.opens else o) none

/-- The pairs of some marks: each finish with what its key awaits. -/
def pairs (marks : List (Mark κ σ φ)) : List (Pair κ σ φ) :=
  outputs (fun before m ↦ (m.completes (awaiting before m.key)).toList) marks

/-- The keys that have started and not finished. -/
def openKeys (marks : List (Mark κ σ φ)) : Finset κ :=
  (marks.map Mark.key).toFinset.filter fun key ↦ (awaiting marks key).isSome

section Awaiting

variable {marks : List (Mark κ σ φ)} {m : Mark κ σ φ} {key : κ} {x : σ}

theorem awaiting_concat (marks : List (Mark κ σ φ)) (m : Mark κ σ φ) (key : κ) :
    awaiting (marks ++ [m]) key = if m.key = key then m.opens else awaiting marks key := by
  rw [awaiting, List.foldl_append]
  rfl

theorem awaiting_start (key' : κ) : awaiting (marks ++ [.start key' x]) key =
    if key = key' then some x else awaiting marks key := by
  rw [awaiting_concat]
  exact if_congr eq_comm rfl rfl

theorem awaiting_finish (key' : κ) (y : φ) : awaiting (marks ++ [.finish key' y]) key =
    if key = key' then none else awaiting marks key := by
  rw [awaiting_concat]
  exact if_congr eq_comm rfl rfl

/-- A key awaits its finish when its last mark is a start. -/
theorem awaiting_eq_some_iff : awaiting marks key = some x ↔
    ∃ since, LastOf (Mark.IsOf key) marks (.start key x) since := by
  induction marks using List.reverseRecOn with
  | nil =>
      constructor
      · nofun
      · rintro ⟨since, hlast⟩
        exact absurd hlast LastOf.not_nil
  | append_singleton marks m ih =>
      rw [awaiting_concat]
      by_cases hm : m.key = key
      · have hm' : m.IsOf key := hm
        rw [if_pos hm]
        constructor
        · intro hx
          refine ⟨[], (LastOf.concat_of_pos hm').mpr ⟨?_, rfl⟩⟩
          cases m with
          | start key' x' =>
              cases hm
              cases hx
              rfl
          | finish key' y => cases hx
        · rintro ⟨since, hlast⟩
          obtain ⟨rfl, -⟩ := (LastOf.concat_of_pos hm').mp hlast
          rfl
      · have hm' : ¬ m.IsOf key := hm
        rw [if_neg hm, ih]
        constructor
        · rintro ⟨since, hlast⟩
          exact ⟨since ++ [m], (LastOf.concat_of_neg hm').mpr ⟨since, rfl, hlast⟩⟩
        · rintro ⟨since, hlast⟩
          obtain ⟨since', -, hlast⟩ := (LastOf.concat_of_neg hm').mp hlast
          exact ⟨since', hlast⟩

theorem mem_openKeys : key ∈ openKeys marks ↔ (awaiting marks key).isSome := by
  refine Finset.mem_filter.trans (and_iff_right_of_imp fun h ↦ ?_)
  obtain ⟨x, hx⟩ := Option.isSome_iff_exists.mp h
  obtain ⟨since, ⟨before, rfl⟩, -, -⟩ := awaiting_eq_some_iff.mp hx
  simp [Mark.key]

theorem pairs_concat (marks : List (Mark κ σ φ)) (m : Mark κ σ φ) :
    pairs (marks ++ [m]) = pairs marks ++ (m.completes (awaiting marks m.key)).toList :=
  outputs_concat marks m

/-- A pair is a finish together with the last start before it. -/
theorem mem_pairs {p : Pair κ σ φ} : p ∈ pairs marks ↔
    ∃ before after, marks = before ++ .finish p.key p.finished :: after ∧
      awaiting before p.key = some p.started := by
  refine mem_outputs.trans ⟨?_, ?_⟩
  · rintro ⟨before, m, after, rfl, hp⟩
    cases m with
    | start key x => cases hp
    | finish key y =>
        cases hx : awaiting before key with
        | none =>
            rw [Mark.key, hx] at hp
            cases hp
        | some x =>
            rw [Mark.key, hx, Mark.completes, Option.mem_toList, Option.some.injEq] at hp
            subst hp
            exact ⟨before, after, rfl, hx⟩
  · rintro ⟨before, after, rfl, hx⟩
    refine ⟨before, _, after, rfl, ?_⟩
    rw [Mark.key, hx]
    exact .head _

end Awaiting

/-! ## The table -/

/-- What has started and not finished. -/
abbrev PendingTable (κ σ : Type*) [DecidableEq κ] := AList fun _ : κ ↦ σ

namespace PendingTable

/-- A start is kept, while the table has room for its key. -/
def begin (cap : ℕ) (t : PendingTable κ σ) (key : κ) (x : σ) : PendingTable κ σ :=
  if key ∈ t ∨ t.entries.length < cap then t.insert key x else t

/-- The table after a mark. -/
def step (cap : ℕ) (t : PendingTable κ σ) : Mark κ σ φ → PendingTable κ σ
  | .start key x => t.begin cap key x
  | .finish key _ => t.erase key

/-- The pair that a mark completes. -/
def completed (t : PendingTable κ σ) (m : Mark κ σ φ) : Option (Pair κ σ φ) :=
  m.completes (t.lookup m.key)

/-- The start that a mark makes the table forget, or that the table has no room for. -/
def lost (cap : ℕ) (t : PendingTable κ σ) : Mark κ σ φ → Option (κ × σ)
  | .start key x =>
      match t.lookup key with
      | some x' => some (key, x')
      | none => if t.entries.length < cap then none else some (key, x)
  | .finish _ _ => none

end PendingTable

/-- A table, with what has been paired and what has been lost. -/
structure Pairing (κ σ φ : Type*) [DecidableEq κ] where
  table : PendingTable κ σ
  done : List (Pair κ σ φ)
  lost : List (κ × σ)

namespace Pairing

def step (cap : ℕ) (s : Pairing κ σ φ) (m : Mark κ σ φ) : Pairing κ σ φ where
  table := s.table.step cap m
  done := s.done ++ (s.table.completed m).toList
  lost := s.lost ++ (s.table.lost cap m).toList

@[simp] theorem step_table (cap : ℕ) (s : Pairing κ σ φ) (m : Mark κ σ φ) :
    (s.step cap m).table = s.table.step cap m := rfl

@[simp] theorem step_done (cap : ℕ) (s : Pairing κ σ φ) (m : Mark κ σ φ) :
    (s.step cap m).done = s.done ++ (s.table.completed m).toList := rfl

@[simp] theorem step_lost (cap : ℕ) (s : Pairing κ σ φ) (m : Mark κ σ φ) :
    (s.step cap m).lost = s.lost ++ (s.table.lost cap m).toList := rfl

/-- A run of marks on an empty table. -/
def run (cap : ℕ) (marks : List (Mark κ σ φ)) : Pairing κ σ φ :=
  marks.foldl (step cap) ⟨∅, [], []⟩

@[simp] theorem run_concat (cap : ℕ) (marks : List (Mark κ σ φ)) (m : Mark κ σ φ) :
    run cap (marks ++ [m]) = (run cap marks).step cap m := by
  rw [run, List.foldl_append]
  rfl

end Pairing

/-! ## What the table holds -/

section Holds

variable {cap : ℕ} {t : PendingTable κ σ} {marks : List (Mark κ σ φ)} {m : Mark κ σ φ}

/-- The table never holds anything but the last start of a key. -/
def PendingTable.Sound (marks : List (Mark κ σ φ)) (t : PendingTable κ σ) : Prop :=
  ∀ ⦃key x⦄, t.lookup key = some x → awaiting marks key = some x

/-- It holds all of them. -/
def PendingTable.Exact (marks : List (Mark κ σ φ)) (t : PendingTable κ σ) : Prop :=
  ∀ key, t.lookup key = awaiting marks key

theorem PendingTable.lookup_begin (key' : κ) (key : κ) (x : σ) :
    (t.begin cap key x).lookup key' =
      if key' = key ∧ (key ∈ t ∨ t.entries.length < cap) then some x else t.lookup key' := by
  unfold begin
  by_cases hroom : key ∈ t ∨ t.entries.length < cap
  · rw [if_pos hroom]
    by_cases hkey : key' = key
    · subst hkey
      rw [if_pos ⟨rfl, hroom⟩, AList.lookup_insert]
    · rw [if_neg fun h ↦ hkey h.1, AList.lookup_insert_ne hkey]
  · rw [if_neg hroom, if_neg fun h ↦ hroom h.2]

theorem PendingTable.lookup_finish (key' key : κ) :
    (t.erase key).lookup key' = if key' = key then none else t.lookup key' := by
  by_cases hkey : key' = key
  · subst hkey
    rw [if_pos rfl, AList.lookup_erase]
  · rw [if_neg hkey, AList.lookup_erase_ne hkey]

theorem PendingTable.Sound.step (h : t.Sound marks) (m : Mark κ σ φ) :
    (t.step cap m).Sound (marks ++ [m]) := by
  intro key x hx
  cases m with
  | start key' x' =>
      rw [PendingTable.step, lookup_begin] at hx
      rw [awaiting_start]
      split_ifs at hx with hkey
      · rw [if_pos hkey.1]
        exact hx
      · by_cases hk : key = key'
        · -- there was no room for the key: it has no entry
          subst hk
          have hmem : key ∈ t := AList.lookup_isSome.mp (Option.isSome_iff_exists.mpr ⟨x, hx⟩)
          exact absurd ⟨rfl, .inl hmem⟩ hkey
        · rw [if_neg hk]
          exact h hx
  | finish key' y =>
      rw [PendingTable.step, lookup_finish] at hx
      rw [awaiting_finish]
      split_ifs at hx with hkey
      rw [if_neg hkey]
      exact h hx

theorem Pairing.sound (cap : ℕ) (marks : List (Mark κ σ φ)) :
    (run cap marks).table.Sound marks := by
  induction marks using List.reverseRecOn with
  | nil => nofun
  | append_singleton marks m ih =>
      rw [run_concat]
      exact ih.step m

/-- Whatever is lost, what is paired is paired rightly, and in order. -/
theorem Pairing.done_sublist (cap : ℕ) (marks : List (Mark κ σ φ)) :
    (run cap marks).done.Sublist (pairs marks) := by
  induction marks using List.reverseRecOn with
  | nil => exact .slnil
  | append_singleton marks m ih =>
      rw [run_concat, pairs_concat]
      refine ih.append ?_
      cases hp : (run cap marks).table.completed m with
      | none => exact List.nil_sublist _
      | some p =>
          obtain ⟨hl, -⟩ := Mark.completes_eq_some hp
          have hawait := Pairing.sound cap marks hl
          rw [PendingTable.completed, hl] at hp
          rw [hawait, hp]

/-! ## Enough room -/

/-- There are never more keys in flight than the table has room for. -/
def Fits (cap : ℕ) (marks : List (Mark κ σ φ)) : Prop :=
  ∀ before, before <+: marks → (openKeys before).card ≤ cap

theorem Fits.restrict {before : List (Mark κ σ φ)} (h : Fits cap marks) (hb : before <+: marks) :
    Fits cap before := fun _ hb' ↦ h _ (hb'.trans hb)

/-- A table always has room for a few marks. -/
theorem Fits.of_length (h : marks.length ≤ cap) : Fits cap marks := by
  intro before hb
  refine (Finset.card_filter_le _ _).trans ((List.toFinset_card_le _).trans ?_)
  rw [List.length_map]
  exact hb.length_le.trans h

theorem PendingTable.Exact.length_eq (h : t.Exact marks) :
    t.entries.length = (openKeys marks).card := by
  rw [← AList.card_keys]
  refine congrArg Finset.card (Finset.ext fun key ↦ ?_)
  rw [List.mem_toFinset, mem_openKeys, ← h key]
  exact AList.lookup_isSome.symm

/-- A start that is not among more keys than there is room for has room. -/
theorem PendingTable.Exact.room {key : κ} {x : σ} (h : t.Exact marks)
    (hfits : (openKeys (marks ++ [.start key x])).card ≤ cap) :
    key ∈ t ∨ t.entries.length < cap := by
  by_cases hkey : key ∈ t
  · exact .inl hkey
  · refine .inr ?_
    rw [h.length_eq]
    refine (Finset.card_lt_card ?_).trans_le hfits
    have hnone : key ∉ openKeys marks := fun hk ↦ by
      rw [mem_openKeys, ← h key] at hk
      exact hkey (AList.lookup_isSome.mp hk)
    refine (Finset.ssubset_iff_of_subset fun key' hk ↦ ?_).mpr ⟨key, ?_, hnone⟩
    · rw [mem_openKeys] at hk ⊢
      rw [awaiting_start]
      split_ifs
      · rfl
      · exact hk
    · rw [mem_openKeys, awaiting_start, if_pos rfl]
      rfl

theorem PendingTable.Exact.step (h : t.Exact marks)
    (hfits : (openKeys (marks ++ [m])).card ≤ cap) : (t.step cap m).Exact (marks ++ [m]) := by
  intro key
  cases m with
  | start key' x =>
      have hroom := h.room hfits
      rw [PendingTable.step, lookup_begin, awaiting_start, h key]
      exact if_congr (and_iff_left hroom) rfl rfl
  | finish key' y => rw [PendingTable.step, lookup_finish, awaiting_finish, h key]

theorem Pairing.exact (h : Fits cap marks) : (run cap marks).table.Exact marks := by
  induction marks using List.reverseRecOn with
  | nil => exact fun _ ↦ rfl
  | append_singleton marks m ih =>
      rw [run_concat]
      exact (ih (h.restrict (List.prefix_append _ _))).step (h _ (List.prefix_refl _))

/-- Where there is room, all are paired. -/
theorem Pairing.done_eq (h : Fits cap marks) : (run cap marks).done = pairs marks := by
  induction marks using List.reverseRecOn with
  | nil => rfl
  | append_singleton marks m ih =>
      have hbefore := h.restrict (List.prefix_append marks [m])
      rw [run_concat, pairs_concat, ← ih hbefore, ← Pairing.exact hbefore m.key]
      rfl

/-- What is lost has been replaced before it finished. -/
theorem Pairing.lost_eq_nil (h : Fits cap marks)
    (honce : ∀ before key x, before ++ [.start key x] <+: marks → awaiting before key = none) :
    (run cap marks).lost = [] := by
  induction marks using List.reverseRecOn with
  | nil => rfl
  | append_singleton marks m ih =>
      have hbefore := h.restrict (List.prefix_append marks [m])
      have hexact := Pairing.exact hbefore
      rw [run_concat, Pairing.step, ih hbefore fun before key x hb ↦
        honce before key x (hb.trans (List.prefix_append _ _)), List.nil_append]
      cases m with
      | start key x =>
          have hnone : (run cap marks).table.lookup key = none :=
            (hexact key).trans (honce marks key x (List.prefix_refl _))
          have hroom := hexact.room (h _ (List.prefix_refl _))
          have hkey : key ∉ (run cap marks).table := AList.lookup_eq_none.mp hnone
          rw [PendingTable.lost, hnone]
          dsimp only
          rw [if_pos (hroom.resolve_left hkey)]
          rfl
      | finish key y => rfl

theorem mem_starts_of_awaiting {key : κ} {x : σ} (h : awaiting marks key = some x) :
    (key, x) ∈ starts marks := by
  obtain ⟨since, ⟨before, rfl⟩, -, -⟩ := awaiting_eq_some_iff.mp h
  simp [starts, Mark.opens, Mark.key]

/-- The start of a pair is one of the starts. -/
theorem mem_starts_of_mem_pairs {p : Pair κ σ φ} (h : p ∈ pairs marks) :
    (p.key, p.started) ∈ starts marks := by
  obtain ⟨before, after, rfl, hawait⟩ := mem_pairs.mp h
  rw [starts, List.filterMap_append]
  exact List.mem_append_left _ (mem_starts_of_awaiting hawait)

/-- A key that starts only once is not awaited before. -/
theorem awaiting_of_nodup (h : ((starts marks).map Prod.fst).Nodup) {before : List (Mark κ σ φ)}
    {key : κ} {x : σ} (hb : before ++ [.start key x] <+: marks) : awaiting before key = none := by
  obtain ⟨after, rfl⟩ := hb
  refine Option.eq_none_iff_forall_ne_some.mpr fun x' hx' ↦ ?_
  have hmem := List.mem_map_of_mem (f := Prod.fst) (mem_starts_of_awaiting hx')
  have hnodup : ((starts before).map Prod.fst ++ key :: (starts after).map Prod.fst).Nodup := by
    simpa [starts, Mark.opens, Mark.key] using h
  exact (List.nodup_append.mp hnodup).2.2 _ hmem _ (.head _) rfl

/-! ## Marks among other events -/

section Events

variable {α : Type*} {mark : α → Option (Mark κ σ φ)}

omit [DecidableEq κ] in
theorem filterMap_mark_concat (ops : List α) (op : α) :
    (ops ++ [op]).filterMap mark = ops.filterMap mark ++ (mark op).toList := by
  rw [List.filterMap_append]
  cases hm : mark op <;> simp [hm]

/-- What the events complete that are marks, the table pairs. -/
theorem Pairing.outputs_done (cap : ℕ) (mark : α → Option (Mark κ σ φ)) (ops : List α) :
    outputs (fun before op ↦
      ((mark op).bind (run cap (before.filterMap mark)).table.completed).toList) ops =
      (run cap (ops.filterMap mark)).done := by
  induction ops using List.reverseRecOn with
  | nil => rfl
  | append_singleton ops op ih =>
      rw [outputs_concat, ih, filterMap_mark_concat]
      cases mark op with
      | none => simp
      | some m => rw [Option.toList_some, Pairing.run_concat, Pairing.step_done, Option.bind_some]

theorem outputs_pairs (mark : α → Option (Mark κ σ φ)) (ops : List α) :
    outputs (fun before op ↦
      ((mark op).bind fun m ↦ m.completes (awaiting (before.filterMap mark) m.key)).toList) ops =
      pairs (ops.filterMap mark) := by
  induction ops using List.reverseRecOn with
  | nil => rfl
  | append_singleton ops op ih =>
      rw [outputs_concat, ih, filterMap_mark_concat]
      cases mark op with
      | none => simp
      | some m => exact (pairs_concat _ m).symm

/-- A pair ends with an event that is the finish of its key; the key awaited it. -/
theorem mem_pairs_events {ops : List α} {p : Pair κ σ φ} (h : p ∈ pairs (ops.filterMap mark)) :
    ∃ before op after, ops = before ++ op :: after ∧ mark op = some (.finish p.key p.finished) ∧
      awaiting (before.filterMap mark) p.key = some p.started := by
  rw [← outputs_pairs, mem_outputs] at h
  obtain ⟨before, op, after, hsplit, hone⟩ := h
  obtain ⟨m, hm, hcomp⟩ := Option.bind_eq_some_iff.mp (Option.mem_toList.mp hone)
  obtain ⟨hawait, rfl⟩ := Mark.completes_eq_some hcomp
  exact ⟨before, op, after, hsplit, hm, hawait⟩

/-- What a key awaits, an event has started. -/
theorem exists_start_of_awaiting {ops : List α} {key : κ} {x : σ}
    (h : awaiting (ops.filterMap mark) key = some x) : ∃ op ∈ ops, mark op = some (.start key x) := by
  obtain ⟨since, ⟨before, hsplit⟩, -, -⟩ := awaiting_eq_some_iff.mp h
  have hmem : (.start key x : Mark κ σ φ) ∈ ops.filterMap mark := by
    rw [hsplit]
    simp
  exact List.mem_filterMap.mp hmem

end Events

end Holds

/-! ## What becomes of a start -/

section Account

variable {cap : ℕ} {t : PendingTable κ σ}

/-- The weights of a list of starts. -/
def weight (w : κ × σ → ℕ) (l : List (κ × σ)) : ℕ := (l.map w).sum

/-- What a table holds. -/
def PendingTable.held (t : PendingTable κ σ) : List (κ × σ) := t.entries.map fun e ↦ (e.1, e.2)

/-- The start of a pair. -/
def Pair.opening (p : Pair κ σ φ) : κ × σ := (p.key, p.started)

omit [DecidableEq κ] in
@[simp] theorem weight_append (w : κ × σ → ℕ) (l l' : List (κ × σ)) :
    weight w (l ++ l') = weight w l + weight w l' := by
  simp [weight]

omit [DecidableEq κ] in
@[simp] theorem weight_nil (w : κ × σ → ℕ) : weight w [] = 0 := rfl

omit [DecidableEq κ] in
@[simp] theorem weight_cons (w : κ × σ → ℕ) (p : κ × σ) (l : List (κ × σ)) :
    weight w (p :: l) = w p + weight w l := rfl

namespace PendingTable

theorem weight_erase (w : κ × σ → ℕ) {key : κ} {x : σ} (h : t.lookup key = some x) :
    weight w t.held = w (key, x) + weight w (held (t.erase key)) := by
  have hkey : key ∈ t.entries.keys := AList.lookup_isSome.mp (Option.isSome_iff_exists.mpr ⟨x, h⟩)
  obtain ⟨x', l, l', hl, hsplit, herase⟩ := List.exists_of_kerase hkey
  have hx : x' = x := by
    have hmem : (⟨key, x'⟩ : Sigma fun _ : κ ↦ σ) ∈ t.entries := by
      rw [hsplit]
      simp
    exact Option.some.inj ((AList.mem_lookup_iff.mpr hmem).symm.trans h)
  subst hx
  have hrest : (t.erase key).entries = l ++ l' := herase
  rw [held, held, hrest, hsplit, List.map_append, List.map_append, List.map_cons]
  simp only [weight_append, weight_cons]
  omega

theorem erase_of_lookup {key : κ} (h : t.lookup key = none) : t.erase key = t := by
  have hkey : key ∉ t.entries.keys := AList.lookup_eq_none.mp h
  exact AList.ext (List.kerase_of_notMem_keys hkey)

theorem weight_insert (w : κ × σ → ℕ) (key : κ) (x : σ) :
    weight w (held (t.insert key x)) = w (key, x) + weight w (held (t.erase key)) := rfl

theorem weight_begin (w : κ × σ → ℕ) (cap : ℕ) (key : κ) (x : σ) :
    w (key, x) + weight w t.held = weight w (held (t.begin cap key x)) +
      weight w (t.lost cap (.start key x : Mark κ σ φ)).toList := by
  cases hl : t.lookup key with
  | some x' =>
      -- the start takes the place of another
      have hkey : key ∈ t := AList.lookup_isSome.mp (Option.isSome_iff_exists.mpr ⟨x', hl⟩)
      rw [begin, if_pos (.inl hkey), weight_insert, weight_erase w hl, lost, hl]
      simp only [Option.toList, weight_cons, weight_nil]
      omega
  | none =>
      have hkey : key ∉ t := AList.lookup_eq_none.mp hl
      rw [begin, lost, hl]
      dsimp only
      by_cases hroom : t.entries.length < cap
      · rw [if_pos (.inr hroom), if_pos hroom, weight_insert, erase_of_lookup hl]
        rfl
      · rw [if_neg (not_or.mpr ⟨hkey, hroom⟩), if_neg hroom, add_comm]
        rfl

theorem weight_finish (w : κ × σ → ℕ) (key : κ) (y : φ) :
    weight w t.held = weight w ((t.completed (.finish key y)).toList.map Pair.opening) +
      weight w (held (t.erase key)) := by
  rw [completed, Mark.key]
  cases hl : t.lookup key with
  | some x => exact weight_erase w hl
  | none =>
      rw [erase_of_lookup hl]
      exact (Nat.zero_add _).symm

end PendingTable

/-- Each start has been paired, is in the table, or is lost. -/
theorem Pairing.account (w : κ × σ → ℕ) (cap : ℕ) (marks : List (Mark κ σ φ)) :
    weight w (starts marks) = weight w ((run cap marks).done.map Pair.opening) +
      weight w (run cap marks).table.held + weight w (run cap marks).lost := by
  induction marks using List.reverseRecOn with
  | nil => rfl
  | append_singleton marks m ih =>
      rw [run_concat, step_table, step_done, step_lost, List.map_append, weight_append,
        weight_append, starts_concat, weight_append, ih]
      generalize run cap marks = s
      cases m with
      | start key x =>
          have hw := s.table.weight_begin (φ := φ) w cap key x
          change _ + (w (key, x) + 0) = _ + 0 + weight w (PendingTable.held (s.table.begin cap key x)) + _
          omega
      | finish key y =>
          have hw := s.table.weight_finish w key y
          change _ + 0 = _ + weight w (PendingTable.held (s.table.erase key)) + (_ + 0)
          omega

end Account
