import Mathlib

/-!
# Histories

A history is a list of events, the oldest first, and grows at its end.  What is said about it here
is where an event of some kind happened last, and what has happened since.
-/

variable {α : Type*} {h before after : List α} {e x : α} {p : α → Prop}

/-- An event of a history that has grown is the new one, or one of those before. -/
theorem concat_eq_split_iff : h ++ [x] = before ++ e :: after ↔
    (before = h ∧ e = x ∧ after = []) ∨
      ∃ after', after = after' ++ [x] ∧ h = before ++ e :: after' := by
  rcases List.eq_nil_or_concat after with rfl | ⟨after', y, rfl⟩
  · constructor
    · intro heq
      obtain ⟨hb, he⟩ := List.append_inj' heq rfl
      exact .inl ⟨hb.symm, (List.cons.inj he).1.symm, rfl⟩
    · rintro (⟨rfl, rfl, -⟩ | ⟨after', hnil, -⟩)
      · rfl
      · simp at hnil
  · rw [List.concat_eq_append]
    constructor
    · intro heq
      rw [← List.cons_append, ← List.append_assoc] at heq
      obtain ⟨hb, hy⟩ := List.append_inj' heq rfl
      exact .inr ⟨after', by rw [(List.cons.inj hy).1], hb⟩
    · rintro (⟨-, -, hnil⟩ | ⟨after'', heq, rfl⟩)
      · simp at hnil
      · rw [heq]
        simp

/-- The last event of a kind, and what has happened since. -/
structure LastOf (p : α → Prop) (h : List α) (e : α) (after : List α) : Prop where
  split : ∃ before, h = before ++ e :: after
  last : p e
  since : ∀ x ∈ after, ¬ p x

namespace LastOf

theorem concat_of_pos (hx : p x) : LastOf p (h ++ [x]) e after ↔ e = x ∧ after = [] := by
  constructor
  · rintro ⟨⟨before, hsplit⟩, -, hsince⟩
    rcases concat_eq_split_iff.mp hsplit with ⟨-, rfl, rfl⟩ | ⟨after', rfl, -⟩
    · exact ⟨rfl, rfl⟩
    · exact absurd hx (hsince x (by simp))
  · rintro ⟨rfl, rfl⟩
    exact ⟨⟨h, rfl⟩, hx, by simp⟩

theorem concat_of_neg (hx : ¬ p x) : LastOf p (h ++ [x]) e after ↔
    ∃ after', after = after' ++ [x] ∧ LastOf p h e after' := by
  constructor
  · rintro ⟨⟨before, hsplit⟩, hlast, hsince⟩
    rcases concat_eq_split_iff.mp hsplit with ⟨-, rfl, -⟩ | ⟨after', rfl, hbefore⟩
    · exact absurd hlast hx
    · exact ⟨after', rfl, ⟨before, hbefore⟩, hlast, fun y hy ↦ hsince y (List.mem_append_left _ hy)⟩
  · rintro ⟨after', rfl, ⟨before, rfl⟩, hlast, hsince⟩
    refine ⟨⟨before, by simp⟩, hlast, fun y hy ↦ ?_⟩
    rcases List.mem_append.mp hy with hy | hy
    · exact hsince y hy
    · rwa [List.mem_singleton.mp hy]

theorem not_nil : ¬ LastOf p [] e after := by
  rintro ⟨⟨before, hsplit⟩, -⟩
  simp at hsplit

/-- There is only one last event. -/
theorem unique {e' : α} {after' : List α} (hl : LastOf p h e after) (hl' : LastOf p h e' after') :
    e' = e ∧ after' = after := by
  induction h using List.reverseRecOn generalizing after after' with
  | nil => exact absurd hl not_nil
  | append_singleton h x ih =>
      by_cases hx : p x
      · obtain ⟨rfl, rfl⟩ := (concat_of_pos hx).mp hl
        exact (concat_of_pos hx).mp hl'
      · obtain ⟨a, rfl, ha⟩ := (concat_of_neg hx).mp hl
        obtain ⟨a', rfl, ha'⟩ := (concat_of_neg hx).mp hl'
        obtain ⟨he, rfl⟩ := ih ha ha'
        exact ⟨he, rfl⟩

end LastOf

/-! ## What a history puts out -/

section Outputs

variable {β : Type*} {f : List α → α → List β}

/-- What each of some events puts out, given the events before it. -/
def outputsAfter (f : List α → α → List β) : List α → List α → List β
  | _, [] => []
  | before, x :: xs => f before x ++ outputsAfter f (before ++ [x]) xs

/-- What a history puts out. -/
def outputs (f : List α → α → List β) (h : List α) : List β := outputsAfter f [] h

theorem outputsAfter_concat (before h : List α) (x : α) :
    outputsAfter f before (h ++ [x]) = outputsAfter f before h ++ f (before ++ h) x := by
  induction h generalizing before with
  | nil => simp [outputsAfter]
  | cons y h ih => simp [outputsAfter, ih]

theorem outputs_concat (h : List α) (x : α) : outputs f (h ++ [x]) = outputs f h ++ f h x :=
  outputsAfter_concat [] h x

theorem map_outputs {γ : Type*} (g : β → γ) (h : List α) :
    (outputs f h).map g = outputs (fun before x ↦ (f before x).map g) h := by
  induction h using List.reverseRecOn with
  | nil => rfl
  | append_singleton h x ih => rw [outputs_concat, outputs_concat, List.map_append, ih]

/-- What is put out, some event puts out where it stands. -/
theorem mem_outputs {b : β} : b ∈ outputs f h ↔
    ∃ before x after, h = before ++ x :: after ∧ b ∈ f before x := by
  induction h using List.reverseRecOn with
  | nil =>
      constructor
      · nofun
      · rintro ⟨before, x, after, heq, -⟩
        simp at heq
  | append_singleton h y ih =>
      rw [outputs_concat, List.mem_append, ih]
      constructor
      · rintro (⟨before, x, after, rfl, hb⟩ | hb)
        · exact ⟨before, x, after ++ [y], by simp, hb⟩
        · exact ⟨h, y, [], rfl, hb⟩
      · rintro ⟨before, x, after, heq, hb⟩
        rcases concat_eq_split_iff.mp heq with ⟨rfl, rfl, -⟩ | ⟨after', -, hsplit⟩
        · exact .inr hb
        · exact .inl ⟨before, x, after', hsplit, hb⟩

/-- What has been put out since the last reset. -/
def outputsSince (reset : α → Bool) (f : List α → α → List β) (h : List α) : List β :=
  (h.foldl (fun s x ↦ (s.1 ++ [x], if reset x then [] else s.2 ++ f s.1 x)) ([], [])).2

theorem outputsSince_concat (reset : α → Bool) (h : List α) (x : α) :
    outputsSince reset f (h ++ [x]) =
      if reset x then [] else outputsSince reset f h ++ f h x := by
  have hbefore : ∀ h : List α, (h.foldl (fun (s : List α × List β) x ↦
      (s.1 ++ [x], if reset x then [] else s.2 ++ f s.1 x)) ([], [])).1 = h := fun h ↦ by
    induction h using List.reverseRecOn with
    | nil => rfl
    | append_singleton h x ih =>
        rw [List.foldl_append]
        exact congrArg (· ++ [x]) ih
  rw [outputsSince, List.foldl_append]
  exact congrArg (fun b ↦ if reset x then [] else outputsSince reset f h ++ f b x) (hbefore h)

theorem outputsSince_sublist (reset : α → Bool) (f : List α → α → List β) (h : List α) :
    (outputsSince reset f h).Sublist (outputs f h) := by
  induction h using List.reverseRecOn with
  | nil => exact .slnil
  | append_singleton h x ih =>
      rw [outputsSince_concat, outputs_concat]
      split_ifs
      · exact List.nil_sublist _
      · exact ih.append (List.Sublist.refl _)

end Outputs
