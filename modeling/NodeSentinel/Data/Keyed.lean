import Mathlib

/-!
# Rows with keys

What a fold over rows does to what belongs to one key, where the keys are different.  The rows of a
list whose key no earlier row has, as a loop with a set of the keys it has met keeps them.  Then a
list that is written part after part, each part with tags that are its own: what holds of the tags
of every part holds of the whole list, and a part can be read off it.
-/

variable {α β κ δ ι : Type*}

/-! ## Folds -/

section Folds

variable {step : β → α → β} {key : α → κ} {P Q : β → Prop} {l : List α}

/-- What steps of other keys keep, a fold without the key keeps. -/
theorem foldl_of_notMem {k : κ} (hP : ∀ b a, k ≠ key a → P b → P (step b a))
    (hk : k ∉ l.map key) {b : β} (h : P b) : P (l.foldl step b) := by
  induction l generalizing b with
  | nil => exact h
  | cons a l ih =>
      rw [List.map_cons, List.mem_cons, not_or] at hk
      exact ih hk.2 (hP b a hk.1 h)

/-- What the one step of a key brings about, steps of other keys keeping it, holds in the end. -/
theorem foldl_of_mem {a : α} (hP : ∀ b a', key a ≠ key a' → P b → P (step b a'))
    (hQ : ∀ b a', key a ≠ key a' → Q b → Q (step b a')) (own : ∀ b, P b → Q (step b a))
    (hnd : (l.map key).Nodup) (ha : a ∈ l) {b : β} (h : P b) : Q (l.foldl step b) := by
  induction l generalizing b with
  | nil => cases ha
  | cons a' l ih =>
      obtain ⟨hnew, hnd⟩ := List.nodup_cons.mp hnd
      rw [List.foldl_cons]
      rcases List.mem_cons.mp ha with rfl | ha
      · exact foldl_of_notMem hQ hnew (own b h)
      · refine ih hnd ha (hP b a' (fun he ↦ hnew ?_) h)
        exact he ▸ List.mem_map_of_mem ha

end Folds

/-! ## First rows -/

section Firsts

variable [DecidableEq κ] (key : α → κ)

/-- The rows whose key has not been met, `seen` being the keys met so far. -/
def firsts : List κ → List α → List α
  | _, [] => []
  | seen, a :: l =>
    if key a ∈ seen then firsts seen l else a :: firsts (key a :: seen) l

variable {key} {seen : List κ} {l : List α}

theorem firsts_cons_of_mem {a : α} (h : key a ∈ seen) :
    firsts key seen (a :: l) = firsts key seen l := if_pos h

theorem firsts_cons_of_notMem {a : α} (h : key a ∉ seen) :
    firsts key seen (a :: l) = a :: firsts key (key a :: seen) l := if_neg h

/-- A key that was met does not come again. -/
theorem notMem_of_mem_firsts {a : α} (ha : a ∈ firsts key seen l) : key a ∉ seen := by
  induction l generalizing seen with
  | nil => exact absurd ha List.not_mem_nil
  | cons b l ih =>
      by_cases hb : key b ∈ seen
      · rw [firsts_cons_of_mem hb] at ha
        exact ih ha
      · rw [firsts_cons_of_notMem hb] at ha
        rcases List.mem_cons.mp ha with rfl | ha
        · exact hb
        · exact fun h ↦ ih ha (.tail _ h)

theorem nodup_map_firsts : ((firsts key seen l).map key).Nodup := by
  induction l generalizing seen with
  | nil => exact List.nodup_nil
  | cons b l ih =>
      by_cases hb : key b ∈ seen
      · rw [firsts_cons_of_mem hb]
        exact ih
      · rw [firsts_cons_of_notMem hb, List.map_cons, List.nodup_cons]
        refine ⟨?_, ih⟩
        rw [List.mem_map]
        rintro ⟨a, ha, he⟩
        apply notMem_of_mem_firsts ha
        rw [he]
        exact .head seen

/-- The row that is kept for a key is the first one that has it. -/
theorem filter_firsts {k : κ} (hk : k ∉ seen) :
    (firsts key seen l).filter (key · = k) = (l.find? (key · = k)).toList := by
  induction l generalizing seen with
  | nil => rfl
  | cons b l ih =>
      by_cases hb : key b ∈ seen
      · have hne : key b ≠ k := fun h ↦ hk (h ▸ hb)
        rw [firsts_cons_of_mem hb, List.find?_cons_of_neg (by simpa using hne)]
        exact ih hk
      · rw [firsts_cons_of_notMem hb]
        by_cases hbk : key b = k
        · rw [List.filter_cons_of_pos (by simpa using hbk),
            List.find?_cons_of_pos (by simpa using hbk), Option.toList_some]
          congr 1
          rw [List.filter_eq_nil_iff]
          intro a ha he
          exact notMem_of_mem_firsts ha (by simp [of_decide_eq_true he, hbk])
        · rw [List.filter_cons_of_neg (by simpa using hbk),
            List.find?_cons_of_neg (by simpa using hbk)]
          exact ih (by simp [hk, Ne.symm hbk])

end Firsts

/-! ## Items that carry the key of their row -/

section Rows

variable {key : α → κ} {items : α → List ι} {label : ι → κ} {l : List α}

/-- Items are apart when their rows have different keys, or they do within their row. -/
theorem nodup_flatMap_items (hl : (l.map key).Nodup) (hlabel : ∀ a, ∀ i ∈ items a, label i = key a)
    {tag : ι → δ} (htag : ∀ a, ((items a).map tag).Nodup) :
    ((l.flatMap items).map fun i ↦ (tag i, label i)).Nodup := by
  rw [List.map_flatMap, List.nodup_flatMap]
  constructor
  · intro a _
    apply List.Nodup.of_map Prod.fst
    rw [List.map_map]
    exact htag a
  · refine (List.pairwise_map.mp hl).imp fun {a b} hab x hxa hxb ↦ ?_
    obtain ⟨i, hi, rfl⟩ := List.mem_map.mp hxa
    obtain ⟨j, hj, he⟩ := List.mem_map.mp hxb
    apply hab
    rw [← hlabel a i hi, ← hlabel b j hj]
    exact (congrArg Prod.snd he).symm

/-- The items with the label of a key are those of the rows with that key. -/
theorem filter_flatMap_items [DecidableEq κ] (hlabel : ∀ a, ∀ i ∈ items a, label i = key a)
    (k : κ) :
    (l.flatMap items).filter (label · = k) = (l.filter (key · = k)).flatMap items := by
  induction l with
  | nil => rfl
  | cons a l ih =>
      rw [List.flatMap_cons, List.filter_append, ih]
      by_cases ha : key a = k
      · rw [List.filter_cons_of_pos (by simpa using ha), List.flatMap_cons,
          List.filter_eq_self.mpr]
        intro i hi
        simpa [hlabel a i hi] using ha
      · rw [List.filter_cons_of_neg (by simpa using ha), List.filter_eq_nil_iff.mpr,
          List.nil_append]
        intro i hi
        simpa [hlabel a i hi] using ha

end Rows

/-! ## Parts -/

/-- Every part has only items with its own tags, and no two parts share one. -/
structure Parts (tag : ι → δ) (parts : List (List δ × List ι)) : Prop where
  own : ∀ part ∈ parts, ∀ i ∈ part.2, tag i ∈ part.1
  nodup : (parts.flatMap Prod.fst).Nodup

namespace Parts

variable {tag : ι → δ} {part : List δ × List ι} {parts : List (List δ × List ι)}

theorem tail (h : Parts tag (part :: parts)) : Parts tag parts where
  own p hp := h.own p (.tail _ hp)
  nodup := by
    have hn := h.nodup
    rw [List.flatMap_cons] at hn
    exact hn.of_append_right

/-- A tag of the first part is no tag of a later one. -/
theorem notMem_of_mem_head (h : Parts tag (part :: parts)) {d : δ} (hd : d ∈ part.1)
    {p : List δ × List ι} (hp : p ∈ parts) : d ∉ p.1 := by
  intro hdp
  have hn := h.nodup
  rw [List.flatMap_cons] at hn
  exact List.disjoint_of_nodup_append hn hd (List.mem_flatMap.mpr ⟨p, hp, hdp⟩)

theorem mem_tags (h : Parts tag parts) {i : ι} (hi : i ∈ parts.flatMap Prod.snd) :
    tag i ∈ parts.flatMap Prod.fst := by
  obtain ⟨p, hp, hi⟩ := List.mem_flatMap.mp hi
  exact List.mem_flatMap.mpr ⟨p, hp, h.own p hp i hi⟩

theorem nodup_tags (h : Parts tag parts) (hpart : part ∈ parts) : part.1.Nodup :=
  (List.nodup_flatMap.mp h.nodup).1 part hpart

/-- Items that are told apart within each part are told apart in the whole list. -/
theorem nodup_map (h : Parts tag parts) {f : ι → β} (hf : ∀ i j, f i = f j → tag i = tag j)
    (hn : ∀ p ∈ parts, (p.2.map f).Nodup) : ((parts.flatMap Prod.snd).map f).Nodup := by
  induction parts with
  | nil => exact List.nodup_nil
  | cons part parts ih =>
      rw [List.flatMap_cons, List.map_append]
      refine (hn part (.head _)).append (ih h.tail fun p hp ↦ hn p (.tail _ hp)) ?_
      intro x hx hx'
      obtain ⟨i, hi, rfl⟩ := List.mem_map.mp hx
      obtain ⟨j, hj, he⟩ := List.mem_map.mp hx'
      obtain ⟨p, hp, hjp⟩ := List.mem_flatMap.mp hj
      have htag : tag j ∈ p.1 := h.own p (.tail _ hp) j hjp
      rw [hf j i he] at htag
      exact h.notMem_of_mem_head (h.own part (.head _) i hi) hp htag

/-- The items with the tags of one part are the items of that part. -/
theorem filter_part [DecidableEq δ] (h : Parts tag parts) (hpart : part ∈ parts) :
    (parts.flatMap Prod.snd).filter (tag · ∈ part.1) = part.2 := by
  induction parts with
  | nil => exact absurd hpart List.not_mem_nil
  | cons p parts ih =>
      rw [List.flatMap_cons, List.filter_append]
      rcases List.mem_cons.mp hpart with rfl | hpart
      · rw [List.filter_eq_self.mpr, List.filter_eq_nil_iff.mpr, List.append_nil]
        · intro i hi hd
          obtain ⟨q, hq, hiq⟩ := List.mem_flatMap.mp hi
          exact h.notMem_of_mem_head (of_decide_eq_true hd) hq (h.own q (.tail _ hq) i hiq)
        · intro i hi
          exact decide_eq_true (h.own part (.head _) i hi)
      · rw [ih h.tail hpart, List.filter_eq_nil_iff.mpr, List.nil_append]
        intro i hi hd
        exact h.notMem_of_mem_head (h.own p (.head _) i hi) hpart (of_decide_eq_true hd)

end Parts
