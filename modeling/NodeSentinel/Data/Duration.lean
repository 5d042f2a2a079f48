import Mathlib

/-!
# Durations in text

`time.ParseDuration`: a possibly signed sequence of decimal numbers, each with an optional
fraction and a unit, such as `"300ms"`, `"-1.5h"` or `"2h45m"`.  Sums are `uint64`.  A
fraction of a unit is rounded down exactly, where Go goes through a `float64`.
-/

/-- The value of a digit. -/
def digitValue (c : Char) : ℕ := c.toNat - '0'.toNat

/-- `unitMap`: a unit in nanoseconds. -/
def durationUnit (u : List Char) : Option ℕ :=
  if u = ['n', 's'] then some 1
  else if u = ['u', 's'] ∨ u = ['µ', 's'] ∨ u = ['μ', 's'] then some 1000
  else if u = ['m', 's'] then some 1000000
  else if u = ['s'] then some 1000000000
  else if u = ['m'] then some 60000000000
  else if u = ['h'] then some 3600000000000
  else none

/-- `leadingInt`: the number at the start, unless it overflows, and what is after it. -/
def leadingInt (x : ℕ) : List Char → Option (ℕ × List Char)
  | [] => some (x, [])
  | c :: s =>
      if !c.isDigit then some (x, c :: s)
      else if x > 2 ^ 63 / 10 then none
      else
        let x := x * 10 + digitValue c
        if x > 2 ^ 63 then none else leadingInt x s

/-- `leadingFraction`: the digits at the start, as a number and its power of ten; digits
that overflow are dropped. -/
def leadingFraction (x scale : ℕ) (overflow : Bool) : List Char → ℕ × ℕ × List Char
  | [] => (x, scale, [])
  | c :: s =>
      if !c.isDigit then (x, scale, c :: s)
      else if overflow || x > (2 ^ 63 - 1) / 10 then leadingFraction x scale true s
      else
        let y := x * 10 + digitValue c
        if y > 2 ^ 63 then leadingFraction x scale true s
        else leadingFraction y (scale * 10) false s

/-- The fraction after the number, where there is a point: its digits, their power of ten,
whether there are any, and what is after them. -/
def fractionPart : List Char → ℕ × ℕ × Bool × List Char
  | '.' :: s =>
      let (f, scale, rest) := leadingFraction 0 1 false s
      (f, scale, rest.length != s.length, rest)
  | s => (0, 1, false, s)

/-- Whether a character ends a unit. -/
def endsUnit (c : Char) : Bool := c == '.' || c.isDigit

/-- One number with its unit: its value, and what is after it. -/
def durationTerm (s : List Char) : Option (ℕ × List Char) := do
  let (v, rest) ← leadingInt 0 s
  let pre := rest.length != s.length
  let (f, scale, post, rest) := fractionPart rest
  if !pre && !post then none
  else
    let u := rest.takeWhile fun c ↦ !endsUnit c
    let rest := rest.dropWhile fun c ↦ !endsUnit c
    if u = [] then none
    else
      let unit ← durationUnit u
      if v > 2 ^ 63 / unit then none
      else
        let v := v * unit + f * unit / scale
        if v > 2 ^ 63 then none else some (v, rest)

theorem leadingInt_length {x v : ℕ} {s rest : List Char} (h : leadingInt x s = some (v, rest)) :
    rest.length ≤ s.length := by
  induction s generalizing x with
  | nil =>
      obtain ⟨rfl, rfl⟩ := Prod.mk.inj (Option.some.inj h)
      exact le_rfl
  | cons c s ih =>
      unfold leadingInt at h
      split at h
      · obtain ⟨rfl, rfl⟩ := Prod.mk.inj (Option.some.inj h)
        exact le_rfl
      · split at h
        · cases h
        · dsimp only at h
          split at h
          · cases h
          · exact (ih h).trans (Nat.le_succ _)

theorem leadingFraction_length (x scale : ℕ) (overflow : Bool) (s : List Char) :
    (leadingFraction x scale overflow s).2.2.length ≤ s.length := by
  induction s generalizing x scale overflow with
  | nil => exact le_rfl
  | cons c s ih =>
      unfold leadingFraction
      split
      · exact le_rfl
      · split
        · exact (ih ..).trans (Nat.le_succ _)
        · dsimp only
          split <;> exact (ih ..).trans (Nat.le_succ _)

theorem fractionPart_length (s : List Char) : (fractionPart s).2.2.2.length ≤ s.length := by
  unfold fractionPart
  split
  · exact (leadingFraction_length ..).trans (Nat.le_succ _)
  · exact le_rfl

/-- A number and its unit take up some of the text. -/
theorem durationTerm_length {v : ℕ} {s rest : List Char} (h : durationTerm s = some (v, rest)) :
    rest.length < s.length := by
  obtain ⟨⟨n, s₁⟩, hint, h⟩ := Option.bind_eq_some_iff.mp h
  dsimp only at h
  have hfrac := fractionPart_length s₁
  generalize fractionPart s₁ = r at h hfrac
  obtain ⟨f, scale, post, s₂⟩ := r
  dsimp only at h hfrac
  split at h
  · cases h
  · split at h
    · cases h
    · next hu =>
        obtain ⟨unit, -, h⟩ := Option.bind_eq_some_iff.mp h
        split at h
        · cases h
        · split at h
          · cases h
          · obtain ⟨-, rfl⟩ := Prod.mk.inj (Option.some.inj h)
            have hsplit := congrArg List.length
              (List.takeWhile_append_dropWhile (p := fun c ↦ !endsUnit c) (l := s₂))
            have hpos := List.length_pos_iff.mpr hu
            have hle := leadingInt_length hint
            rw [List.length_append] at hsplit
            omega

/-- The loop of `ParseDuration`. -/
def durationSum (d : ℕ) (s : List Char) : Option ℕ :=
  if s = [] then some d
  else
    match h : durationTerm s with
    | none => none
    | some (v, rest) =>
        let d := (d + v) % 2 ^ 64
        if d > 2 ^ 63 then none else durationSum d rest
termination_by s.length
decreasing_by exact durationTerm_length h

/-- `time.ParseDuration`, in nanoseconds; `none` is an error. -/
def parseDuration (text : String) : Option ℤ :=
  let (neg, s) := match text.toList with
    | '-' :: s => (true, s)
    | '+' :: s => (false, s)
    | s => (false, s)
  if s = ['0'] then some 0
  else if s = [] then none
  else do
    let d ← durationSum 0 s
    if neg then some (-d)
    else if d > 2 ^ 63 - 1 then none
    else some d

section

variable {d d' v : ℕ} {s rest : List Char}

@[simp] theorem durationSum_nil : durationSum d [] = some d := by
  rw [durationSum, if_pos rfl]

theorem durationSum_of_none (hs : s ≠ []) (h : durationTerm s = none) : durationSum d s = none := by
  rw [durationSum, if_neg hs]
  split
  · rfl
  · next hsome => cases h.symm.trans hsome

theorem durationSum_of_some (h : durationTerm s = some (v, rest)) : durationSum d s =
    if (d + v) % 2 ^ 64 > 2 ^ 63 then none else durationSum ((d + v) % 2 ^ 64) rest := by
  have hs : s ≠ [] := by
    rintro rfl
    cases durationTerm_length h
  rw [durationSum, if_neg hs]
  split
  · next hnone => cases h.symm.trans hnone
  · next hsome =>
      obtain ⟨rfl, rfl⟩ := Prod.mk.inj (Option.some.inj (h.symm.trans hsome))
      rfl

/-- The sum stays within what the loop checks. -/
theorem durationSum_le (hd : d ≤ 2 ^ 63) (h : durationSum d s = some d') : d' ≤ 2 ^ 63 := by
  induction hn : s.length using Nat.strong_induction_on generalizing d s with
  | _ n ih =>
      by_cases hs : s = []
      · subst hs
        rw [durationSum_nil, Option.some.injEq] at h
        exact h ▸ hd
      · cases ht : durationTerm s with
        | none => simp [durationSum_of_none hs ht] at h
        | some r =>
            obtain ⟨v, rest⟩ := r
            rw [durationSum_of_some ht] at h
            split at h
            · cases h
            · next hle => exact ih _ (hn ▸ durationTerm_length ht) (not_lt.mp hle) h rfl

/-- What is read fits in a `time.Duration`. -/
theorem parseDuration_bounds {text : String} {t : ℤ} (h : parseDuration text = some t) :
    -2 ^ 63 ≤ t ∧ t < 2 ^ 63 := by
  unfold parseDuration at h
  generalize (match text.toList with
    | '-' :: s => (true, s)
    | '+' :: s => (false, s)
    | s => (false, s)) = r at h
  obtain ⟨neg, s⟩ := r
  dsimp only at h
  split at h
  · obtain rfl := Option.some.inj h
    decide
  · split at h
    · cases h
    · obtain ⟨d, hd, h⟩ := Option.bind_eq_some_iff.mp h
      have hle := durationSum_le (Nat.zero_le _) hd
      split at h
      · obtain rfl := Option.some.inj h
        omega
      · split at h
        · cases h
        · obtain rfl := Option.some.inj h
          omega

end
