import Mathlib

/-!
# Lines of text

What Go reads text with: `strings.TrimSpace`, `strings.Cut`, `strconv.ParseUint`, and a
`bufio.Scanner` that splits lines.  Text is a list of characters.
-/

/-! ## Trimming -/

/-- `unicode.IsSpace`. -/
def isSpace (c : Char) : Bool :=
  let n := c.toNat
  decide (9 ≤ n ∧ n ≤ 13 ∨ n = 0x20 ∨ n = 0x85 ∨ n = 0xA0 ∨ n = 0x1680 ∨ 0x2000 ≤ n ∧ n ≤ 0x200A ∨
    n = 0x2028 ∨ n = 0x2029 ∨ n = 0x202F ∨ n = 0x205F ∨ n = 0x3000)

/-- `strings.TrimSpace`. -/
def trimSpace (cs : List Char) : List Char := (cs.dropWhile isSpace).rdropWhile isSpace

/-- A space at the end is trimmed. -/
theorem trimSpace_append_singleton (cs : List Char) {c : Char} (hc : isSpace c = true) :
    trimSpace (cs ++ [c]) = trimSpace cs := by
  unfold trimSpace
  by_cases h : cs.dropWhile isSpace = []
  · have hall : ∀ x ∈ cs, isSpace x = true := List.dropWhile_eq_nil_iff.mp h
    rw [h, List.dropWhile_append_of_pos hall, List.dropWhile_cons_of_pos hc, List.dropWhile_nil]
  · have happ : (cs ++ [c]).dropWhile isSpace = cs.dropWhile isSpace ++ [c] := by
      rw [List.dropWhile_append, if_neg (by simpa using h)]
    rw [happ, List.rdropWhile_concat_pos _ _ _ hc]

/-- Text that neither begins nor ends with a space is not trimmed. -/
theorem trimSpace_eq_self {cs : List Char} (h : cs ≠ []) (hhead : isSpace (cs.head h) = false)
    (hlast : isSpace (cs.getLast h) = false) : trimSpace cs = cs := by
  have hdrop : cs.dropWhile isSpace = cs := by
    rw [List.dropWhile_eq_self_iff]
    intro hpos
    rw [← List.head_eq_getElem h, hhead]
    decide
  rw [trimSpace, hdrop, List.rdropWhile_eq_self_iff]
  intro hne
  rw [hlast]
  decide

theorem isSpace_of_isDigit {c : Char} (h : c.isDigit = true) : isSpace c = false := by
  have hrange : 48 ≤ c.toNat ∧ c.toNat ≤ 57 := by
    simpa [Char.isDigit, UInt32.le_iff_toNat_le] using h
  unfold isSpace
  rw [decide_eq_false_iff_not]
  omega

/-! ## Cutting -/

/-- `strings.Cut` at a character: what comes before the first and what comes after it. -/
def cut (sep : Char) : List Char → Option (List Char × List Char)
  | [] => none
  | c :: cs => if c = sep then some ([], cs) else (cut sep cs).map fun p ↦ (c :: p.1, p.2)

theorem cut_eq_some_iff {sep : Char} {cs before after : List Char} :
    cut sep cs = some (before, after) ↔ cs = before ++ sep :: after ∧ sep ∉ before := by
  induction cs generalizing before with
  | nil => simp [cut]
  | cons c cs ih =>
      unfold cut
      by_cases hc : c = sep
      · subst hc
        rw [if_pos rfl, Option.some.injEq, Prod.mk.injEq]
        constructor
        · rintro ⟨rfl, rfl⟩
          exact ⟨rfl, List.not_mem_nil⟩
        · rintro ⟨heq, hmem⟩
          cases before with
          | nil => exact ⟨rfl, (List.cons.inj heq).2⟩
          | cons b before => exact absurd ((List.cons.inj heq).1 ▸ List.mem_cons_self) hmem
      · rw [if_neg hc, Option.map_eq_some_iff]
        constructor
        · rintro ⟨⟨b, a⟩, hcut, heq⟩
          obtain ⟨rfl, rfl⟩ := Prod.mk.inj heq
          obtain ⟨rfl, hmem⟩ := ih.mp hcut
          exact ⟨rfl, by simpa [hmem] using Ne.symm hc⟩
        · rintro ⟨heq, hmem⟩
          cases before with
          | nil => exact absurd (List.cons.inj heq).1 hc
          | cons b before =>
              obtain ⟨rfl, rfl⟩ := List.cons.inj heq
              rw [List.mem_cons, not_or] at hmem
              exact ⟨(before, after), ih.mpr ⟨rfl, hmem.2⟩, rfl⟩

/-! ## Numbers -/

/-- A number in decimal digits. -/
structure Decimal (cs : List Char) (n : ℕ) : Prop where
  ne_nil : cs ≠ []
  isDigit : ∀ c ∈ cs, c.isDigit = true
  value : Nat.ofDigitChars 10 cs 0 = n

/-- `strconv.ParseUint` in base 10: digits only, and less than `2 ^ bits`. -/
def parseUint (bits : ℕ) (cs : List Char) : Option ℕ :=
  if cs = [] ∨ ¬ cs.all Char.isDigit then none
  else
    let n := Nat.ofDigitChars 10 cs 0
    if n < 2 ^ bits then some n else none

theorem parseUint_eq_some_iff {bits : ℕ} {cs : List Char} {n : ℕ} :
    parseUint bits cs = some n ↔ Decimal cs n ∧ n < 2 ^ bits := by
  unfold parseUint
  by_cases h : cs = [] ∨ ¬ cs.all Char.isDigit
  · rw [if_pos h]
    refine iff_of_false (by simp) ?_
    rintro ⟨⟨hne, hdigits, -⟩, -⟩
    rcases h with h | h
    · exact hne h
    · exact h (List.all_eq_true.mpr hdigits)
  · rw [if_neg h]
    rw [not_or, not_not, List.all_eq_true] at h
    dsimp only
    split_ifs with hlt
    · rw [Option.some.injEq]
      constructor
      · rintro rfl
        exact ⟨⟨h.1, h.2, rfl⟩, hlt⟩
      · rintro ⟨hdec, -⟩
        exact hdec.value
    · refine iff_of_false (by simp) ?_
      rintro ⟨⟨-, -, rfl⟩, hlt'⟩
      exact hlt hlt'

/-- The digits of a number. -/
theorem Decimal.toDigits (n : ℕ) : Decimal (Nat.toDigits 10 n) n where
  ne_nil := Nat.toDigits_ne_nil
  isDigit _ h := Nat.isDigit_of_mem_toDigits (by decide) (by decide) h
  value := Nat.ofDigitChars_ten_toDigits

/-! ## Lines -/

/-- The lines of a text, the last of which need not be terminated. -/
def splitLines : List Char → List (List Char)
  | [] => []
  | c :: cs =>
      if c = '\n' then [] :: splitLines cs
      else
        match splitLines cs with
        | [] => [[c]]
        | l :: ls => (c :: l) :: ls

/-- The text of some lines, all of them terminated. -/
def unlines (ls : List (List Char)) : List Char := ls.flatMap fun l ↦ l ++ ['\n']

theorem splitLines_append {l : List Char} (h : '\n' ∉ l) (cs : List Char) :
    splitLines (l ++ '\n' :: cs) = l :: splitLines cs := by
  induction l with
  | nil => rw [List.nil_append, splitLines, if_pos rfl]
  | cons c l ih =>
      rw [List.mem_cons, not_or] at h
      rw [List.cons_append, splitLines, if_neg (Ne.symm h.1), ih h.2]

theorem splitLines_unlines {ls : List (List Char)} (h : ∀ l ∈ ls, '\n' ∉ l) :
    splitLines (unlines ls) = ls := by
  induction ls with
  | nil => rfl
  | cons l ls ih =>
      rw [List.forall_mem_cons] at h
      have hcons : unlines (l :: ls) = l ++ '\n' :: unlines ls := by
        simp [unlines]
      rw [hcons, splitLines_append h.1, ih h.2]

/-! ## Scanning -/

/-- `bufio.MaxScanTokenSize`. -/
def maxScanTokenSize : ℕ := 64 * 1024

/-- `bufio.ErrTooLong`. -/
inductive ScanError where
  | tooLong
deriving Repr, DecidableEq

/-- The length of a line in bytes. -/
def byteLength (l : List Char) : ℕ := (l.map Char.utf8Size).sum

/-- `dropCR`. -/
def dropCR (l : List Char) : List Char := if l.getLast? = some '\r' then l.dropLast else l

/-- The tokens of a `bufio.Scanner` from some lines on, and its error: a line that does not
fit in its buffer ends the scan. -/
def scanTokens : List (List Char) → List (List Char) × Option ScanError
  | [] => ([], none)
  | l :: ls =>
      if maxScanTokenSize ≤ byteLength l then ([], some .tooLong)
      else
        let (tokens, err) := scanTokens ls
        (dropCR l :: tokens, err)

/-- A `bufio.Scanner` over the lines of a text. -/
def scanLines (text : List Char) : List (List Char) × Option ScanError :=
  scanTokens (splitLines text)

/-- Lines that fit are all scanned. -/
theorem scanTokens_of_short {ls : List (List Char)} (h : ∀ l ∈ ls, byteLength l < maxScanTokenSize) :
    scanTokens ls = (ls.map dropCR, none) := by
  induction ls with
  | nil => rfl
  | cons l ls ih =>
      rw [List.forall_mem_cons] at h
      rw [scanTokens, if_neg (not_le.mpr h.1), ih h.2]
      rfl

/-- A carriage return is white space. -/
theorem trimSpace_dropCR (l : List Char) : trimSpace (dropCR l) = trimSpace l := by
  unfold dropCR
  split_ifs with h
  · obtain ⟨cs, rfl⟩ := List.getLast?_eq_some_iff.mp h
    rw [List.dropLast_concat, trimSpace_append_singleton cs (by decide)]
  · rfl
