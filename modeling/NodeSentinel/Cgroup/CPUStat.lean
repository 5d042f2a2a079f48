import NodeSentinel.Agent.Resolver
import NodeSentinel.Data.Text

/-!
# Reading `cpu.stat`

`cpustat.go`: the body of a `cpu.stat` is a list of lines `"key value"`, of which three are
read.  The parser is compared with its grammar: a field is the value of its last well-formed
line, and no other line matters to it.
-/

/-- `CPUStat`, with the field that the judgement does not read. -/
structure FullCPUStat extends CPUStat where
  throttledUsec : ℕ
deriving Repr, DecidableEq

/-- The keys that are read. -/
inductive StatKey where
  | nrPeriods
  | nrThrottled
  | throttledUsec
deriving Repr, DecidableEq

/-- A key in the text. -/
def StatKey.text : StatKey → List Char
  | .nrPeriods => "nr_periods".toList
  | .nrThrottled => "nr_throttled".toList
  | .throttledUsec => "throttled_usec".toList

namespace FullCPUStat

/-- The field of a key. -/
def get (s : FullCPUStat) : StatKey → ℕ
  | .nrPeriods => s.nrPeriods
  | .nrThrottled => s.nrThrottled
  | .throttledUsec => s.throttledUsec

/-- A reading is determined by its fields. -/
theorem ext_get {s s' : FullCPUStat} (h : ∀ k, s.get k = s'.get k) : s = s' := by
  obtain ⟨⟨p, t⟩, u⟩ := s
  obtain ⟨⟨p', t'⟩, u'⟩ := s'
  obtain rfl : p = p' := h .nrPeriods
  obtain rfl : t = t' := h .nrThrottled
  obtain rfl : u = u' := h .throttledUsec
  rfl

end FullCPUStat

/-- The body of the loop of `parseCPUStat`. -/
def parseLine (s : FullCPUStat) (line : List Char) : FullCPUStat :=
  match cut ' ' (trimSpace line) with
  | none => s
  | some (key, val) =>
      match parseUint 64 val with
      | none => s
      | some n =>
          if key = StatKey.nrPeriods.text then { s with nrPeriods := n }
          else if key = StatKey.nrThrottled.text then { s with nrThrottled := n }
          else if key = StatKey.throttledUsec.text then { s with throttledUsec := n }
          else s

/-- `parseCPUStat`: the fields, and the error of the scanner. -/
def parseCPUStat (text : List Char) : FullCPUStat × Option ScanError :=
  let (lines, err) := scanLines text
  (lines.foldl parseLine ⟨⟨0, 0⟩, 0⟩, err)

/-! ## The grammar -/

/-- A line that gives a field a value. -/
def FieldLine (k : StatKey) (n : ℕ) (line : List Char) : Prop :=
  ∃ digits, trimSpace line = k.text ++ ' ' :: digits ∧ Decimal digits n ∧ n < 2 ^ 64

/-- The value of the last line that gives a field one, or 0. -/
def LastValue (k : StatKey) (lines : List (List Char)) (n : ℕ) : Prop :=
  (∃ before line after, lines = before ++ line :: after ∧ FieldLine k n line ∧
    ∀ l ∈ after, ∀ m, ¬ FieldLine k m l) ∨
  n = 0 ∧ ∀ l ∈ lines, ∀ m, ¬ FieldLine k m l

/-- What a line says of a field. -/
def fieldValue (k : StatKey) (line : List Char) : Option ℕ :=
  match cut ' ' (trimSpace line) with
  | none => none
  | some (key, val) => if key = k.text then parseUint 64 val else none

theorem StatKey.text_injective : Function.Injective StatKey.text := by
  intro k k' h
  cases k <;> cases k' <;> first | rfl | exact absurd h (by decide)

theorem StatKey.space_notMem_text (k : StatKey) : ' ' ∉ k.text := by
  cases k <;> decide

theorem fieldValue_eq_some_iff {k : StatKey} {line : List Char} {n : ℕ} :
    fieldValue k line = some n ↔ FieldLine k n line := by
  unfold fieldValue FieldLine
  constructor
  · intro h
    cases hcut : cut ' ' (trimSpace line) with
    | none => simp [hcut] at h
    | some p =>
        obtain ⟨key, val⟩ := p
        rw [hcut] at h
        dsimp only at h
        split_ifs at h with hkey
        subst hkey
        exact ⟨val, (cut_eq_some_iff.mp hcut).1, parseUint_eq_some_iff.mp h⟩
  · rintro ⟨digits, htrim, hdec⟩
    have hcut := cut_eq_some_iff.mpr ⟨htrim, k.space_notMem_text⟩
    rw [hcut]
    dsimp only
    rw [if_pos rfl, parseUint_eq_some_iff]
    exact hdec

/-- One line sets the field whose key it has, and no other. -/
theorem get_parseLine (s : FullCPUStat) (line : List Char) (k : StatKey) :
    (parseLine s line).get k = (fieldValue k line).getD (s.get k) := by
  unfold parseLine fieldValue
  cases cut ' ' (trimSpace line) with
  | none => rfl
  | some p =>
      obtain ⟨key, val⟩ := p
      dsimp only
      cases parseUint 64 val with
      | none => rw [ite_self, Option.getD_none]
      | some n =>
          dsimp only
          by_cases hkey : ∃ k', key = StatKey.text k'
          · obtain ⟨k', rfl⟩ := hkey
            simp only [StatKey.text_injective.eq_iff]
            cases k' <;> cases k <;> rfl
          · have hne : ∀ k', key ≠ StatKey.text k' := not_exists.mp hkey
            simp only [if_neg (hne _), Option.getD_none]

/-! ## The whole file -/

variable {k : StatKey} {lines : List (List Char)}

/-- The field after some lines: what the last of those that give it a value says. -/
theorem get_foldl_parseLine (s : FullCPUStat) (lines : List (List Char)) (k : StatKey) :
    (lines.foldl parseLine s).get k =
      ((lines.filterMap (fieldValue k)).getLast?).getD (s.get k) := by
  induction lines using List.reverseRecOn with
  | nil => rfl
  | append_singleton lines line ih =>
      rw [List.foldl_append, List.foldl_cons, List.foldl_nil, get_parseLine, ih,
        List.filterMap_append, List.filterMap_cons, List.filterMap_nil]
      cases fieldValue k line with
      | none => simp
      | some n => simp

theorem fieldValue_eq_none_iff {line : List Char} :
    fieldValue k line = none ↔ ∀ n, ¬ FieldLine k n line := by
  simp only [Option.eq_none_iff_forall_ne_some, ne_eq, fieldValue_eq_some_iff]

theorem lastValue_foldl_parseLine (lines : List (List Char)) (k : StatKey) :
    LastValue k lines ((lines.foldl parseLine ⟨⟨0, 0⟩, 0⟩).get k) := by
  induction lines using List.reverseRecOn with
  | nil =>
      refine .inr ⟨?_, nofun⟩
      cases k <;> rfl
  | append_singleton lines line ih =>
      rw [List.foldl_append, List.foldl_cons, List.foldl_nil, get_parseLine]
      cases hline : fieldValue k line with
      | some n =>
          exact .inl ⟨lines, line, [], rfl, fieldValue_eq_some_iff.mp hline, nofun⟩
      | none =>
          have hnot : ∀ l ∈ [line], ∀ m, ¬ FieldLine k m l := by
            intro l hl
            rw [List.mem_singleton.mp hl]
            exact fieldValue_eq_none_iff.mp hline
          rcases ih with ⟨before, l, after, rfl, hl, hafter⟩ | ⟨hzero, hnone⟩
          · refine .inl ⟨before, l, after ++ [line], by simp, hl, ?_⟩
            intro l' hl'
            exact (List.mem_append.mp hl').elim (hafter l') (hnot l')
          · refine .inr ⟨hzero, ?_⟩
            intro l' hl'
            exact (List.mem_append.mp hl').elim (hnone l') (hnot l')

/-- A carriage return at the end of a line does not matter. -/
theorem parseLine_dropCR (s : FullCPUStat) (line : List Char) :
    parseLine s (dropCR line) = parseLine s line := by
  rw [parseLine, parseLine, trimSpace_dropCR]

/-- A file whose lines fit is read to its end. -/
theorem parseCPUStat_of_short {text : List Char}
    (h : ∀ l ∈ splitLines text, byteLength l < maxScanTokenSize) :
    parseCPUStat text = ((splitLines text).foldl parseLine ⟨⟨0, 0⟩, 0⟩, none) := by
  rw [parseCPUStat, scanLines, scanTokens_of_short h]
  dsimp only
  rw [List.foldl_map]
  simp only [parseLine_dropCR]

/-! ## Foreign lines -/

/-- A line of some field. -/
def OfField (k : StatKey) (line : List Char) : Prop := ∃ n, FieldLine k n line

theorem isSome_fieldValue_iff {line : List Char} : (fieldValue k line).isSome ↔ OfField k line := by
  simp only [Option.isSome_iff_exists, fieldValue_eq_some_iff, OfField]

instance (k : StatKey) : DecidablePred (OfField k) := fun _ ↦
  decidable_of_iff _ isSome_fieldValue_iff

/-- A line that means something; any other is foreign. -/
def Meaningful (line : List Char) : Prop := ∃ k, OfField k line

instance : DecidablePred Meaningful := fun line ↦
  decidable_of_iff
    (OfField .nrPeriods line ∨ OfField .nrThrottled line ∨ OfField .throttledUsec line) <| by
    constructor
    · rintro (h | h | h) <;> exact ⟨_, h⟩
    · rintro ⟨k, h⟩
      cases k with
      | nrPeriods => exact .inl h
      | nrThrottled => exact .inr (.inl h)
      | throttledUsec => exact .inr (.inr h)

/-- Only its own lines matter to a field. -/
theorem filterMap_fieldValue {p : List Char → Prop} [DecidablePred p]
    (hp : ∀ line, OfField k line → p line) (lines : List (List Char)) :
    (lines.filter p).filterMap (fieldValue k) = lines.filterMap (fieldValue k) := by
  rw [List.filterMap_filter]
  apply List.filterMap_congr
  intro line _
  by_cases h : p line
  · rw [if_pos (by simpa using h)]
  · rw [if_neg (by simpa using h)]
    symm
    rw [← Option.not_isSome_iff_eq_none, isSome_fieldValue_iff]
    exact mt (hp line) h

/-! ## Renderings -/

/-- The line of a field. -/
def StatKey.line (s : FullCPUStat) (k : StatKey) : List Char :=
  k.text ++ ' ' :: Nat.toDigits 10 (s.get k)

/-- Lines of which those that mean something are the lines of a reading, in some order. -/
structure Renders (s : FullCPUStat) (lines : List (List Char)) : Prop where
  lt : ∀ k, s.get k < 2 ^ 64
  perm : (lines.filter Meaningful).Perm
    [StatKey.nrPeriods.line s, StatKey.nrThrottled.line s, StatKey.throttledUsec.line s]

theorem trimSpace_line (s : FullCPUStat) (k : StatKey) : trimSpace (k.line s) = k.line s := by
  have hne : k.line s ≠ [] := by
    rw [StatKey.line]
    exact List.append_ne_nil_of_right_ne_nil _ (List.cons_ne_nil _ _)
  apply trimSpace_eq_self hne
  · cases k <;> rfl
  · have hdigits := Decimal.toDigits (s.get k)
    have hlast : (k.line s).getLast hne = (Nat.toDigits 10 (s.get k)).getLast hdigits.ne_nil := by
      simp only [StatKey.line]
      rw [List.getLast_append_of_ne_nil _ (List.cons_ne_nil _ _),
        List.getLast_cons hdigits.ne_nil]
    rw [hlast]
    exact isSpace_of_isDigit (hdigits.isDigit _ (List.getLast_mem _))

/-- What the line of one field says of another. -/
theorem fieldValue_line {s : FullCPUStat} {k' : StatKey} (hlt : s.get k' < 2 ^ 64) :
    fieldValue k (k'.line s) = if k' = k then some (s.get k') else none := by
  have hcut : cut ' ' (k'.line s) = some (k'.text, Nat.toDigits 10 (s.get k')) :=
    cut_eq_some_iff.mpr ⟨rfl, k'.space_notMem_text⟩
  rw [fieldValue, trimSpace_line, hcut]
  dsimp only
  rw [parseUint_eq_some_iff.mpr ⟨Decimal.toDigits _, hlt⟩]
  simp only [StatKey.text_injective.eq_iff]

theorem Renders.filterMap_eq {s : FullCPUStat} (h : Renders s lines) (k : StatKey) :
    lines.filterMap (fieldValue k) = [s.get k] := by
  have hperm := h.perm.filterMap (fieldValue k)
  rw [filterMap_fieldValue fun line hline ↦ ⟨k, hline⟩] at hperm
  simp only [List.filterMap_cons, List.filterMap_nil, fieldValue_line (h.lt _)] at hperm
  rw [← List.perm_singleton]
  cases k <;> simpa using hperm

/-- `parseCPUStat` accepts exactly its grammar: it gives each field its last value, whatever the
other lines are, and reads back what was rendered. -/
theorem parseCPUStat_grammar (text : List Char)
    (hshort : ∀ l ∈ splitLines text, byteLength l < maxScanTokenSize) :
    (parseCPUStat text).2 = none ∧
      (∀ k, LastValue k (splitLines text) ((parseCPUStat text).1.get k)) ∧
      (∀ text', (∀ l ∈ splitLines text', byteLength l < maxScanTokenSize) → ∀ k,
        (splitLines text).filter (OfField k) = (splitLines text').filter (OfField k) →
          (parseCPUStat text).1.get k = (parseCPUStat text').1.get k) ∧
      ∀ s, Renders s (splitLines text) → (parseCPUStat text).1 = s := by
  refine ⟨?_, ?_, ?_, ?_⟩
  · rw [parseCPUStat_of_short hshort]
  · intro k
    rw [parseCPUStat_of_short hshort]
    exact lastValue_foldl_parseLine _ k
  · intro text' hshort' k hsame
    rw [parseCPUStat_of_short hshort, parseCPUStat_of_short hshort', get_foldl_parseLine,
      get_foldl_parseLine, ← filterMap_fieldValue (fun _ ↦ id) (splitLines text), hsame,
      filterMap_fieldValue fun _ ↦ id]
  · intro s hs
    apply FullCPUStat.ext_get
    intro k
    rw [parseCPUStat_of_short hshort, get_foldl_parseLine, hs.filterMap_eq]
    rfl

/-- The file of a cgroup with a quota, the fields out of order and foreign lines between. -/
def quotaFile : List (List Char) :=
  ["usage_usec 168780000".toList, "nr_throttled 1200".toList, "nr_periods".toList, [],
    "nr_throttled notanumber".toList, "throttled_usec 8400000".toList, "nr_periods 5000".toList]

theorem quotaFile_grammar :
    parseCPUStat (unlines quotaFile) = (⟨⟨5000, 1200⟩, 8400000⟩, none) := by
  have hlines : splitLines (unlines quotaFile) = quotaFile := splitLines_unlines (by decide)
  obtain ⟨herr, -, -, hrendered⟩ := parseCPUStat_grammar (unlines quotaFile)
    (by rw [hlines]; decide)
  refine Prod.ext (hrendered _ ⟨?_, ?_⟩) herr
  · intro k
    cases k <;> decide
  · rw [hlines]
    decide +kernel
