import NodeSentinel.Controller.Policy

/-!
# The active policy

`LoadActivePolicy` of `policy.go`: of all policies the one of the highest priority is active, and
the first by name of those.  A priority is an integer of 64 bits, and on its way to the comparison
it is converted to `float64` and back.  The conversion keeps the order, except that priorities
which round to the same number become equal, and that those which round to `2 ^ 63` become the
lowest of all.
-/

/-! ## Loading -/

/-- The comparison `less` of `LoadActivePolicy`. -/
def NodeHealthPolicy.before (p q : NodeHealthPolicy) : Bool :=
  if p.priority ≠ q.priority then p.priority > q.priority else p.name < q.name

/-- `LoadActivePolicy`, from the answer of the API server: no policy if there is none.  Insertion
sort is stable. -/
def loadActivePolicy (list : Except ApiError (List Unstructured)) :
    Except ApiError (Option NodeHealthPolicy) :=
  match list with
  | .error err => .error err
  | .ok items =>
      let policies := items.map parsePolicy
      if policies.length = 0 then .ok none
      else .ok (policies.insertionSort fun p q ↦ !q.before p).head?

/-! ## What a policy asks for -/

namespace Unstructured

variable (obj : Unstructured)

/-- `metadata.name`. -/
def name : String := (obj.path ["metadata", "name"]).asString.getD ""

/-- `spec.priority`, and 0 where it is missing. -/
def priority : ℤ :=
  match obj.path ["spec", "priority"] with
  | .int n => n
  | _ => 0

/-- The priority is missing, or an integer of 64 bits. -/
def HasInt64Priority : Prop :=
  obj.path ["spec", "priority"] = null ∨
    ∃ n : ℤ, obj.path ["spec", "priority"] = int n ∧ -2 ^ 63 ≤ n ∧ n < 2 ^ 63

end Unstructured

/-- The policy of the highest priority, and the first by name of those. -/
structure IsActive (items : List Unstructured) (m : Unstructured) : Prop where
  mem : m ∈ items
  first : ∀ o ∈ items, o ≠ m → o.priority < m.priority ∨ o.priority = m.priority ∧ m.name < o.name

/-- Whatever order the policies are listed in, the active one is loaded. -/
def LoadsActive (items : List Unstructured) : Prop :=
  ∃ m, IsActive items m ∧
    ∀ items', items'.Perm items → loadActivePolicy (.ok items') = .ok (some (parsePolicy m))

/-- The conversion leaves a policy in the first place: either its priority does not round to
`2 ^ 63`, and it is the first by name of those whose priorities round to the same number, or all
priorities round to one of the two ends of the range, and it is the first by name of all. -/
def Distinguished (items : List Unstructured) (m : Unstructured) : Prop :=
  (m.priority < 2 ^ 63 - 512 ∧ ∀ o ∈ items, o ≠ m →
    o.priority.toFloat64 = m.priority.toFloat64 → m.name < o.name) ∨
  (2 ^ 63 - 512 ≤ m.priority ∧ ∀ o ∈ items, o ≠ m →
    (2 ^ 63 - 512 ≤ o.priority ∨ o.priority ≤ -2 ^ 63 + 512) ∧ m.name < o.name)

/-! ## The conversion -/

section Conversion

variable {m n : ℤ}

theorem truncInt64_intCast (n : ℤ) :
    truncInt64 n = if -2 ^ 63 ≤ n ∧ n < 2 ^ 63 then n else -2 ^ 63 := by
  simp [truncInt64]

/-- The ends of the range, and the integers before them. -/
theorem toFloat64_ends : (2 ^ 63 - 512 : ℤ).toFloat64 = 2 ^ 63 ∧
    (2 ^ 63 - 513 : ℤ).toFloat64 = 2 ^ 63 - 1024 ∧ (2 ^ 63 : ℤ).toFloat64 = 2 ^ 63 ∧
    (-2 ^ 63 + 512 : ℤ).toFloat64 = -2 ^ 63 ∧
    (-2 ^ 63 + 513 : ℤ).toFloat64 = -2 ^ 63 + 1024 ∧ (-2 ^ 63 : ℤ).toFloat64 = -2 ^ 63 := by
  decide +kernel

theorem le_toFloat64 (h : -2 ^ 63 ≤ n) : -2 ^ 63 ≤ n.toFloat64 := by
  have hmono := Int.toFloat64_mono h
  rwa [toFloat64_ends.2.2.2.2.2] at hmono

/-- What rounds to the upper end. -/
theorem toFloat64_lt_iff : n.toFloat64 < 2 ^ 63 ↔ n < 2 ^ 63 - 512 := by
  constructor
  · intro h
    by_contra hle
    have hmono := Int.toFloat64_mono (not_lt.mp hle)
    rw [toFloat64_ends.1] at hmono
    exact absurd h hmono.not_gt
  · intro h
    have hmono := Int.toFloat64_mono (show n ≤ 2 ^ 63 - 513 by omega)
    rw [toFloat64_ends.2.1] at hmono
    omega

/-- What rounds to the lower end. -/
theorem toFloat64_eq_iff (h : -2 ^ 63 ≤ n) : n.toFloat64 = -2 ^ 63 ↔ n ≤ -2 ^ 63 + 512 := by
  constructor
  · intro heq
    by_contra hle
    have hmono := Int.toFloat64_mono (show -2 ^ 63 + 513 ≤ n by omega)
    rw [toFloat64_ends.2.2.2.2.1] at hmono
    omega
  · intro hle
    have hmono := Int.toFloat64_mono hle
    rw [toFloat64_ends.2.2.2.1] at hmono
    exact le_antisymm hmono (le_toFloat64 h)

/-- A priority of 64 bits after the conversion. -/
theorem truncInt64_toFloat64 (h : -2 ^ 63 ≤ n) :
    truncInt64 n.toFloat64 = if n < 2 ^ 63 - 512 then n.toFloat64 else -2 ^ 63 := by
  rw [truncInt64_intCast]
  by_cases hlt : n < 2 ^ 63 - 512
  · rw [if_pos ⟨le_toFloat64 h, toFloat64_lt_iff.mpr hlt⟩, if_pos hlt]
  · rw [if_neg (fun hr ↦ hlt (toFloat64_lt_iff.mp hr.2)), if_neg hlt]

end Conversion

/-! ## The order of the policies -/

namespace NodeHealthPolicy

variable {p q : NodeHealthPolicy}

/-- The order by which policies are sorted: by descending priority, and then by name. -/
def sortKey (p : NodeHealthPolicy) : ℤ ×ₗ String := toLex (-p.priority, p.name)

theorem before_iff : p.before q = true ↔
    q.priority < p.priority ∨ q.priority = p.priority ∧ p.name < q.name := by
  unfold before
  split_ifs with h
  · simp only [gt_iff_lt, decide_eq_true_eq]
    exact ⟨.inl, fun hor ↦ hor.resolve_right fun heq ↦ h heq.1.symm⟩
  · have heq : q.priority = p.priority := (not_ne_iff.mp h).symm
    simp [heq]

theorem before_iff_sortKey : p.before q = true ↔ p.sortKey < q.sortKey := by
  rw [before_iff, sortKey, sortKey, Prod.Lex.toLex_lt_toLex, neg_lt_neg_iff, neg_inj,
    eq_comm (a := q.priority)]

/-- The sort of `LoadActivePolicy`. -/
theorem insertionSort_before (ps : List NodeHealthPolicy) :
    ps.insertionSort (fun p q ↦ !q.before p) = ps.insertionSort fun p q ↦ p.sortKey ≤ q.sortKey := by
  congr 1
  funext p q
  rw [Bool.not_eq_true', ← Bool.not_eq_true, before_iff_sortKey, not_lt]

/-- A sorted list starts with an element of the smallest key. -/
theorem sortKey_le_of_head? {ps : List NodeHealthPolicy}
    (h : (ps.insertionSort fun p q ↦ !q.before p).head? = some p) :
    p ∈ ps ∧ ∀ q ∈ ps, p.sortKey ≤ q.sortKey := by
  rw [insertionSort_before] at h
  obtain ⟨rest, hrest⟩ := List.head?_eq_some_iff.mp h
  have htotal : Std.Total fun p q : NodeHealthPolicy ↦ p.sortKey ≤ q.sortKey :=
    ⟨fun p q ↦ le_total p.sortKey q.sortKey⟩
  have htrans : IsTrans NodeHealthPolicy fun p q ↦ p.sortKey ≤ q.sortKey :=
    ⟨fun _ _ _ h h' ↦ h.trans h'⟩
  have hsorted := List.pairwise_insertionSort (fun p q : NodeHealthPolicy ↦ p.sortKey ≤ q.sortKey) ps
  rw [hrest] at hsorted
  have hmem : ∀ q, q ∈ ps ↔ q = p ∨ q ∈ rest := by
    intro q
    rw [← List.mem_insertionSort (fun p q : NodeHealthPolicy ↦ p.sortKey ≤ q.sortKey), hrest,
      List.mem_cons]
  refine ⟨(hmem p).mpr (.inl rfl), fun q hq ↦ ?_⟩
  rcases (hmem q).mp hq with rfl | hq
  · exact le_rfl
  · exact (List.pairwise_cons.mp hsorted).1 q hq

end NodeHealthPolicy

section Load

variable {items items' : List Unstructured} {m o : Unstructured}

theorem IsActive.le (h : IsActive items m) (ho : o ∈ items) : o.priority ≤ m.priority := by
  by_cases heq : o = m
  · rw [heq]
  · exact (h.first o ho heq).elim le_of_lt fun h ↦ h.1.le

theorem parsePolicy_name : (parsePolicy o).name = o.name := rfl

/-- A list of policies has a first one. -/
theorem exists_loadActivePolicy (hm : m ∈ items) :
    ∃ o ∈ items, loadActivePolicy (.ok items) = .ok (some (parsePolicy o)) ∧
      ∀ o' ∈ items, (parsePolicy o).sortKey ≤ (parsePolicy o').sortKey := by
  have hne : items ≠ [] := List.ne_nil_of_mem hm
  have hload : loadActivePolicy (.ok items) =
      .ok ((items.map parsePolicy).insertionSort fun p q ↦ !q.before p).head? := by
    simp [loadActivePolicy, hne]
  cases hhead : ((items.map parsePolicy).insertionSort fun p q ↦ !q.before p).head? with
  | none =>
      have hlen := congrArg List.length (List.head?_eq_none_iff.mp hhead)
      rw [List.length_insertionSort] at hlen
      simp [hne] at hlen
  | some p =>
      obtain ⟨hp, hle⟩ := NodeHealthPolicy.sortKey_le_of_head? hhead
      obtain ⟨o, ho, rfl⟩ := List.mem_map.mp hp
      exact ⟨o, ho, hload.trans (congrArg _ hhead), fun o' ho' ↦ hle _ (List.mem_map_of_mem ho')⟩

/-- The policy that is loaded is before all others. -/
theorem loadActivePolicy_eq_iff (hnames : (items.map Unstructured.name).Nodup) (hm : m ∈ items) :
    loadActivePolicy (.ok items) = .ok (some (parsePolicy m)) ↔
      ∀ o ∈ items, o ≠ m → (parsePolicy m).before (parsePolicy o) = true := by
  obtain ⟨o, ho, hload, hle⟩ := exists_loadActivePolicy hm
  have hinj := List.inj_on_of_nodup_map hnames
  rw [hload]
  constructor
  · intro heq o' ho' hne
    have hparse : parsePolicy o = parsePolicy m := by simpa using heq
    obtain rfl : o = m := hinj ho hm (congrArg NodeHealthPolicy.name hparse)
    rw [NodeHealthPolicy.before_iff_sortKey]
    refine lt_of_le_of_ne (hle o' ho') fun hkey ↦ hne (hinj ho' ho ?_)
    exact (congrArg (fun k ↦ (ofLex k).2) hkey).symm
  · intro hbefore
    by_cases heq : o = m
    · rw [heq]
    · have hlt := NodeHealthPolicy.before_iff_sortKey.mp (hbefore o ho heq)
      exact absurd (hle m hm) hlt.not_ge

/-- The order of the list does not matter. -/
theorem loadActivePolicy_perm (h : items'.Perm items) (hnames : (items.map Unstructured.name).Nodup)
    (hm : m ∈ items) : loadActivePolicy (.ok items') = .ok (some (parsePolicy m)) ↔
      loadActivePolicy (.ok items) = .ok (some (parsePolicy m)) := by
  rw [loadActivePolicy_eq_iff hnames hm,
    loadActivePolicy_eq_iff ((h.map _).nodup_iff.mpr hnames) (h.mem_iff.mpr hm)]
  simp only [h.mem_iff]

/-! ## Priorities -/

theorem Unstructured.HasInt64Priority.mem_range (h : o.HasInt64Priority) :
    -2 ^ 63 ≤ o.priority ∧ o.priority < 2 ^ 63 := by
  unfold priority
  rcases h with h | ⟨n, h, hrange⟩
  · rw [h]
    norm_num
  · rwa [h]

/-- The priority that `parsePolicy` reads. -/
theorem parsePolicy_priority (h : o.HasInt64Priority) : (parsePolicy o).priority =
    if o.priority < 2 ^ 63 - 512 then o.priority.toFloat64 else -2 ^ 63 := by
  rw [← truncInt64_toFloat64 h.mem_range.1]
  show truncInt64 (o.path ["spec", "priority"]).toFloat = _
  unfold Unstructured.priority
  rcases h with h | ⟨n, h, -⟩
  · rw [h]
    rfl
  · rw [h]
    rfl

/-- How the order of two policies fares in the conversion. -/
theorem before_parsePolicy_iff (hm : m.HasInt64Priority) (ho : o.HasInt64Priority)
    (hle : o.priority ≤ m.priority) : (parsePolicy m).before (parsePolicy o) = true ↔
      if m.priority < 2 ^ 63 - 512 then
        o.priority.toFloat64 = m.priority.toFloat64 → m.name < o.name
      else (2 ^ 63 - 512 ≤ o.priority ∨ o.priority ≤ -2 ^ 63 + 512) ∧ m.name < o.name := by
  have hmono := Int.toFloat64_mono hle
  have hlow := le_toFloat64 ho.mem_range.1
  rw [NodeHealthPolicy.before_iff, parsePolicy_priority hm, parsePolicy_priority ho, parsePolicy_name,
    parsePolicy_name]
  by_cases hlt : m.priority < 2 ^ 63 - 512
  · rw [if_pos hlt, if_pos hlt, if_pos (hle.trans_lt hlt)]
    constructor
    · rintro (h | h) heq
      · exact absurd heq h.ne
      · exact h.2
    · intro h
      exact hmono.lt_or_eq.imp_right fun heq ↦ ⟨heq, h heq⟩
  · rw [if_neg hlt, if_neg hlt]
    by_cases hlt' : o.priority < 2 ^ 63 - 512
    · rw [if_pos hlt', or_iff_right hlow.not_gt, toFloat64_eq_iff ho.mem_range.1,
        or_iff_right hlt'.not_ge]
    · rw [if_neg hlt', or_iff_right (lt_irrefl _), or_iff_left_of_imp fun h ↦ absurd h (by omega)]
      exact and_congr_left' (iff_of_true rfl (not_lt.mp hlt'))

theorem exists_isActive (hne : items ≠ []) (hnames : (items.map Unstructured.name).Nodup) :
    ∃ m, IsActive items m := by
  let key (o : Unstructured) : ℤ ×ₗ String := toLex (-o.priority, o.name)
  obtain ⟨m, hmin⟩ := Option.ne_none_iff_exists'.mp (mt List.argmin_eq_none.mp hne : items.argmin key ≠ none)
  have hm : m ∈ items := List.argmin_mem hmin
  refine ⟨m, hm, fun o ho hdiff ↦ ?_⟩
  have hle : key m ≤ key o := List.le_of_mem_argmin ho hmin
  have hlt : key m < key o := hle.lt_of_ne fun heq ↦
    hdiff (List.inj_on_of_nodup_map hnames ho hm (congrArg (fun k ↦ (ofLex k).2) heq).symm)
  rw [Prod.Lex.toLex_lt_toLex, neg_lt_neg_iff, neg_inj] at hlt
  exact hlt.imp_right fun h ↦ ⟨h.1.symm, h.2⟩

/-- The active policy is loaded exactly when the conversion to `float64` leaves it in the first
place. -/
theorem loadsActive_iff (items : List Unstructured) (hprio : ∀ o ∈ items, o.HasInt64Priority)
    (hnames : (items.map Unstructured.name).Nodup) :
    LoadsActive items ↔ ∃ m, IsActive items m ∧ Distinguished items m := by
  unfold LoadsActive
  refine exists_congr fun m ↦ and_congr_right fun hm ↦ ?_
  have hload : (∀ items', items'.Perm items →
      loadActivePolicy (.ok items') = .ok (some (parsePolicy m))) ↔
        ∀ o ∈ items, o ≠ m → (parsePolicy m).before (parsePolicy o) = true := by
    rw [← loadActivePolicy_eq_iff hnames hm.mem]
    exact ⟨fun h ↦ h items (.refl items), fun h items' hperm ↦
      (loadActivePolicy_perm hperm hnames hm.mem).mpr h⟩
  have hbefore : ∀ o ∈ items, o ≠ m → ((parsePolicy m).before (parsePolicy o) = true ↔ _) :=
    fun o ho hne ↦ before_parsePolicy_iff (hprio m hm.mem) (hprio o ho) (hm.le ho)
  rw [hload, Distinguished]
  by_cases hlt : m.priority < 2 ^ 63 - 512
  · rw [and_iff_right hlt, or_iff_left fun h ↦ absurd h.1 hlt.not_ge]
    refine forall₃_congr fun o ho hne ↦ ?_
    rw [hbefore o ho hne, if_pos hlt]
  · rw [or_iff_right fun h ↦ hlt h.1, and_iff_right (not_lt.mp hlt)]
    refine forall₃_congr fun o ho hne ↦ ?_
    rw [hbefore o ho hne, if_neg hlt]

/-- Priorities up to `2 ^ 53` in absolute value are told apart. -/
theorem exists_distinguished (hne : items ≠ []) (hnames : (items.map Unstructured.name).Nodup)
    (habs : ∀ o ∈ items, |o.priority| ≤ 2 ^ 53) : ∃ m, IsActive items m ∧ Distinguished items m := by
  obtain ⟨m, hm⟩ := exists_isActive hne hnames
  refine ⟨m, hm, .inl ⟨?_, fun o ho hdiff heq ↦ ?_⟩⟩
  · exact ((le_abs_self _).trans (habs m hm.mem)).trans_lt (by norm_num)
  · rw [Int.toFloat64_of_abs_le (habs o ho), Int.toFloat64_of_abs_le (habs m hm.mem)] at heq
    exact (hm.first o ho hdiff).elim (fun hlt ↦ absurd heq hlt.ne) And.right

end Load

/-! ## Two policies -/

/-- A policy of a given name and priority. -/
def policyOf (name : String) (priority : ℤ) : Unstructured :=
  .object [("metadata", .object [("name", .string name)]), ("spec", .object [("priority", .int priority)])]

/-- Two policies whose priorities differ by one. -/
def twoPolicies (priority : ℤ) : List Unstructured :=
  [policyOf "b" (priority + 1), policyOf "a" priority]

section TwoPolicies

variable {priority : ℤ}

theorem twoPolicies_hasInt64Priority (h : -2 ^ 63 ≤ priority) (h' : priority + 1 < 2 ^ 63) :
    ∀ o ∈ twoPolicies priority, o.HasInt64Priority := by
  intro o ho
  rcases List.mem_pair.mp ho with rfl | rfl
  · exact .inr ⟨priority + 1, rfl, by omega, h'⟩
  · exact .inr ⟨priority, rfl, h, by omega⟩

theorem twoPolicies_names : ((twoPolicies priority).map Unstructured.name).Nodup := by
  show ["b", "a"].Nodup
  decide

/-- The second is active, by its priority. -/
theorem isActive_twoPolicies {m : Unstructured} (h : IsActive (twoPolicies priority) m) :
    m = policyOf "b" (priority + 1) := by
  rcases List.mem_pair.mp h.mem with rfl | rfl
  · rfl
  · have hle : priority + 1 ≤ priority := h.le (.head _)
    omega

end TwoPolicies

/-- Small priorities. -/
theorem loadsActive_twoPolicies : (∀ o ∈ twoPolicies 1, o.HasInt64Priority) ∧
    ((twoPolicies 1).map Unstructured.name).Nodup ∧ LoadsActive (twoPolicies 1) := by
  have hprio : ∀ o ∈ twoPolicies 1, o.HasInt64Priority :=
    twoPolicies_hasInt64Priority (by norm_num) (by norm_num)
  refine ⟨hprio, twoPolicies_names, (loadsActive_iff _ hprio twoPolicies_names).mpr ?_⟩
  refine exists_distinguished (List.cons_ne_nil _ _) twoPolicies_names fun o ho ↦ ?_
  rcases List.mem_pair.mp ho with rfl | rfl
  · show |(2 : ℤ)| ≤ 2 ^ 53
    norm_num
  · show |(1 : ℤ)| ≤ 2 ^ 53
    norm_num

/-- Of two priorities from `2 ^ 53` on that round to the same number, the lower one is loaded. -/
theorem not_loadsActive_twoPolicies : ¬ LoadsActive (twoPolicies (2 ^ 53)) := by
  rintro ⟨m, hm, hload⟩
  obtain rfl := isActive_twoPolicies hm
  have hprio := twoPolicies_hasInt64Priority (show -2 ^ 63 ≤ (2 ^ 53 : ℤ) by norm_num) (by norm_num)
  have ha : policyOf "a" (2 ^ 53) ∈ twoPolicies (2 ^ 53) := .tail _ (.head _)
  have hbefore := (loadActivePolicy_eq_iff twoPolicies_names hm.mem).mp (hload _ (.refl _)) _ ha
    (by simp [policyOf])
  rw [before_parsePolicy_iff (hprio _ hm.mem) (hprio _ ha) (hm.le ha)] at hbefore
  have hround : (2 ^ 53 : ℤ).toFloat64 = (2 ^ 53 + 1 : ℤ).toFloat64 := by decide +kernel
  have hname : "b" < "a" := hbefore hround
  exact absurd hname (by decide)
