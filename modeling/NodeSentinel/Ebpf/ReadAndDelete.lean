import NodeSentinel.Ebpf.CounterMap

/-!
# Read and delete

The snapshot of a counter map while the kernel goes on counting.  User space reads the
elements one by one and then deletes their keys one by one; the programs on the CPUs look
an element up and add to it through the pointer they got, which keeps pointing at an
element that has been deleted meanwhile.
-/

variable {n : ℕ} {F : Type}

/-- The program that runs on a CPU: what it has still to add to its element, and whether
that is the one in the map. -/
structure Running (F : Type) where
  cgroup : ℕ
  attached : Bool
  adds : List (F × ℕ)

/-- The progress of `Read`. -/
inductive Pass (F : Type) where
  | idle
  | reading (results : List (ℕ × (F → ℕ)))
  | deleting (keys : List ℕ) (results : List (ℕ × (F → ℕ)))

/-- A CPU whose program has nothing left to add. -/
def Running.idle : Option (Running F) → Bool
  | some p => p.adds.isEmpty
  | none => true

/-- A map with its programs and its reader.  `returned` are the results of all reads so
far, and `updates` is what the programs have added so far. -/
structure Observer (n : ℕ) (F : Type) where
  map : CounterMap n F
  running : Fin n → Option (Running F)
  pass : Pass F
  returned : List (ℕ × (F → ℕ))
  updates : ℕ → F → ℕ

/-- The steps of the kernel and of user space. -/
inductive Observer.Act (n : ℕ) (F : Type) where
  /-- `bpf_map_update_elem(..., BPF_NOEXIST)` -/
  | create (cgroup : ℕ)
  /-- The lookup after which a program adds. -/
  | lookup (cpu : Fin n) (cgroup : ℕ) (adds : List (F × ℕ))
  /-- The next `__sync_fetch_and_add` of a program. -/
  | add (cpu : Fin n)
  /-- `m.Iterate()` -/
  | iterate
  /-- `it.Next` -/
  | next (cgroup : ℕ)
  /-- `it.Err() != nil` -/
  | fail
  /-- The end of the iteration. -/
  | done
  /-- `m.Delete` of the next key. -/
  | delete
  /-- `return results, nil` -/
  | finish

namespace Observer

variable [DecidableEq F]

/-- An empty map, no program and no snapshot under way. -/
def init (n : ℕ) (F : Type) : Observer n F := ⟨∅, fun _ ↦ none, .idle, [], fun _ _ ↦ 0⟩

/-- A program adds `k` to `f`: to the copy of its CPU, if its element is in the map. -/
def addOne (s : Observer n F) (cpu : Fin n) (p : Running F) (f : F) (k : ℕ)
    (adds : List (F × ℕ)) : Observer n F where
  map := if p.attached then s.map.add p.cgroup cpu f k else s.map
  running := Function.update s.running cpu (some { p with adds })
  pass := s.pass
  returned := s.returned
  updates cgroup f' := s.updates cgroup f' + if cgroup = p.cgroup ∧ f' = f then k else 0

/-- A key is deleted; a pointer to its element is not one into the map any more. -/
def deleteKey (s : Observer n F) (key : ℕ) (keys : List ℕ) (results : List (ℕ × (F → ℕ))) :
    Observer n F where
  map := s.map.erase key
  running cpu := (s.running cpu).map fun p ↦ { p with attached := p.attached && p.cgroup ≠ key }
  pass := .deleting keys results
  returned := s.returned
  updates := s.updates

/-- What a step makes of the state; `none` where it is not the turn of that step. -/
def step (s : Observer n F) : Act n F → Option (Observer n F)
  | .create cgroup => some { s with map := s.map.create cgroup }
  | .lookup cpu cgroup adds =>
      if Running.idle (s.running cpu) then some { s with
        running := Function.update s.running cpu
          (if cgroup ∈ s.map then some ⟨cgroup, true, adds⟩ else none) }
      else none
  | .add cpu =>
      match s.running cpu with
      | none => none
      | some p =>
          match p.adds with
          | [] => none
          | (f, k) :: adds => some (s.addOne cpu p f k adds)
  | .iterate =>
      match s.pass with
      | .idle => some { s with pass := .reading [] }
      | _ => none
  | .next cgroup =>
      match s.pass, s.map.lookup cgroup with
      | .reading results, some v =>
          if cgroup ∈ results.map Prod.fst then none
          else some { s with pass := .reading (results ++ [(cgroup, v.merge)]) }
      | _, _ => none
  | .fail =>
      match s.pass with
      | .reading _ => some { s with pass := .idle }
      | _ => none
  | .done =>
      match s.pass with
      | .reading results => some { s with pass := .deleting (results.map Prod.fst) results }
      | _ => none
  | .delete =>
      match s.pass with
      | .deleting (key :: keys) results => some (s.deleteKey key keys results)
      | _ => none
  | .finish =>
      match s.pass with
      | .deleting [] results => some { s with pass := .idle, returned := s.returned ++ results }
      | _ => none

/-- The steps are taken one after the other, each if it is allowed. -/
def run (allowed : Observer n F → Act n F → Bool) (acts : List (Act n F)) (s : Observer n F) :
    Option (Observer n F) :=
  acts.foldlM (fun s a ↦ if allowed s a then s.step a else none) s

end Observer

/-! ## What has been reported -/

/-- What some results report of a counter. -/
def reportedIn (results : List (ℕ × (F → ℕ))) (cgroup : ℕ) (f : F) : ℕ :=
  (results.map fun r ↦ if r.1 = cgroup then r.2 f else 0).sum

@[simp] theorem reportedIn_append (results results' : List (ℕ × (F → ℕ))) (cgroup : ℕ) (f : F) :
    reportedIn (results ++ results') cgroup f =
      reportedIn results cgroup f + reportedIn results' cgroup f := by
  simp [reportedIn]

/-- The results of a snapshot whose element has been deleted; those of the others are
still in the map. -/
def Pass.taken (cgroup : ℕ) (f : F) : Pass F → ℕ
  | .deleting keys results => if cgroup ∈ keys then 0 else reportedIn results cgroup f
  | _ => 0

/-- The results of the snapshot under way. -/
def Pass.results : Pass F → List (ℕ × (F → ℕ))
  | .idle => []
  | .reading results => results
  | .deleting _ results => results

/-- The key that is deleted next. -/
def Pass.next : Pass F → Option ℕ
  | .deleting (key :: _) _ => some key
  | _ => none

namespace Observer

/-- The results returned so far, with those of the snapshot that is deleting their keys. -/
def reported (s : Observer n F) (cgroup : ℕ) (f : F) : ℕ :=
  reportedIn s.returned cgroup f + s.pass.taken cgroup f

/-- Every update is in one result or still in the map. -/
def Conserved (s : Observer n F) : Prop :=
  ∀ cgroup f, s.reported cgroup f + s.map.stored cgroup f = s.updates cgroup f

/-- A step that loses nothing: no addition through a pointer to a deleted element, and no
deletion of an element that was added to since it was read. -/
def Clean (s : Observer n F) : Act n F → Prop
  | .add cpu => ∀ p ∈ s.running cpu, p.attached = true
  | .delete => ∀ key ∈ s.pass.next, ∀ f, s.map.stored key f = reportedIn s.pass.results key f
  | _ => True

instance [Fintype F] (s : Observer n F) : DecidablePred s.Clean
  | .add cpu => inferInstanceAs (Decidable (∀ p ∈ s.running cpu, p.attached = true))
  | .delete => inferInstanceAs (Decidable (∀ key ∈ s.pass.next, ∀ f,
      s.map.stored key f = reportedIn s.pass.results key f))
  | .create _ | .lookup _ _ _ | .iterate | .next _ | .fail | .done | .finish =>
      inferInstanceAs (Decidable True)

/-- A step of a run in which nothing is lost. -/
def CleanStep [DecidableEq F] (s s' : Observer n F) : Prop := ∃ a, s.step a = some s' ∧ s.Clean a

/-! ## Conservation -/

/-- The keys of the pass are distinct, and attached programs point into the map. -/
structure WellFormed (s : Observer n F) : Prop where
  keys : match s.pass with
    | .idle => True
    | .reading results => (results.map Prod.fst).Nodup
    | .deleting keys _ => keys.Nodup
  attached : ∀ {cpu p}, s.running cpu = some p → p.attached = true → p.cgroup ∈ s.map

variable {s s' : Observer n F}

theorem reportedIn_eq_zero {results : List (ℕ × (F → ℕ))} {cgroup : ℕ}
    (h : cgroup ∉ results.map Prod.fst) (f : F) : reportedIn results cgroup f = 0 := by
  refine List.sum_eq_zero fun v hv ↦ ?_
  obtain ⟨r, hr, rfl⟩ := List.mem_map.mp hv
  refine if_neg fun he ↦ h ?_
  rw [← he]
  exact List.mem_map_of_mem hr

/-- Until a key has been deleted, nothing of a snapshot counts as reported. -/
theorem taken_keys (results : List (ℕ × (F → ℕ))) (cgroup : ℕ) (f : F) :
    Pass.taken cgroup f (.deleting (results.map Prod.fst) results) = 0 := by
  rw [Pass.taken]
  split_ifs with h
  · rfl
  · exact reportedIn_eq_zero h f

/-- A step of the reader that deletes nothing. -/
theorem Conserved.of_reported (hc : s.Conserved) {pass : Pass F} {returned : List (ℕ × (F → ℕ))}
    (h : ∀ cgroup f, reportedIn returned cgroup f + pass.taken cgroup f = s.reported cgroup f) :
    ({ s with pass, returned } : Observer n F).Conserved := by
  intro cgroup f
  rw [reported, h]
  exact hc cgroup f

/-- The keys that have been read stay distinct with one that was not among them. -/
theorem nodup_keys_append {results : List (ℕ × (F → ℕ))} (h : (results.map Prod.fst).Nodup)
    {key : ℕ} (hnew : key ∉ results.map Prod.fst) (v : F → ℕ) :
    ((results ++ [(key, v)]).map Prod.fst).Nodup := by
  rw [List.map_append, List.nodup_append]
  refine ⟨h, List.nodup_singleton _, fun x hx y hy he ↦ hnew ?_⟩
  obtain rfl : y = key := List.mem_singleton.mp hy
  exact he ▸ hx

theorem stored_erase (m : CounterMap n F) (key cgroup : ℕ) (f : F) :
    CounterMap.stored (m.erase key) cgroup f = if cgroup = key then 0 else m.stored cgroup f := by
  split_ifs with h
  · subst h
    rw [CounterMap.stored, AList.lookup_erase]
  · rw [CounterMap.stored, AList.lookup_erase_ne h, CounterMap.stored]

/-- The result of a key takes the place of its element. -/
theorem deleteKey_conserved {key : ℕ} {keys : List ℕ} {results : List (ℕ × (F → ℕ))}
    (hpass : s.pass = .deleting (key :: keys) results) (hw : s.WellFormed) (hc : s.Conserved)
    (hread : ∀ f, s.map.stored key f = reportedIn results key f) :
    (s.deleteKey key keys results).Conserved := by
  intro cgroup f
  have hkeys := hw.keys
  rw [hpass] at hkeys
  have hbefore := hc cgroup f
  rw [reported, hpass, Pass.taken] at hbefore
  simp only [reported, deleteKey, Pass.taken, stored_erase]
  by_cases h : cgroup = key
  · subst h
    rw [if_pos (List.mem_cons_self ..), hread f] at hbefore
    rw [if_neg (List.nodup_cons.mp hkeys).1, if_pos rfl]
    exact hbefore
  · simp only [List.mem_cons, h, false_or] at hbefore
    rw [if_neg h]
    exact hbefore

theorem deleteKey_wellFormed {key : ℕ} {keys : List ℕ} {results : List (ℕ × (F → ℕ))}
    (hpass : s.pass = .deleting (key :: keys) results) (hw : s.WellFormed) :
    (s.deleteKey key keys results).WellFormed where
  keys := by
    have hkeys := hw.keys
    rw [hpass] at hkeys
    exact (List.nodup_cons.mp hkeys).2
  attached {cpu p'} hp' hatt' := by
    obtain ⟨p, hp, rfl⟩ := Option.map_eq_some_iff.mp hp'
    simp only [Bool.and_eq_true, decide_eq_true_eq] at hatt'
    exact AList.mem_erase.mpr ⟨hatt'.2, hw.attached (p := p) hp hatt'.1⟩

variable [DecidableEq F]

/-- One addition goes to the map and to the updates alike. -/
theorem addOne_conserved (hw : s.WellFormed) (hc : s.Conserved) {cpu : Fin n} {p : Running F}
    (hp : s.running cpu = some p) (hatt : p.attached = true) (f : F) (k : ℕ)
    (adds : List (F × ℕ)) : (s.addOne cpu p f k adds).Conserved := by
  intro cgroup f'
  have hmap : (s.addOne cpu p f k adds).map = s.map.add p.cgroup cpu f k := if_pos hatt
  rw [hmap, CounterMap.stored_add (hw.attached hp hatt), ← add_assoc]
  exact congrArg (· + _) (hc cgroup f')

theorem addOne_wellFormed (hw : s.WellFormed) {cpu : Fin n} {p : Running F}
    (hp : s.running cpu = some p) (f : F) (k : ℕ) (adds : List (F × ℕ)) :
    (s.addOne cpu p f k adds).WellFormed where
  keys := hw.keys
  attached {cpu' p'} hp' hatt' := by
    have hmem : p'.cgroup ∈ s.map := by
      by_cases h : cpu' = cpu
      · subst h
        simp only [addOne, Function.update_self, Option.some.injEq] at hp'
        subst hp'
        exact hw.attached (p := p) hp hatt'
      · simp only [addOne, Function.update_of_ne h] at hp'
        exact hw.attached hp' hatt'
    unfold addOne
    dsimp only
    split_ifs
    · exact CounterMap.mem_add.mpr hmem
    · exact hmem

/-- What one step preserves. -/
theorem step_conserved {a : Act n F} (h : s.step a = some s') (hclean : s.Clean a)
    (hw : s.WellFormed) (hc : s.Conserved) : s'.WellFormed ∧ s'.Conserved := by
  cases a with
  | create cgroup =>
      obtain rfl := Option.some.inj h
      refine ⟨⟨hw.keys, fun hp hatt ↦ CounterMap.mem_create_of_mem (hw.attached hp hatt)⟩, ?_⟩
      intro cgroup' f
      rw [CounterMap.stored_create]
      exact hc cgroup' f
  | lookup cpu cgroup adds =>
      simp only [step, Option.ite_none_right_eq_some, Option.some.injEq] at h
      obtain ⟨-, rfl⟩ := h
      refine ⟨⟨hw.keys, fun {cpu' p} hp hatt ↦ ?_⟩, hc⟩
      by_cases hcpu : cpu' = cpu
      · subst hcpu
        simp only [Function.update_self, Option.ite_none_right_eq_some, Option.some.injEq] at hp
        obtain ⟨hmem, rfl⟩ := hp
        exact hmem
      · simp only [Function.update_of_ne hcpu] at hp
        exact hw.attached hp hatt
  | add cpu =>
      simp only [step] at h
      split at h
      · cases h
      · next p hp =>
          split at h
          · cases h
          · next f k adds _ =>
              obtain rfl := Option.some.inj h
              exact ⟨addOne_wellFormed hw hp f k adds,
                addOne_conserved hw hc hp (hclean p hp) f k adds⟩
  | iterate =>
      simp only [step] at h
      split at h
      · next hpass =>
          obtain rfl := Option.some.inj h
          refine ⟨⟨List.nodup_nil, hw.attached⟩, hc.of_reported fun cgroup f ↦ ?_⟩
          rw [reported, hpass]
          rfl
      · cases h
  | next cgroup =>
      simp only [step] at h
      split at h
      · next results v hpass hv =>
          split_ifs at h with hnew
          obtain rfl := Option.some.inj h
          have hkeys := hw.keys
          rw [hpass] at hkeys
          refine ⟨⟨nodup_keys_append hkeys hnew v.merge, hw.attached⟩,
            hc.of_reported fun cgroup f ↦ ?_⟩
          rw [reported, hpass]
          rfl
      · cases h
  | fail =>
      simp only [step] at h
      split at h
      · next hpass =>
          obtain rfl := Option.some.inj h
          refine ⟨⟨trivial, hw.attached⟩, hc.of_reported fun cgroup f ↦ ?_⟩
          rw [reported, hpass]
          rfl
      · cases h
  | done =>
      simp only [step] at h
      split at h
      · next results hpass =>
          obtain rfl := Option.some.inj h
          have hkeys := hw.keys
          rw [hpass] at hkeys
          refine ⟨⟨hkeys, hw.attached⟩, hc.of_reported fun cgroup f ↦ ?_⟩
          rw [taken_keys, reported, hpass]
          rfl
      · cases h
  | delete =>
      simp only [step] at h
      split at h
      · next key keys results hpass =>
          obtain rfl := Option.some.inj h
          have hread := hclean key (by rw [hpass]; rfl)
          rw [hpass] at hread
          exact ⟨deleteKey_wellFormed hpass hw, deleteKey_conserved hpass hw hc hread⟩
      · cases h
  | finish =>
      simp only [step] at h
      split at h
      · next results hpass =>
          obtain rfl := Option.some.inj h
          refine ⟨⟨trivial, hw.attached⟩, hc.of_reported fun cgroup f ↦ ?_⟩
          rw [reported, hpass, reportedIn_append]
          rfl
      · cases h

omit [DecidableEq F] in
theorem init_conserved : (init n F).WellFormed ∧ (init n F).Conserved :=
  ⟨⟨trivial, nofun⟩, fun _ _ ↦ rfl⟩

/-- A run leads along a relation that has all steps it takes. -/
theorem exists_of_run (allowed : Observer n F → Act n F → Bool) (R : Observer n F → Observer n F → Prop)
    (hR : ∀ {s a s'}, allowed s a → s.step a = some s' → R s s') (acts : List (Act n F))
    (p : Observer n F → Bool) {s : Observer n F} (h : (run allowed acts s).any p) :
    ∃ s', Relation.ReflTransGen R s s' ∧ p s' := by
  induction acts generalizing s with
  | nil => exact ⟨s, .refl, h⟩
  | cons a acts ih =>
      rw [run, List.foldlM_cons] at h
      by_cases ha : allowed s a
      · rw [if_pos ha] at h
        cases ht : s.step a with
        | none =>
            rw [ht] at h
            cases h
        | some t =>
            rw [ht] at h
            obtain ⟨s', hs', hp⟩ := ih h
            exact ⟨s', .head (hR ha ht) hs', hp⟩
      · rw [if_neg ha] at h
        cases h

/-- A slice of `ns` nanoseconds of cgroup 1. -/
def slice (ns : ℕ) : List (Act 1 CPUTime) :=
  [.create 1, .lookup 0 1 (cpuMonitor ns), .add 0]

/-- A slice, a snapshot, and another slice. -/
def sliceAfterSnapshot : List (Act 1 CPUTime) :=
  let snapshot : List (Act 1 CPUTime) := [.iterate, .next 1, .done, .delete, .finish]
  slice 5 ++ snapshot ++ slice 3

/-- A slice, and a snapshot that another slice falls into. -/
def sliceBeforeDelete : List (Act 1 CPUTime) :=
  let reads : List (Act 1 CPUTime) := [.iterate, .next 1, .done]
  let deletes : List (Act 1 CPUTime) := [.delete, .finish]
  slice 5 ++ reads ++ slice 3 ++ deletes

end Observer
