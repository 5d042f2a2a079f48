import NodeSentinel.Controller.Aggregator
import NodeSentinel.Data.History

/-!
# What the controller knows of the cluster

The map of the controller is a function of the reports it has taken, in the order of the lock, and
so is every line of the log.  A handler that waits for the lock may set a node back to a report
that came before the last one, but by no more than the time for which it has waited.
-/

open Function (update)

universe u

namespace Controller

variable {K : Type}

/-! ## The reports of a history -/

/-- The report of a node that was taken, if one was. -/
def Happening.reportOf (name : String) : Happening K → Option (NodeState K)
  | .reported n st => if n = name then some st else none
  | _ => none

/-- The name of the node whose report was taken, if one was. -/
def Happening.reporter : Happening K → Option String
  | .reported n _ => some n
  | _ => none

/-- The reports of a node, in the order in which they were taken. -/
def reportsOf (name : String) (h : List (Happening K)) : List (NodeState K) :=
  h.filterMap (·.reportOf name)

/-- The nodes that have reported. -/
def reporters (h : List (Happening K)) : Finset String := (h.filterMap (·.reporter)).toFinset

theorem reportsOf_concat (name : String) (h : List (Happening K)) (x : Happening K) :
    reportsOf name (h ++ [x]) = reportsOf name h ++ (x.reportOf name).toList := by
  rw [reportsOf, List.filterMap_append]
  rfl

/-- A report is one of its node. -/
theorem reportsOf_reported (name n : String) (st : NodeState K) (h : List (Happening K)) :
    reportsOf name (h ++ [.reported n st]) =
      reportsOf name h ++ if n = name then [st] else [] := by
  rw [reportsOf_concat, Happening.reportOf]
  split_ifs
  · rfl
  · rfl

theorem mem_reporters {name : String} {h : List (Happening K)} :
    name ∈ reporters h ↔ reportsOf name h ≠ [] := by
  rw [reporters, List.mem_toFinset, List.mem_filterMap, ne_eq, reportsOf,
    List.filterMap_eq_nil_iff, not_forall]
  constructor
  · rintro ⟨x, hx, hname⟩
    refine ⟨x, fun hnone ↦ ?_⟩
    cases x with
    | reported n st =>
        obtain rfl := Option.some.inj hname
        have hreport := hnone hx
        rw [Happening.reportOf, if_pos rfl] at hreport
        cases hreport
    | _ => cases hname
  · rintro ⟨x, hx⟩
    obtain ⟨hmem, hreport⟩ := Classical.not_imp.mp hx
    refine ⟨x, hmem, ?_⟩
    cases x with
    | reported n st =>
        by_cases hn : n = name
        · rw [Happening.reporter, hn]
        · exact absurd (if_neg hn) hreport
    | _ => exact absurd rfl hreport

/-- The snapshot that was taken, if one was. -/
def Happening.taken : Happening K → Option (Snapshot K)
  | .reported _ st => some st.snapshot
  | _ => none

/-- The snapshot that the remediator was given, if it was given one. -/
def Happening.given : Happening K → Option (Snapshot K)
  | .remediated s => some s
  | _ => none

/-- The snapshots that the remediator was given. -/
def remediations (h : List (Happening K)) : List (Snapshot K) := h.filterMap (·.given)

/-- The snapshots that the remediator is to be given: all that were taken and are not healthy. -/
def due (c : Controller) (h : List (Happening K)) : List (Snapshot K) :=
  (h.filterMap (·.taken)).filter fun s ↦ c.remediator.isSome && !s.healthy

theorem remediations_concat (h : List (Happening K)) (x : Happening K) :
    remediations (h ++ [x]) = remediations h ++ x.given.toList := by
  rw [remediations, List.filterMap_append]
  rfl

theorem due_concat (c : Controller) (h : List (Happening K)) (x : Happening K) :
    due c (h ++ [x]) =
      due c h ++ x.taken.toList.filter fun s ↦ c.remediator.isSome && !s.healthy := by
  rw [due, List.filterMap_append, List.filter_append]
  rfl

/-- A report is due if it is not healthy, and there is a remediator. -/
theorem due_reported (c : Controller) (n : String) (st : NodeState K) (h : List (Happening K)) :
    due c (h ++ [.reported n st]) =
      due c h ++ if c.remediator.isSome && !st.snapshot.healthy then [st.snapshot] else [] :=
  (due_concat c h _).trans (congrArg _ List.filter_cons)

/-- The row of a node, if it is contended. -/
def Standing.row (n : String) : Standing K → Option (String × Headline K)
  | .contended detail => some (n, detail)
  | _ => none

@[simp] theorem Standing.row_stale (n : String) : (stale : Standing K).row n = none := rfl

@[simp] theorem Standing.row_healthy (n : String) : (healthy : Standing K).row n = none := rfl

@[simp] theorem Standing.row_contended (n : String) (detail : Headline K) :
    (contended detail).row n = some (n, detail) := rfl

theorem Standing.row_eq_some {n n' : String} {x : Standing K} {detail : Headline K} :
    x.row n = some (n', detail) ↔ n = n' ∧ x = .contended detail := by
  cases x with
  | contended d => simp
  | _ => simp

variable [Field K] [LinearOrder K]

/-- What a line is to say of a node after some reports. -/
def standingOf (c : Controller) (now : Time) (h : List (Happening K)) (name : String) :
    Option (Standing K) :=
  (reportsOf name h).getLast?.map (c.standing now)

theorem standingOf_eq_stale_iff {c : Controller} {now : Time} {h : List (Happening K)}
    {name : String} : c.standingOf now h name = some .stale ↔
      ∃ st, (reportsOf name h).getLast? = some st ∧ c.staleAfter < now - st.lastSeen := by
  rw [standingOf, Option.map_eq_some_iff]
  refine exists_congr fun st ↦ and_congr_right fun _ ↦ ?_
  unfold standing
  split_ifs with hstale
  · simpa using hstale
  · simpa using hstale
  · simpa using hstale

theorem standing_eq_contended {c : Controller} {now : Time} {st : NodeState K}
    {detail : Headline K} (h : c.standing now st = .contended detail) :
    summarize st.snapshot = detail := by
  unfold standing at h
  split_ifs at h
  exact Standing.contended.inj h

/-- What a line says of the reports that were taken before it. -/
structure Describes (c : Controller) (now : Time) (h : List (Happening K)) (line : ClusterLine K) :
    Prop where
  nodes : line.nodes = (reporters h).card
  healthy : line.healthy = {n ∈ reporters h | c.standingOf now h n = some .healthy}.card
  stale : line.stale = {n ∈ reporters h | c.standingOf now h n = some .stale}.card
  contended : line.contended = line.hot.length
  total : line.healthy + line.contended + line.stale = line.nodes
  sorted : (line.hot.map Prod.fst).Pairwise (· < ·)
  mem_hot : ∀ n detail, (n, detail) ∈ line.hot ↔
    c.standingOf now h n = some (.contended detail)

/-! ## The line -/

section Line

variable {c : Controller} {now : Time} {nodes : Finmap fun _ : String ↦ NodeState K}
  {h : List (Happening K)} {line : ClusterLine K} {names : List String}

/-- What the loop of `logCluster` adds to a line. -/
theorem foldl_logNode {f : String → Option (Standing K)}
    (hf : ∀ n, (nodes.lookup n).map (c.standing now) = f n) :
    names.foldl (c.logNode now nodes) line =
      { nodes := line.nodes
        healthy := line.healthy + names.countP fun n ↦ f n = some .healthy
        contended := line.contended + (names.filterMap fun n ↦ (f n).bind (·.row n)).length
        stale := line.stale + names.countP fun n ↦ f n = some .stale
        hot := line.hot ++ names.filterMap fun n ↦ (f n).bind (·.row n) } := by
  induction names generalizing line with
  | nil => simp
  | cons n names ih =>
      rw [List.foldl_cons, ih, logNode, hf]
      cases hn : f n with
      | none => simp [hn]
      | some x =>
          cases x with
          | _ => simp [hn, Nat.add_assoc, Nat.add_comm]

omit [Field K] in
/-- Every node is counted once. -/
theorem countP_standing {f : String → Option (Standing K)} (hf : ∀ n ∈ names, f n ≠ none) :
    (names.countP fun n ↦ f n = some .healthy) +
        (names.filterMap fun n ↦ (f n).bind (·.row n)).length +
      (names.countP fun n ↦ f n = some .stale) = names.length := by
  induction names with
  | nil => rfl
  | cons n names ih =>
      have hrest := ih fun n' hn' ↦ hf n' (List.mem_cons_of_mem _ hn')
      cases hn : f n with
      | none => exact absurd hn (hf n List.mem_cons_self)
      | some x =>
          cases x with
          | _ =>
              simp [hn]
              omega

omit [Field K] [LinearOrder K] in
/-- The nodes of the map are those that have reported. -/
theorem keys_eq_reporters (hlookup : ∀ n, nodes.lookup n = (reportsOf n h).getLast?) :
    nodes.keys = reporters h := by
  ext n
  rw [Finmap.mem_keys, ← Finmap.lookup_isSome, hlookup, List.getLast?_isSome, mem_reporters]

theorem countP_sort (s : Finset String) (p : String → Bool) :
    s.sort.countP p = {n ∈ s | p n = true}.card := by
  have hsort := congrArg (Multiset.countP fun n ↦ p n = true) (Finset.sort_eq s (· ≤ ·))
  rw [Multiset.coe_countP, Multiset.countP_eq_card_filter] at hsort
  rw [Finset.card_def, Finset.filter_val, ← hsort]
  simp

/-- The line that is printed of the map describes the reports that the map is made of. -/
theorem describes_logCluster (hlookup : ∀ n, nodes.lookup n = (reportsOf n h).getLast?) :
    c.Describes now h (c.logCluster nodes now) := by
  have hf : ∀ n, (nodes.lookup n).map (c.standing now) = c.standingOf now h n := fun n ↦ by
    rw [hlookup, standingOf]
  have hmem : ∀ n, n ∈ (reporters h).sort ↔ c.standingOf now h n ≠ none := fun n ↦ by
    rw [Finset.mem_sort, mem_reporters, standingOf, ne_eq, ne_eq, Option.map_eq_none_iff,
      List.getLast?_eq_none_iff]
  have htotal := countP_standing fun n hn ↦ (hmem n).mp hn
  unfold logCluster
  dsimp only
  rw [keys_eq_reporters hlookup, foldl_logNode hf]
  refine ⟨Finset.length_sort _, ?_, ?_, ?_, ?_, ?_, fun n detail ↦ ?_⟩
  · dsimp only
    rw [Nat.zero_add, countP_sort]
    simp only [decide_eq_true_eq]
  · dsimp only
    rw [Nat.zero_add, countP_sort]
    simp only [decide_eq_true_eq]
  · exact Nat.zero_add _
  · simpa only [Nat.zero_add] using htotal
  · rw [List.nil_append, List.pairwise_map, List.pairwise_filterMap]
    refine (Finset.sortedLT_sort _).pairwise.imp fun {n n'} hlt row hrow row' hrow' ↦ ?_
    obtain ⟨x, -, hx⟩ := Option.bind_eq_some_iff.mp hrow
    obtain ⟨x', -, hx'⟩ := Option.bind_eq_some_iff.mp hrow'
    rw [← (Standing.row_eq_some.mp hx).1, ← (Standing.row_eq_some.mp hx').1]
    exact hlt
  · rw [List.nil_append, List.mem_filterMap]
    constructor
    · rintro ⟨n', -, hrow⟩
      obtain ⟨x, hx, hrow⟩ := Option.bind_eq_some_iff.mp hrow
      obtain ⟨rfl, rfl⟩ := Standing.row_eq_some.mp hrow
      exact hx
    · intro hstanding
      refine ⟨n, (hmem n).mpr (hstanding ▸ Option.some_ne_none _), ?_⟩
      rw [hstanding]
      rfl

end Line

/-! ## Two handlers of one node -/

section LateHandler

/-- A snapshot of a node with a CPU victim. -/
def starvedNode (victims : ℕ) : Snapshot ℚ where
  nodeName := "a"
  healthy := false
  cgroupsSeen := 1
  runqWarnUs := 0
  minSamples := 0
  confidenceMin := 1 / 2
  maxConfidence := -1
  offenders := []
  victims := List.replicate victims ⟨"web/a/app", 0, 0, 0, 0⟩
  ioMaxConfidence := -1
  ioOffenders := []
  ioVictims := []
  netMaxConfidence := -1
  netOffenders := []
  netVictims := []

/-- A controller that remediates. -/
def webController : Controller := (newController minute).withRemediator (newRemediator {})

/-- The first handler reads the clock, and gets the lock only after the second one; then the log
loop ticks. -/
def lateHandlerRun : List (Cmd Bool ℚ) :=
  [.call false (.report ⟨"POST", .ok (starvedNode 1)⟩), .act false,
    .call true (.report ⟨"POST", .ok (starvedNode 2)⟩), .act true, .act true, .act true, .act true,
    .act false, .act false, .act false, .tick 10, .call true .tick, .act true, .act true]

/-- The state at the end. -/
def lateHandler : State Bool ℚ :=
  (lateHandlerRun.foldlM (State.step webController) (State.fresh 0)).get rfl

theorem lateHandler_reachable :
    (webController.system fun t₀ t ↦ t ≤ t₀ + (0 : ℕ)).Reachable (State.fresh 0) lateHandler :=
  reachable_of_foldlM .refl (Option.some_get _).symm

end LateHandler

/-! ## Runs -/

section Run

variable {ι : Type u} [DecidableEq ι] {c : Controller} {pace : Time → Time → Prop} {clock : Time}
  {s : State ι K} {w w' : Memory K} {φ : ι → Stage K} {i : ι} {stage stage' : Stage K}

/-- The map, and whatever was read of it, are functions of the reports taken before. -/
structure Kept (c : Controller) (w : Memory K) : Prop where
  nodes : ∀ name, w.nodes.lookup name = (reportsOf name w.history).getLast?
  logged : ∀ before now line after, w.history = before ++ .logged now line :: after →
    c.Describes now before line
  served : ∀ before nodes after, w.history = before ++ .served nodes :: after →
    ∀ name, nodes.lookup name = (reportsOf name before).getLast?

/-- What is added to the history may be a line or a status that was read of the map. -/
theorem Kept.concat (h : Kept c w) {x : Happening K}
    {nodes : Finmap fun _ : String ↦ NodeState K}
    (hnodes : ∀ name, nodes.lookup name = (reportsOf name (w.history ++ [x])).getLast?)
    (hlogged : ∀ now line, x = .logged now line → line = c.logCluster w.nodes now)
    (hserved : ∀ nodes, x = .served nodes → nodes = w.nodes) :
    Kept c ({ w with nodes := nodes }.add x) := by
  refine ⟨hnodes, fun before now line after heq ↦ ?_, fun before nodes' after heq ↦ ?_⟩
  · rcases concat_eq_split_iff.mp heq with ⟨rfl, hx, -⟩ | ⟨after', -, hsplit⟩
    · rw [hlogged now line hx.symm]
      exact describes_logCluster h.nodes
    · exact h.logged before now line after' hsplit
  · rcases concat_eq_split_iff.mp heq with ⟨rfl, hx, -⟩ | ⟨after', -, hsplit⟩
    · rw [hserved nodes' hx.symm]
      exact h.nodes
    · exact h.served before nodes' after' hsplit

/-- What leaves the map alone. -/
theorem Kept.add (h : Kept c w) {x : Happening K} (hx : ∀ name, x.reportOf name = none)
    (hlogged : ∀ now line, x = .logged now line → line = c.logCluster w.nodes now)
    (hserved : ∀ nodes, x = .served nodes → nodes = w.nodes) : Kept c (w.add x) := by
  refine h.concat (fun name ↦ ?_) hlogged hserved
  rw [reportsOf_concat, hx, Option.toList_none, List.append_nil]
  exact h.nodes name

theorem Kept.trans (h : Kept c w) (ht : Trans c w stage w' stage') : Kept c w' := by
  cases ht with
  | now => exact h
  | report st =>
      refine h.concat (fun name ↦ ?_) nofun nofun
      rw [reportsOf_reported]
      by_cases hname : nodeKey st.snapshot = name
      · rw [if_pos hname, ← hname, Finmap.lookup_insert, List.getLast?_append,
          List.getLast?_singleton]
        rfl
      · rw [if_neg hname, Finmap.lookup_insert_of_ne _ (Ne.symm hname), List.append_nil]
        exact h.nodes name
  | remediate s => exact h.add (fun _ ↦ rfl) nofun nofun
  | log t =>
      refine h.add (fun _ ↦ rfl) (fun now line heq ↦ ?_) nofun
      cases heq
      rfl
  | serve =>
      refine h.add (fun _ ↦ rfl) nofun fun nodes heq ↦ ?_
      cases heq
      rfl
  | respond status body => exact h.add (fun _ ↦ rfl) nofun nofun

theorem Kept.run (h : (c.system pace).Reachable (State.fresh clock) s) : Kept c s.world := by
  refine (invariant_run (G := fun w _ ↦ Kept c w) ?_ ?_ ?_ h).global
  · intro w φ i w' stage hG ht
    exact hG.trans ht
  · intro w φ t hG _ _
    exact ⟨hG.nodes, hG.logged, hG.served⟩
  · exact ⟨fun _ ↦ rfl, by simp, by simp⟩

/-- However the handlers interleave, the controller keeps the last report of each node in the
order of the lock; each line of the log counts every node once, by its last report, and lists
the contended ones by name; and a status is that map. -/
theorem cluster_run (h : (c.system pace).Reachable (State.fresh clock) s) :
    (∀ name, s.world.nodes.lookup name = (reportsOf name s.world.history).getLast?) ∧
    (∀ before now line after, s.world.history = before ++ .logged now line :: after →
      c.Describes now before line) ∧
    ∀ before nodes after, s.world.history = before ++ .served nodes :: after →
      ∀ name, nodes.lookup name = (reportsOf name before).getLast? :=
  ⟨(Kept.run h).nodes, (Kept.run h).logged, (Kept.run h).served⟩

theorem lateHandler_kept :
    lateHandler.world.nodes.lookup "a" = (reportsOf "a" lateHandler.world.history).getLast? ∧
      reportsOf "a" lateHandler.world.history = [⟨starvedNode 2, 0⟩, ⟨starvedNode 1, 0⟩] :=
  ⟨(cluster_run lateHandler_reachable).1 "a", rfl⟩

/-! ## What goes to the remediator -/

/-- What was taken and is due has been given to the remediator, or is on its way in a slot. -/
def Owed (c : Controller) (w : Memory K) (φ : ι → Stage K) : Prop :=
  ∃ l : List (ι × Snapshot K), (l.map Prod.fst).Nodup ∧
    (∀ i s, (i, s) ∈ l ↔ φ i = .owing s) ∧
    (due c w.history).Perm (remediations w.history ++ l.map Prod.snd)

omit [Field K] [LinearOrder K] in
/-- A slot that owes nothing does something else. -/
theorem Owed.of_idle (h : Owed c w φ) (hi : ∀ s, φ i ≠ .owing s) (hstage : ∀ s, stage ≠ .owing s)
    (hdue : due c w'.history = due c w.history)
    (hgiven : remediations w'.history = remediations w.history) :
    Owed c w' (update φ i stage) := by
  obtain ⟨l, hnodup, hl, hperm⟩ := h
  refine ⟨l, hnodup, ?_, by rwa [hdue, hgiven]⟩
  exact (Function.forall_update_iff φ fun j stage ↦ ∀ s, (j, s) ∈ l ↔ stage = .owing s).mpr
    ⟨fun s ↦ (hl i s).trans (iff_of_false (hi s) (hstage s)), fun j _ ↦ hl j⟩

omit [Field K] [LinearOrder K] in
/-- What is neither a report nor a remediation. -/
theorem Owed.add (h : Owed c w φ) {x : Happening K} (hi : ∀ s, φ i ≠ .owing s)
    (htaken : x.taken = none) (hgiven : x.given = none) :
    Owed c (w.add x) (update φ i .idle) := by
  refine h.of_idle hi nofun ?_ ?_
  · rw [Memory.add, due_concat, htaken, Option.toList_none, List.filter_nil, List.append_nil]
  · rw [Memory.add, remediations_concat, hgiven, Option.toList_none, List.append_nil]

omit [Field K] [LinearOrder K] in
/-- What is due from now on is on its way. -/
theorem Owed.owe (h : Owed c w φ) {s : Snapshot K} (hi : ∀ s, φ i ≠ .owing s)
    (hdue : due c w'.history = due c w.history ++ [s])
    (hgiven : remediations w'.history = remediations w.history) :
    Owed c w' (update φ i (.owing s)) := by
  obtain ⟨l, hnodup, hl, hperm⟩ := h
  have hfresh : ∀ s', (i, s') ∉ l := fun s' hmem ↦ hi s' ((hl i s').mp hmem)
  refine ⟨(i, s) :: l, List.nodup_cons.mpr ⟨?_, hnodup⟩, ?_, ?_⟩
  · intro hmem
    obtain ⟨⟨j, s'⟩, hjs, rfl⟩ := List.mem_map.mp hmem
    exact hfresh s' hjs
  · refine (Function.forall_update_iff φ fun j stage ↦
      ∀ s', (j, s') ∈ (i, s) :: l ↔ stage = .owing s').mpr ⟨fun s' ↦ ?_, fun j hj s' ↦ ?_⟩
    · simp [hfresh s', eq_comm]
    · simp [hj, hl]
  · rw [hdue, hgiven]
    refine (hperm.append_right _).trans (List.perm_append_comm.trans ?_)
    exact (List.perm_middle : (remediations w.history ++ s :: _).Perm _).symm

omit [Field K] [LinearOrder K] in
/-- What was on its way has been given. -/
theorem Owed.pay (h : Owed c w φ) {s : Snapshot K} (hi : φ i = .owing s)
    (hdue : due c w'.history = due c w.history)
    (hgiven : remediations w'.history = remediations w.history ++ [s]) :
    Owed c w' (update φ i .idle) := by
  obtain ⟨l, hnodup, hl, hperm⟩ := h
  obtain ⟨l₁, l₂, rfl⟩ := List.append_of_mem ((hl i s).mpr hi)
  rw [List.map_append, List.map_cons, List.nodup_middle, List.nodup_cons, ← List.map_append]
    at hnodup
  refine ⟨l₁ ++ l₂, hnodup.2, ?_, ?_⟩
  · refine (Function.forall_update_iff φ fun j stage ↦
      ∀ s', (j, s') ∈ l₁ ++ l₂ ↔ stage = .owing s').mpr ⟨fun s' ↦ ?_, fun j hj s' ↦ ?_⟩
    · exact ⟨fun hmem ↦ absurd (List.mem_map_of_mem hmem) hnodup.1, nofun⟩
    · rw [← hl]
      simp [hj]
  · rw [hdue, hgiven]
    refine hperm.trans ?_
    rw [List.map_append, List.map_cons, List.append_assoc, List.map_append]
    exact List.perm_middle.append_left _

theorem Owed.trans (h : Owed c w φ) (ht : Trans c w (φ i) w' stage') :
    Owed c w' (update φ i stage') := by
  generalize hstage : φ i = stage at ht
  have hidle : (∀ s, stage ≠ .owing s) → ∀ s, φ i ≠ .owing s := fun h s ↦ hstage ▸ h s
  cases ht with
  | now => exact h.of_idle (hidle nofun) nofun rfl rfl
  | report st =>
      have hdue := due_reported c (nodeKey st.snapshot) st w.history
      have hgiven : remediations (w.history ++ [.reported (nodeKey st.snapshot) st]) =
          remediations w.history := (remediations_concat _ _).trans (List.append_nil _)
      unfold Stage.ingested
      split_ifs at hdue ⊢
      · exact h.owe (hidle nofun) hdue hgiven
      · exact h.of_idle (hidle nofun) nofun (hdue.trans (List.append_nil _)) hgiven
  | remediate s =>
      exact h.pay hstage ((due_concat _ _ _).trans (List.append_nil _)) (remediations_concat _ _)
  | log t => exact h.add (hidle nofun) rfl rfl
  | serve => exact h.add (hidle nofun) rfl rfl
  | respond status body => exact h.add (hidle nofun) rfl rfl

/-- However the handlers interleave, the remediator is given nothing but the snapshots that were
taken and are not healthy, none of them twice, and all of them once every handler has returned. -/
theorem remediated_run (h : (c.system pace).Reachable (State.fresh clock) s) :
    (remediations s.world.history).Subperm (due c s.world.history) ∧
      (s.Quiet → (remediations s.world.history).Perm (due c s.world.history)) := by
  have hinv := invariant_run (G := Owed c) (fun hG ht ↦ hG.trans ht)
    (fun hG _ _ ↦ hG) ⟨[], .nil, by simp, .nil⟩ h
  obtain ⟨l, -, hl, hperm⟩ := hinv.global
  refine ⟨(List.sublist_append_left _ _).subperm.trans hperm.symm.subperm, fun hquiet ↦ ?_⟩
  have hnil : l = [] := by
    refine List.eq_nil_iff_forall_not_mem.mpr fun ⟨i, s'⟩ hmem ↦ ?_
    have howing := (hl i s').mp hmem
    rw [hinv.quiet hquiet i] at howing
    cases howing
  rw [hnil, List.map_nil, List.append_nil] at hperm
  exact hperm.symm

theorem lateHandler_remediated : (remediations lateHandler.world.history).Perm
    (due webController lateHandler.world.history) :=
  (remediated_run lateHandler_reachable).2 <|
    Configuration.quiet_of_isPure fun i ↦ by
      cases i
      · rfl
      · rfl

/-! ## Late handlers -/

/-- With handlers that wait no longer than `ℓ` for the lock: a report that was taken after another
one came at most `ℓ` before it. -/
structure Prompt (ℓ : ℕ) (w : Memory K) (φ : ι → Stage K) : Prop where
  waiting : ∀ i t, φ i = .stamped t → t ≤ w.clock ∧ w.clock ≤ t + ℓ
  past : ∀ name, ∀ st ∈ reportsOf name w.history, st.lastSeen ≤ w.clock
  order : ∀ name, (reportsOf name w.history).Pairwise fun st st' : NodeState K ↦
    st.lastSeen ≤ st'.lastSeen + ℓ

omit [Field K] [LinearOrder K] in
/-- A slot moves on. -/
theorem Prompt.waiting_update {ℓ : ℕ} (h : Prompt ℓ w φ)
    (hstage : ∀ t, stage = .stamped t → t ≤ w.clock ∧ w.clock ≤ t + ℓ) :
    ∀ j t, update φ i stage j = .stamped t → t ≤ w.clock ∧ w.clock ≤ t + ℓ :=
  (Function.forall_update_iff φ fun _ stage ↦
    ∀ t, stage = .stamped t → t ≤ w.clock ∧ w.clock ≤ t + ℓ).mpr ⟨hstage, fun j _ ↦ h.waiting j⟩

omit [Field K] [LinearOrder K] in
/-- What is not a report. -/
theorem Prompt.add {ℓ : ℕ} (h : Prompt ℓ w φ) {x : Happening K} (hx : ∀ name, x.reportOf name = none)
    (hstage : ∀ t, stage ≠ .stamped t) : Prompt ℓ (w.add x) (update φ i stage) := by
  have hreports : ∀ name, reportsOf name (w.add x).history = reportsOf name w.history := fun name ↦ by
    rw [Memory.add, reportsOf_concat, hx, Option.toList_none, List.append_nil]
  exact ⟨h.waiting_update fun t ht ↦ absurd ht (hstage t), fun name ↦ hreports name ▸ h.past name,
    fun name ↦ hreports name ▸ h.order name⟩

theorem Prompt.trans {ℓ : ℕ} (h : Prompt ℓ w φ) (ht : Trans c w (φ i) w' stage') :
    Prompt ℓ w' (update φ i stage') := by
  generalize hstage : φ i = stage at ht
  cases ht with
  | now =>
      refine ⟨h.waiting_update fun t ht ↦ ?_, h.past, h.order⟩
      cases ht
      exact ⟨le_rfl, le_add_of_nonneg_right (Int.natCast_nonneg ℓ)⟩
  | report st =>
      obtain ⟨hpast, hlate⟩ := h.waiting i _ hstage
      refine ⟨h.waiting_update fun t ht ↦ ?_, fun name st' hst' ↦ ?_, fun name ↦ ?_⟩
      · rw [Stage.ingested] at ht
        split_ifs at ht
      · rw [Memory.add, reportsOf_reported, List.mem_append] at hst'
        rcases hst' with hst' | hst'
        · exact h.past name st' hst'
        · split_ifs at hst'
          · rw [List.mem_singleton.mp hst']
            exact hpast
          · cases hst'
      · rw [Memory.add, reportsOf_reported]
        split_ifs
        · refine List.pairwise_append.mpr ⟨h.order name, List.pairwise_singleton _ _, ?_⟩
          intro st' hst' st'' hst''
          rw [List.mem_singleton.mp hst'']
          exact (h.past name st' hst').trans hlate
        · rw [List.append_nil]
          exact h.order name
  | remediate s => exact h.add (fun _ ↦ rfl) nofun
  | log t => exact h.add (fun _ ↦ rfl) nofun
  | serve => exact h.add (fun _ ↦ rfl) nofun
  | respond status body => exact h.add (fun _ ↦ rfl) nofun

theorem Prompt.run {ℓ : ℕ}
    (h : (c.system fun t₀ t ↦ t ≤ t₀ + ℓ).Reachable (State.fresh clock) s) :
    Prompt ℓ s.world s.phase := by
  refine (invariant_run (fun hG ht ↦ hG.trans ht) ?_ ⟨nofun, fun _ ↦ nofun, fun _ ↦ .nil⟩ h).global
  intro w φ t hG hclock hpace
  refine ⟨fun i t₀ hi ↦ ⟨(hG.waiting i t₀ hi).1.trans hclock, hpace i t₀ hi⟩, ?_, hG.order⟩
  exact fun name st hst ↦ (hG.past name st hst).trans hclock

omit [Field K] [LinearOrder K] [DecidableEq ι] in
/-- The last report of a node that was taken came at most `ℓ` before any other. -/
theorem Prompt.le_last {ℓ : ℕ} (h : Prompt ℓ w φ) {before rest : List (Happening K)}
    (hsplit : w.history = before ++ rest) {name : String} {st st' : NodeState K}
    (hlast : (reportsOf name before).getLast? = some st) (hst' : st' ∈ reportsOf name before) :
    st'.lastSeen ≤ st.lastSeen + ℓ := by
  have horder := h.order name
  rw [hsplit, reportsOf, List.filterMap_append] at horder
  have hbefore := (List.pairwise_append.mp horder).1
  obtain ⟨reports, hreports⟩ := List.getLast?_eq_some_iff.mp hlast
  rw [← reportsOf, hreports] at hbefore
  rw [hreports] at hst'
  rcases List.mem_append.mp hst' with hst' | hst'
  · exact (List.pairwise_append.mp hbefore).2.2 st' hst' st (List.mem_singleton_self _)
  · rw [List.mem_singleton.mp hst']
    exact le_add_of_nonneg_right (Int.natCast_nonneg ℓ)

/-- If no handler waits longer than `ℓ` for the lock, no node is counted as stale too early by
more than `ℓ`, and none too late: among those that are, are all nodes that were silent for
`staleAfter`, and none that was not silent for `staleAfter - ℓ`.  And what a line says of a
contended node is no older than its last report by more than `ℓ`. -/
theorem stale_run {ℓ : ℕ} (h : (c.system fun t₀ t ↦ t ≤ t₀ + ℓ).Reachable (State.fresh clock) s)
    {before after : List (Happening K)} {now : Time} {line : ClusterLine K}
    (hsplit : s.world.history = before ++ .logged now line :: after) :
    {n ∈ reporters before | ∀ st ∈ reportsOf n before, c.staleAfter < now - st.lastSeen}.card ≤
        line.stale ∧
      line.stale ≤ {n ∈ reporters before |
        ∀ st ∈ reportsOf n before, c.staleAfter < now - st.lastSeen + ℓ}.card ∧
      ∀ n detail, (n, detail) ∈ line.hot → ∃ st ∈ reportsOf n before,
        detail = summarize st.snapshot ∧ ∀ st' ∈ reportsOf n before, st'.lastSeen ≤ st.lastSeen + ℓ := by
  have hline := (Kept.run h).logged before now line after hsplit
  have hprompt := Prompt.run h
  rw [hline.stale]
  refine ⟨Finset.card_le_card fun n hn ↦ ?_, Finset.card_le_card fun n hn ↦ ?_,
    fun n detail hmem ↦ ?_⟩
  · obtain ⟨hreporter, hsilent⟩ := Finset.mem_filter.mp hn
    refine Finset.mem_filter.mpr ⟨hreporter, standingOf_eq_stale_iff.mpr ?_⟩
    obtain ⟨st, hst⟩ := Option.ne_none_iff_exists'.mp
      (mt List.getLast?_eq_none_iff.mp (mem_reporters.mp hreporter))
    exact ⟨st, hst, hsilent st (List.mem_of_getLast? hst)⟩
  · obtain ⟨hreporter, hstale⟩ := Finset.mem_filter.mp hn
    obtain ⟨st, hst, hlate⟩ := standingOf_eq_stale_iff.mp hstale
    refine Finset.mem_filter.mpr ⟨hreporter, fun st' hst' ↦ ?_⟩
    have hle := hprompt.le_last hsplit hst hst'
    linarith
  · obtain ⟨st, hst, hdetail⟩ := Option.map_eq_some_iff.mp ((hline.mem_hot n detail).mp hmem)
    exact ⟨st, List.mem_of_getLast? hst, (standing_eq_contended hdetail).symm,
      fun st' hst' ↦ hprompt.le_last hsplit hst hst'⟩

theorem lateHandler_fresh : ∃ before now line, lateHandler.world.history =
    before ++ [.logged now line] ∧ ∀ n detail, (n, detail) ∈ line.hot →
      ∃ st ∈ reportsOf n before, detail = summarize st.snapshot :=
  have hsplit : lateHandler.world.history =
      lateHandler.world.history.take 6 ++ [.logged 10 (webController.logCluster _ 10)] := rfl
  ⟨_, _, _, hsplit, fun n detail hmem ↦
    have ⟨st, hst, hdetail, _⟩ := (stale_run lateHandler_reachable hsplit).2.2 n detail hmem
    ⟨st, hst, hdetail⟩⟩

end Run

end Controller
