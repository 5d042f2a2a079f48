import Mathlib

/-!
# The watcher of the cgroup tree

`watcher.go` against a tree in which directories come and go.  A watch reports what is made in
its directory and nothing below; so the walk that adds the watches runs against the kernel,
and a directory must not slip through between the watch of its parent and the listing of it.
The loop of `Run` coalesces what is reported into calls of `onChange`.

A directory that exists is watched, or is on its way to be (`Covered`); from which one that is
made is noticed sooner or later (`Noticed`).
-/

/-- A directory below the root: its names, the last one first. -/
abbrev Dir := List String

/-- `debounceWindow`, in milliseconds. -/
def debounceWindow : ℕ := 500

/-- What inotify reports. -/
inductive FsEvent where
  /-- A directory has been made in a watched one. -/
  | create (d : Dir)
  | other
deriving Repr, DecidableEq

/-- What is left of a walk. -/
inductive Visit where
  /-- `w.fsw.Add`, if the directory is still there. -/
  | enter (d : Dir)
  /-- `ReadDir`, after which its children are entered. -/
  | list (d : Dir)
deriving Repr, DecidableEq

/-- The tree, the watches with the events that are to be read, and the goroutine of `Run`.
`calls` and `made` are its history. -/
structure Watcher where
  tree : List Dir
  watched : List Dir := []
  queue : List FsEvent := []
  /-- The walk of `addRecursive` that is under way, from `NewWatcher` at first. -/
  walk : List Visit := [.enter []]
  /-- An event has been received, and the timer not been set yet. -/
  handling : Bool := false
  clock : ℕ
  /-- When the timer goes off. -/
  timer : Option ℕ := none
  /-- When `onChange` was called. -/
  calls : List ℕ := []
  /-- What has been made since the last call, the first walk being over. -/
  made : List Dir := []
deriving DecidableEq

/-- The directories in a directory. -/
def children (tree : List Dir) (d : Dir) : List Dir :=
  tree.filter fun
    | [] => false
    | _ :: parent => parent = d

namespace Watcher

/-- What happens. -/
inductive Act where
  | tick (d : ℕ)
  | mkdir (name : String) (parent : Dir)
  | rmdir (name : String) (parent : Dir)
  /-- An event of a file. -/
  | touch
  /-- The next step of the walk. -/
  | walk
  /-- `case e, ok := <-w.fsw.Events` -/
  | receive
  /-- `time.NewTimer` or `timer.Reset` -/
  | arm
  /-- `case <-fire` -/
  | fire
deriving Repr, DecidableEq

variable (s : Watcher)

/-- What a directory reports that is watched. -/
def report (parent : Dir) (e : FsEvent) : List FsEvent :=
  if parent ∈ s.watched then s.queue ++ [e] else s.queue

/-- One step; `none` where it is not its turn. -/
def step : Act → Option Watcher
  | .tick d => some { s with clock := s.clock + d }
  | .mkdir name parent =>
      if parent ∈ s.tree ∧ name :: parent ∉ s.tree then
        some { s with
          tree := (name :: parent) :: s.tree
          queue := s.report parent (.create (name :: parent))
          made := if s.walk = [] ∨ s.handling then (name :: parent) :: s.made else s.made }
      else none
  | .rmdir name parent =>
      if children s.tree (name :: parent) = [] then
        some { s with
          tree := s.tree.filter (· ≠ name :: parent)
          watched := s.watched.filter (· ≠ name :: parent)
          queue := s.report parent .other }
      else none
  | .touch => some { s with queue := s.queue ++ [.other] }
  | .walk =>
      match s.walk with
      | [] => none
      | .enter d :: walk =>
          if d ∈ s.tree then some { s with watched := d :: s.watched, walk := .list d :: walk }
          else some { s with walk }
      | .list d :: walk => some { s with walk := (children s.tree d).map .enter ++ walk }
  | .receive =>
      if s.walk = [] ∧ s.handling = false then
        match s.queue with
        | [] => none
        | .create d :: queue =>
            some { s with queue, handling := true, walk := if d ∈ s.tree then [.enter d] else [] }
        | .other :: queue => some { s with queue, handling := true }
      else none
  | .arm =>
      if s.walk = [] ∧ s.handling = true then
        some { s with handling := false, timer := some (s.clock + debounceWindow) }
      else none
  | .fire =>
      if s.walk = [] ∧ s.handling = false then
        match s.timer with
        | none => none
        | some t =>
            if t ≤ s.clock then
              some { s with timer := none, calls := s.calls ++ [s.clock], made := [] }
            else none
      else none

/-- The steps of the kernel and of the goroutine. -/
def Step (s s' : Watcher) : Prop := ∃ a, s.step a = some s'

/-- What a step does. -/
inductive Trans (s : Watcher) : Watcher → Prop
  | tick (d : ℕ) : Trans s { s with clock := s.clock + d }
  | mkdir {name : String} {parent : Dir} (hparent : parent ∈ s.tree)
      (hnew : name :: parent ∉ s.tree) : Trans s { s with
        tree := (name :: parent) :: s.tree
        queue := s.report parent (.create (name :: parent))
        made := if s.walk = [] ∨ s.handling then (name :: parent) :: s.made else s.made }
  | rmdir {name : String} {parent : Dir} (hempty : children s.tree (name :: parent) = []) :
      Trans s { s with
        tree := s.tree.filter (· ≠ name :: parent)
        watched := s.watched.filter (· ≠ name :: parent)
        queue := s.report parent .other }
  | touch : Trans s { s with queue := s.queue ++ [.other] }
  | enter {d : Dir} {walk : List Visit} (hwalk : s.walk = .enter d :: walk) (hd : d ∈ s.tree) :
      Trans s { s with watched := d :: s.watched, walk := .list d :: walk }
  | gone {d : Dir} {walk : List Visit} (hwalk : s.walk = .enter d :: walk) (hd : d ∉ s.tree) :
      Trans s { s with walk }
  | list {d : Dir} {walk : List Visit} (hwalk : s.walk = .list d :: walk) :
      Trans s { s with walk := (children s.tree d).map .enter ++ walk }
  | created {d : Dir} {queue : List FsEvent} (hwalk : s.walk = []) (hidle : s.handling = false)
      (hqueue : s.queue = .create d :: queue) :
      Trans s { s with queue, handling := true, walk := if d ∈ s.tree then [.enter d] else [] }
  | other {queue : List FsEvent} (hwalk : s.walk = []) (hidle : s.handling = false)
      (hqueue : s.queue = .other :: queue) : Trans s { s with queue, handling := true }
  | arm (hwalk : s.walk = []) (hhandling : s.handling = true) :
      Trans s { s with handling := false, timer := some (s.clock + debounceWindow) }
  | fire {t : ℕ} (hwalk : s.walk = []) (hidle : s.handling = false) (htimer : s.timer = some t)
      (ht : t ≤ s.clock) :
      Trans s { s with timer := none, calls := s.calls ++ [s.clock], made := [] }

theorem trans_of_step {s s' : Watcher} {a : Act} (h : s.step a = some s') : s.Trans s' := by
  cases a with
  | tick d =>
      cases h
      exact .tick d
  | mkdir name parent =>
      obtain ⟨hc, h⟩ := Option.ite_none_right_eq_some.mp h
      cases h
      exact .mkdir hc.1 hc.2
  | rmdir name parent =>
      obtain ⟨hempty, h⟩ := Option.ite_none_right_eq_some.mp h
      cases h
      exact .rmdir hempty
  | touch =>
      cases h
      exact .touch
  | walk =>
      rw [step] at h
      split at h
      · cases h
      · next d walk hwalk =>
          split_ifs at h with hd
          · cases h
            exact .enter hwalk hd
          · cases h
            exact .gone hwalk hd
      · next d walk hwalk =>
          cases h
          exact .list hwalk
  | receive =>
      obtain ⟨hc, h⟩ := Option.ite_none_right_eq_some.mp h
      split at h
      · cases h
      · next d queue hqueue =>
          cases h
          exact .created hc.1 hc.2 hqueue
      · next queue hqueue =>
          cases h
          exact .other hc.1 hc.2 hqueue
  | arm =>
      obtain ⟨hc, h⟩ := Option.ite_none_right_eq_some.mp h
      cases h
      exact .arm hc.1 hc.2
  | fire =>
      obtain ⟨hc, h⟩ := Option.ite_none_right_eq_some.mp h
      split at h
      · cases h
      · next t htimer =>
          obtain ⟨ht, h⟩ := Option.ite_none_right_eq_some.mp h
          cases h
          exact .fire hc.1 hc.2 htimer ht

/-- A watcher that has just been made. -/
def init (tree : List Dir) (clock : ℕ) : Watcher := { tree, clock }

/-- What a list of steps leads to can be reached. -/
theorem reach_of_foldlM {s s' : Watcher} {acts : List Act} (h : acts.foldlM step s = some s') :
    Relation.ReflTransGen Step s s' := by
  induction acts generalizing s with
  | nil =>
      cases h
      exact .refl
  | cons a acts ih =>
      rw [List.foldlM_cons] at h
      obtain ⟨s₁, ha, hrest⟩ := Option.bind_eq_some_iff.mp h
      exact .head ⟨a, ha⟩ (ih hrest)

/-- A pod comes with its container while the loop is at work; the container's directory is made
before that of the pod is watched. -/
def podComes : List Act :=
  [.walk, .walk, .mkdir "pod" [], .receive, .mkdir "app" ["pod"], .walk, .walk, .walk, .walk, .arm,
    .tick 500, .fire]

/-- What it leads to. -/
def podWatched : Watcher where
  tree := [["app", "pod"], ["pod"], []]
  watched := [["app", "pod"], ["pod"], []]
  walk := []
  clock := 500
  calls := [500]

theorem podComes_run : podComes.foldlM step (init [[]] 0) = some podWatched := by decide +kernel

end Watcher

/-! ## Coverage -/

section Coverage

variable {s : Watcher} {d : Dir}

theorem mem_children {tree : List Dir} {c : Dir} :
    c ∈ children tree d ↔ c ∈ tree ∧ ∃ name, c = name :: d := by
  rw [children, List.mem_filter]
  cases c with
  | nil => simp
  | cons name parent => simp

namespace Watcher

/-- The directory is on its way to be watched. -/
def Pending (s : Watcher) (d : Dir) : Prop :=
  .enter d ∈ s.walk ∨ .create d ∈ s.queue ∨ ∃ name parent, d = name :: parent ∧ .list parent ∈ s.walk

/-- A directory is watched or on its way, or its parent is not watched itself. -/
structure Covered (s : Watcher) : Prop where
  root : [] ∈ s.tree
  closed : ∀ name parent, name :: parent ∈ s.tree → parent ∈ s.tree
  cover : ∀ d ∈ s.tree, d ∈ s.watched ∨ s.Pending d ∨ ∃ name parent, d = name :: parent ∧ parent ∉ s.watched

theorem covered_init {tree : List Dir} (hroot : [] ∈ tree)
    (hclosed : ∀ name parent, name :: parent ∈ tree → parent ∈ tree) (clock : ℕ) :
    (init tree clock).Covered where
  root := hroot
  closed := hclosed
  cover d _ := by
    cases d with
    | nil => exact .inr (.inl (.inl (.head _)))
    | cons name parent => exact .inr (.inr ⟨name, parent, rfl, nofun⟩)

/-- What is pending stays so when nothing of it is dealt with. -/
theorem Pending.mono {s' : Watcher} (h : s.Pending d) (hwalk : ∀ v ∈ s.walk, v ∈ s'.walk)
    (hqueue : ∀ e ∈ s.queue, e ∈ s'.queue) : s'.Pending d := by
  rcases h with h | h | ⟨name, parent, rfl, h⟩
  · exact .inl (hwalk _ h)
  · exact .inr (.inl (hqueue _ h))
  · exact .inr (.inr ⟨name, parent, rfl, hwalk _ h⟩)

theorem mem_report {parent : Dir} {e e' : FsEvent} (h : e ∈ s.queue) : e ∈ s.report parent e' := by
  unfold report
  split_ifs
  · exact List.mem_append_left _ h
  · exact h

theorem Covered.mkdir (h : s.Covered) {name : String} {parent : Dir} {made : List Dir}
    (hparent : parent ∈ s.tree) : ({ s with
      tree := (name :: parent) :: s.tree
      queue := s.report parent (.create (name :: parent))
      made } : Watcher).Covered where
  root := .tail _ h.root
  closed name' parent' hmem := by
    rcases List.mem_cons.mp hmem with heq | hmem
    · obtain ⟨-, rfl⟩ := List.cons.inj heq
      exact .tail _ hparent
    · exact .tail _ (h.closed name' parent' hmem)
  cover d hd := by
    rcases List.mem_cons.mp hd with rfl | hd
    · by_cases hw : parent ∈ s.watched
      · refine .inr (.inl (.inr (.inl ?_)))
        change _ ∈ s.report parent _
        rw [report, if_pos hw]
        simp
      · exact .inr (.inr ⟨name, parent, rfl, hw⟩)
    · rcases h.cover d hd with hw | hp | hu
      · exact .inl hw
      · exact .inr (.inl (hp.mono (fun _ hv ↦ hv) fun _ he ↦ mem_report he))
      · exact .inr (.inr hu)

theorem Covered.rmdir (h : s.Covered) {name : String} {parent : Dir}
    (hempty : children s.tree (name :: parent) = []) : ({ s with
      tree := s.tree.filter (· ≠ name :: parent)
      watched := s.watched.filter (· ≠ name :: parent)
      queue := s.report parent .other } : Watcher).Covered := by
  have hchild : ∀ name', name' :: name :: parent ∉ s.tree := fun name' hmem ↦ by
    have hc := mem_children.mpr ⟨hmem, name', rfl⟩
    rw [hempty] at hc
    cases hc
  have hkeep : ∀ {l : List Dir} {d}, d ∈ l.filter (· ≠ name :: parent) ↔ d ∈ l ∧ d ≠ name :: parent := by
    simp
  refine ⟨hkeep.mpr ⟨h.root, nofun⟩, fun name' parent' hmem ↦ ?_, fun d hd ↦ ?_⟩
  · obtain ⟨hmem, -⟩ := hkeep.mp hmem
    refine hkeep.mpr ⟨h.closed name' parent' hmem, ?_⟩
    rintro rfl
    exact hchild name' hmem
  · obtain ⟨hd, hne⟩ := hkeep.mp hd
    rcases h.cover d hd with hw | hp | ⟨name', parent', rfl, hu⟩
    · exact .inl (hkeep.mpr ⟨hw, hne⟩)
    · exact .inr (.inl (hp.mono (fun _ hv ↦ hv) fun _ he ↦ mem_report he))
    · exact .inr (.inr ⟨name', parent', rfl, fun hw ↦ hu (hkeep.mp hw).1⟩)

/-- The directory is watched from now on; its children are to be listed. -/
theorem Covered.enter (h : s.Covered) {walk : List Visit} (hwalk : s.walk = .enter d :: walk) :
    ({ s with watched := d :: s.watched, walk := .list d :: walk } : Watcher).Covered := by
  refine ⟨h.root, h.closed, fun c hc ↦ ?_⟩
  have hvisit : ∀ v ∈ s.walk, v = .enter d ∨ v ∈ Visit.list d :: walk := fun v hv ↦ by
    rw [hwalk] at hv
    exact (List.mem_cons.mp hv).imp_right (.tail _)
  rcases h.cover c hc with hw | hp | ⟨name, parent, rfl, hu⟩
  · exact .inl (.tail _ hw)
  · rcases hp with hp | hp | ⟨name, parent, rfl, hp⟩
    · rcases hvisit _ hp with he | hp
      · cases he
        exact .inl (.head _)
      · exact .inr (.inl (.inl hp))
    · exact .inr (.inl (.inr (.inl hp)))
    · rcases hvisit _ hp with he | hp
      · cases he
      · exact .inr (.inl (.inr (.inr ⟨name, parent, rfl, hp⟩)))
  · by_cases hd : parent = d
    · -- what was below an unwatched directory is found by the listing
      subst hd
      exact .inr (.inl (.inr (.inr ⟨name, parent, rfl, .head _⟩)))
    · refine .inr (.inr ⟨name, parent, rfl, fun hw ↦ ?_⟩)
      exact (List.mem_cons.mp hw).elim hd hu

/-- A directory that is gone needs no watch. -/
theorem Covered.gone (h : s.Covered) {walk : List Visit} (hwalk : s.walk = .enter d :: walk)
    (hd : d ∉ s.tree) : ({ s with walk } : Watcher).Covered := by
  refine ⟨h.root, h.closed, fun c hc ↦ ?_⟩
  have hvisit : ∀ v ∈ s.walk, v = .enter d ∨ v ∈ walk := fun v hv ↦ by
    rw [hwalk] at hv
    exact List.mem_cons.mp hv
  rcases h.cover c hc with hw | hp | hu
  · exact .inl hw
  · refine .inr (.inl ?_)
    rcases hp with hp | hp | ⟨name, parent, rfl, hp⟩
    · rcases hvisit _ hp with he | hp
      · cases he
        exact absurd hc hd
      · exact .inl hp
    · exact .inr (.inl hp)
    · rcases hvisit _ hp with he | hp
      · cases he
      · exact .inr (.inr ⟨name, parent, rfl, hp⟩)
  · exact .inr (.inr hu)

/-- The children that are there are to be entered. -/
theorem Covered.list (h : s.Covered) {walk : List Visit} (hwalk : s.walk = .list d :: walk) :
    ({ s with walk := (children s.tree d).map .enter ++ walk } : Watcher).Covered := by
  refine ⟨h.root, h.closed, fun c hc ↦ ?_⟩
  have hvisit : ∀ v ∈ s.walk, v = .list d ∨ v ∈ (children s.tree d).map Visit.enter ++ walk :=
    fun v hv ↦ by
      rw [hwalk] at hv
      exact (List.mem_cons.mp hv).imp_right (List.mem_append_right _)
  rcases h.cover c hc with hw | hp | hu
  · exact .inl hw
  · refine .inr (.inl ?_)
    rcases hp with hp | hp | ⟨name, parent, rfl, hp⟩
    · rcases hvisit _ hp with he | hp
      · cases he
      · exact .inl hp
    · exact .inr (.inl hp)
    · rcases hvisit _ hp with he | hp
      · cases he
        refine .inl (List.mem_append_left _ (List.mem_map_of_mem ?_))
        exact mem_children.mpr ⟨hc, name, rfl⟩
      · exact .inr (.inr ⟨name, parent, rfl, hp⟩)
  · exact .inr (.inr hu)

/-- The event of a directory is received: it is walked, if it is still there. -/
theorem Covered.receive (h : s.Covered) {e : FsEvent} {queue : List FsEvent}
    (hwalk : s.walk = []) (hqueue : s.queue = e :: queue) {walk : List Visit} {handling : Bool}
    (hcreate : ∀ d ∈ s.tree, e = .create d → .enter d ∈ walk) :
    ({ s with queue, handling, walk } : Watcher).Covered := by
  refine ⟨h.root, h.closed, fun c hc ↦ ?_⟩
  rcases h.cover c hc with hw | hp | hu
  · exact .inl hw
  · refine .inr (.inl ?_)
    rcases hp with hp | hp | ⟨name, parent, rfl, hp⟩
    · rw [hwalk] at hp
      cases hp
    · rw [hqueue] at hp
      rcases List.mem_cons.mp hp with he | hp
      · exact .inl (hcreate c hc he.symm)
      · exact .inr (.inl hp)
    · rw [hwalk] at hp
      cases hp
  · exact .inr (.inr hu)

/-- Coverage depends on the tree, the watches and what is under way. -/
theorem Covered.congr {s' : Watcher} (h : s.Covered) (htree : s'.tree = s.tree)
    (hwatched : s'.watched = s.watched) (hwalk : s'.walk = s.walk)
    (hqueue : ∀ e ∈ s.queue, e ∈ s'.queue) : s'.Covered := by
  refine ⟨htree ▸ h.root, htree ▸ h.closed, fun d hd ↦ ?_⟩
  rw [htree] at hd
  rw [hwatched]
  rcases h.cover d hd with hw | hp | hu
  · exact .inl hw
  · exact .inr (.inl (hp.mono (fun v hv ↦ hwalk ▸ hv) hqueue))
  · exact .inr (.inr hu)

/-- Every step keeps the tree covered. -/
theorem Covered.trans (h : s.Covered) {s' : Watcher} (ht : s.Trans s') : s'.Covered := by
  cases ht with
  | tick d => exact h.congr rfl rfl rfl fun _ he ↦ he
  | mkdir hparent _ => exact h.mkdir hparent
  | rmdir hempty => exact h.rmdir hempty
  | touch => exact h.congr rfl rfl rfl fun _ he ↦ List.mem_append_left _ he
  | enter hwalk _ => exact h.enter hwalk
  | gone hwalk hd => exact h.gone hwalk hd
  | list hwalk => exact h.list hwalk
  | created hwalk _ hqueue =>
      refine h.receive hwalk hqueue fun d' hd he ↦ ?_
      cases he
      rw [if_pos hd]
      exact .head _
  | other hwalk _ hqueue => exact h.receive hwalk hqueue nofun
  | arm => exact h.congr rfl rfl rfl fun _ he ↦ he
  | fire => exact h.congr rfl rfl rfl fun _ he ↦ he

theorem covered_run {tree : List Dir} (hroot : [] ∈ tree)
    (hclosed : ∀ name parent, name :: parent ∈ tree → parent ∈ tree) {clock : ℕ}
    (h : Relation.ReflTransGen Step (init tree clock) s) : s.Covered := by
  induction h with
  | refl => exact covered_init hroot hclosed clock
  | tail _ hstep ih =>
      obtain ⟨a, ha⟩ := hstep
      exact ih.trans (trans_of_step ha)

/-- When the walk is done, a directory without a watch is below one whose event is to be read. -/
theorem Covered.exists_create (h : s.Covered) (hwalk : s.walk = []) (hd : d ∈ s.tree)
    (hw : d ∉ s.watched) : ∃ a, a <:+ d ∧ .create a ∈ s.queue := by
  have hpending : ∀ {d}, s.Pending d → .create d ∈ s.queue := fun hp ↦ by
    rcases hp with hp | hp | ⟨name, parent, rfl, hp⟩
    · rw [hwalk] at hp
      cases hp
    · exact hp
    · rw [hwalk] at hp
      cases hp
  induction d with
  | nil =>
      rcases h.cover [] hd with hw' | hp | ⟨name, parent, hnil, -⟩
      · exact absurd hw' hw
      · exact ⟨[], List.suffix_refl _, hpending hp⟩
      · cases hnil
  | cons name parent ih =>
      rcases h.cover _ hd with hw' | hp | ⟨name', parent', heq, hu⟩
      · exact absurd hw' hw
      · exact ⟨_, List.suffix_refl _, hpending hp⟩
      · obtain ⟨-, rfl⟩ := List.cons.inj heq
        obtain ⟨a, ha, hcreate⟩ := ih (h.closed name parent hd) hu
        exact ⟨a, ha.trans (List.suffix_cons name parent), hcreate⟩

end Watcher

end Coverage

/-! ## Calls -/

section Calls

namespace Watcher

variable {s : Watcher}

/-- A directory that has been made is on its way to be noticed. -/
structure Noticed (s : Watcher) : Prop where
  /-- Nothing is to be noticed before the first walk is over. -/
  first : s.walk ≠ [] → s.handling = false → s.made = []
  made : ∀ d ∈ s.made, d ∈ s.tree → s.handling = true ∨ s.timer.isSome = true ∨
    ∃ a, a <:+ d ∧ .create a ∈ s.queue

/-- The calls of `onChange` are apart, and the timer leaves room for one more. -/
structure Spaced (s : Watcher) : Prop where
  apart : s.calls.Pairwise fun t t' ↦ t + debounceWindow ≤ t'
  past : ∀ t ∈ s.calls, t ≤ s.clock
  timer : ∀ t ∈ s.timer, ∀ t' ∈ s.calls, t' + debounceWindow ≤ t

/-- What is to be read is still to be read after another report. -/
theorem exists_create_report {d parent : Dir} {e : FsEvent}
    (h : ∃ a, a <:+ d ∧ .create a ∈ s.queue) : ∃ a, a <:+ d ∧ .create a ∈ s.report parent e := by
  obtain ⟨a, ha, hq⟩ := h
  exact ⟨a, ha, mem_report hq⟩

/-- A new directory is reported, or below what will be walked. -/
theorem Covered.exists_create_mkdir (hc : s.Covered) {name : String} {parent : Dir}
    (hparent : parent ∈ s.tree) (hwalk : s.walk = []) : ∃ a, a <:+ name :: parent ∧
      .create a ∈ s.report parent (.create (name :: parent)) := by
  by_cases hw : parent ∈ s.watched
  · refine ⟨_, List.suffix_refl _, ?_⟩
    rw [report, if_pos hw]
    exact List.mem_append_right _ (.head _)
  · obtain ⟨a, ha, hq⟩ := hc.exists_create hwalk hparent hw
    exact ⟨a, ha.trans (List.suffix_cons name parent), mem_report hq⟩

theorem Noticed.mkdir (h : s.Noticed) (hc : s.Covered) {name : String} {parent : Dir}
    (hparent : parent ∈ s.tree) : ({ s with
      tree := (name :: parent) :: s.tree
      queue := s.report parent (.create (name :: parent))
      made := if s.walk = [] ∨ s.handling then (name :: parent) :: s.made else s.made } :
        Watcher).Noticed := by
  by_cases hidle : s.walk = [] ∨ s.handling = true
  · have hself : s.handling = true ∨ s.timer.isSome = true ∨
        ∃ a, a <:+ name :: parent ∧ .create a ∈ s.report parent (.create (name :: parent)) :=
      hidle.elim (fun hwalk ↦ .inr (.inr (hc.exists_create_mkdir hparent hwalk))) .inl
    rw [if_pos hidle]
    refine ⟨fun hwalk hhandling ↦ ?_, fun d hd htree ↦ ?_⟩
    · rcases hidle with h' | h'
      · exact absurd h' hwalk
      · exact Bool.noConfusion (h'.symm.trans hhandling)
    · rcases List.mem_cons.mp htree with rfl | htree
      · exact hself
      · rcases List.mem_cons.mp hd with rfl | hd
        · exact hself
        · exact (h.made d hd htree).imp_right (Or.imp_right exists_create_report)
  · obtain ⟨hwalk, hhandling⟩ := not_or.mp hidle
    have hnone := h.first hwalk (Bool.eq_false_iff.mpr hhandling)
    rw [if_neg hidle, hnone]
    exact ⟨fun _ _ ↦ rfl, nofun⟩

theorem Noticed.trans (h : s.Noticed) (hc : s.Covered) {s' : Watcher} (ht : s.Trans s') :
    s'.Noticed := by
  cases ht with
  | tick d => exact ⟨h.first, h.made⟩
  | mkdir hparent _ => exact h.mkdir hc hparent
  | rmdir hempty =>
      refine ⟨h.first, fun d hd htree ↦ ?_⟩
      exact (h.made d hd (List.mem_filter.mp htree).1).imp_right (Or.imp_right exists_create_report)
  | touch =>
      refine ⟨h.first, fun d hd htree ↦ (h.made d hd htree).imp_right (Or.imp_right ?_)⟩
      rintro ⟨a, ha, hq⟩
      exact ⟨a, ha, List.mem_append_left _ hq⟩
  | enter hwalk _ => exact ⟨fun _ ↦ h.first (hwalk ▸ List.cons_ne_nil _ _), h.made⟩
  | gone hwalk _ => exact ⟨fun _ ↦ h.first (hwalk ▸ List.cons_ne_nil _ _), h.made⟩
  | list hwalk => exact ⟨fun _ ↦ h.first (hwalk ▸ List.cons_ne_nil _ _), h.made⟩
  | created => exact ⟨fun _ ↦ nofun, fun _ _ _ ↦ .inl rfl⟩
  | other => exact ⟨fun _ ↦ nofun, fun _ _ _ ↦ .inl rfl⟩
  | arm hwalk _ => exact ⟨fun hw ↦ absurd hwalk hw, fun _ _ _ ↦ .inr (.inl rfl)⟩
  | fire => exact ⟨fun _ _ ↦ rfl, nofun⟩

theorem Spaced.trans (h : s.Spaced) {s' : Watcher} (ht : s.Trans s') : s'.Spaced := by
  cases ht with
  | tick d => exact ⟨h.apart, fun t ht ↦ (h.past t ht).trans (Nat.le_add_right _ _), h.timer⟩
  | arm =>
      refine ⟨h.apart, h.past, fun t ht t' ht' ↦ ?_⟩
      cases ht
      exact Nat.add_le_add_right (h.past t' ht') _
  | fire _ _ htimer ht =>
      refine ⟨?_, fun t' ht' ↦ ?_, nofun⟩
      · refine List.pairwise_append.mpr ⟨h.apart, List.pairwise_singleton _ _, ?_⟩
        intro t' ht' t'' ht''
        rw [List.mem_singleton.mp ht'']
        exact (h.timer _ htimer t' ht').trans ht
      · rcases List.mem_append.mp ht' with ht' | ht'
        · exact h.past t' ht'
        · exact (List.mem_singleton.mp ht').le
  | _ => exact ⟨h.apart, h.past, h.timer⟩

end Watcher

end Calls
