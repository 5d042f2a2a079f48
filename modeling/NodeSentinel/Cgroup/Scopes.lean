import NodeSentinel.Cgroup.Lifecycle

/-!
# The scopes of containers

`scanCgroups` finds the container of a cgroup by the name of its directory, the lazy join by
the path in the event of its creation.  `scopeRe` reads both alike, as what it matches has no
slash in it; so a container has the same entry whichever of the two has found it.
-/

/-! ## What `scopeRe` matches -/

/-- The alternatives of the expression. -/
def scopePrefixes : List (List Char) :=
  ["cri-containerd-".toList, "crio-".toList, "docker-".toList]

/-- The text that is matched for a container. -/
def scopeText (runtime id : List Char) : List Char := runtime ++ (id ++ ".scope".toList)

/-- An ID: 64 lower-case hexadecimal digits. -/
def IsContainerID (id : List Char) : Prop :=
  id.length = 64 ∧ ∀ c ∈ id, NameResolver.isHex c = true

section ScopeRe

open NameResolver (isHex scopeRe)

variable {path id : List Char}

theorem scopeRe_eq_some_iff : scopeRe path = some id ↔ IsContainerID id ∧
    ∃ runtime ∈ scopePrefixes, ∃ before, path = before ++ scopeText runtime id := by
  unfold scopeRe
  dsimp only
  rw [Option.ite_none_right_eq_some]
  simp only [Bool.and_eq_true, List.isSuffixOf_iff_suffix, beq_iff_eq, List.all_eq_true,
    List.any_eq_true]
  constructor
  · rintro ⟨⟨⟨⟨⟨stem, hpath⟩, hlen⟩, hhex⟩, runtime, hr, before, hhead⟩, hid⟩
    have hstem : path.take (path.length - ".scope".toList.length) = stem := by
      rw [← hpath, List.length_append, Nat.add_sub_cancel]
      exact List.take_left
    rw [hstem] at hlen hhex hhead hid
    have hid := Option.some.inj hid
    rw [hid] at hlen hhex
    refine ⟨⟨hlen, hhex⟩, runtime, hr, before, ?_⟩
    have hsplit := List.take_append_drop (stem.length - 64) stem
    rw [hid, ← hhead] at hsplit
    rw [← hpath, ← hsplit, scopeText]
    simp only [List.append_assoc]
  · rintro ⟨⟨hlen, hhex⟩, runtime, hr, before, rfl⟩
    have hpath : before ++ scopeText runtime id = before ++ runtime ++ id ++ ".scope".toList := by
      rw [scopeText]
      simp only [List.append_assoc]
    have hstem : (before ++ runtime ++ id ++ ".scope".toList).take
        ((before ++ runtime ++ id ++ ".scope".toList).length - ".scope".toList.length) =
        before ++ runtime ++ id := by
      rw [List.length_append, Nat.add_sub_cancel]
      exact List.take_left
    have hcut : (before ++ runtime ++ id).length - 64 = (before ++ runtime).length := by
      rw [List.length_append, hlen, Nat.add_sub_cancel]
    rw [hpath, hstem, hcut, List.drop_left, List.take_left]
    exact ⟨⟨⟨⟨⟨_, rfl⟩, hlen⟩, hhex⟩, runtime, hr, before, rfl⟩, rfl⟩

theorem slash_notMem_scopeText {runtime : List Char} (hid : IsContainerID id)
    (hr : runtime ∈ scopePrefixes) : '/' ∉ scopeText runtime id := by
  have hruntime : ∀ runtime ∈ scopePrefixes, '/' ∉ runtime := by decide
  simp only [scopeText, List.mem_append, not_or]
  refine ⟨hruntime runtime hr, fun hmem ↦ ?_, by decide⟩
  exact absurd (hid.2 '/' hmem) (by decide)

/-- A text without slash that ends a path ends the last name of the path. -/
theorem suffix_name {before text dir name : List Char} (h : before ++ text = dir ++ '/' :: name)
    (htext : '/' ∉ text) : ∃ rest, name = rest ++ text := by
  rcases List.append_eq_append_iff.mp h with ⟨mid, hdir, htail⟩ | ⟨mid, hbefore, htail⟩
  · exact absurd (htail ▸ by simp) htext
  · cases mid with
    | nil =>
        rw [List.nil_append] at htail
        exact absurd (htail ▸ List.mem_cons_self) htext
    | cons c mid => exact ⟨mid, (List.cons.inj htail).2⟩

/-- The path of a directory names the container that its name does. -/
theorem scopeRe_path {dir name : List Char} : scopeRe (dir ++ '/' :: name) = scopeRe name := by
  refine Option.ext fun id ↦ ?_
  rw [scopeRe_eq_some_iff, scopeRe_eq_some_iff]
  refine and_congr_right fun hid ↦ exists_congr fun runtime ↦ and_congr_right fun hr ↦ ?_
  constructor
  · rintro ⟨before, h⟩
    exact suffix_name h.symm (slash_notMem_scopeText hid hr)
  · rintro ⟨before, rfl⟩
    exact ⟨dir ++ '/' :: before, by simp⟩

end ScopeRe

/-! ## The scan -/

/-- What the walk of the tree comes by, with the inode that `Stat` tells. -/
structure WalkEntry where
  path : List Char
  name : List Char
  isDir : Bool
  failed : Bool
  ino : Option ℕ
deriving Repr, DecidableEq

/-- The scope that an entry is. -/
def WalkEntry.scope (e : WalkEntry) : Option (String × CgroupScope) :=
  if e.failed || !e.isDir then none
  else
    match NameResolver.scopeRe e.name, e.ino with
    | some id, some ino => some (String.ofList id, ⟨ino, String.ofList e.path⟩)
    | _, _ => none

/-- `scanCgroups`, of what the walk comes by. -/
def scanCgroups (entries : List WalkEntry) : String → Option CgroupScope :=
  entries.foldl (fun out e ↦
    match e.scope with
    | none => out
    | some (id, sc) => Function.update out id (some sc)) fun _ ↦ none

/-- A directory is walked once: neither its ID nor its inode is that of another. -/
structure Scanned (entries : List WalkEntry) : Prop where
  ids : ∀ e ∈ entries, ∀ e' ∈ entries, ∀ id sc sc', e.scope = some (id, sc) →
    e'.scope = some (id, sc') → sc' = sc
  inodes : ∀ e ∈ entries, ∀ e' ∈ entries, ∀ id id' sc sc', e.scope = some (id, sc) →
    e'.scope = some (id', sc') → sc'.ino = sc.ino → id' = id

section Scan

variable {entries : List WalkEntry} {id : String} {sc : CgroupScope}

theorem mem_of_scanCgroups (h : scanCgroups entries id = some sc) :
    ∃ e ∈ entries, e.scope = some (id, sc) := by
  induction entries using List.reverseRecOn with
  | nil => cases h
  | append_singleton entries e ih =>
      rw [scanCgroups, List.foldl_append, ← scanCgroups, List.foldl_cons, List.foldl_nil] at h
      have hbefore : scanCgroups entries id = some sc → ∃ e' ∈ entries ++ [e], e'.scope = some (id, sc) :=
        fun h ↦ by
          obtain ⟨e', he', hs⟩ := ih h
          exact ⟨e', List.mem_append_left _ he', hs⟩
      cases hs : e.scope with
      | none =>
          rw [hs] at h
          exact hbefore h
      | some p =>
          obtain ⟨id', sc'⟩ := p
          rw [hs] at h
          by_cases hid : id = id'
          · subst hid
            have hsc : sc' = sc := by simpa using h
            exact ⟨e, by simp, hsc ▸ hs⟩
          · exact hbefore ((Function.update_of_ne hid _ _).symm.trans h)

theorem scanCgroups_eq (hwalk : Scanned entries) {e : WalkEntry} (he : e ∈ entries)
    (hs : e.scope = some (id, sc)) : scanCgroups entries id = some sc := by
  have hfound : (scanCgroups entries id).isSome := by
    clear hwalk
    induction entries using List.reverseRecOn with
    | nil => cases he
    | append_singleton entries e' ih =>
        rw [scanCgroups, List.foldl_append, ← scanCgroups, List.foldl_cons, List.foldl_nil]
        rcases List.mem_append.mp he with he | he
        · cases hs' : e'.scope with
          | none => exact ih he
          | some p =>
              obtain ⟨id', sc'⟩ := p
              by_cases hid : id = id'
              · subst hid
                simp
              · have := ih he
                simpa [hid] using this
        · obtain rfl := List.mem_singleton.mp he
          rw [hs]
          simp
  obtain ⟨sc', hsc⟩ := Option.isSome_iff_exists.mp hfound
  obtain ⟨e', he', hs'⟩ := mem_of_scanCgroups hsc
  rw [hsc, hwalk.ids e he e' he' id sc sc' hs hs']

end Scan

/-! ## The scan and the event -/

theorem WalkEntry.scopeRe_of_scope {e : WalkEntry} {id : String} {sc : CgroupScope}
    (h : e.scope = some (id, sc)) :
    ∃ text, NameResolver.scopeRe e.name = some text ∧ String.ofList text = id := by
  unfold scope at h
  split_ifs at h
  split at h
  · next text ino hre hino =>
      cases h
      exact ⟨text, hre, rfl⟩
  · cases h

/-- Where the lazy join records a binding, the runtime has answered for the container. -/
theorem NameResolver.status_of_join {r : NameResolver} {status : String → Option ContainerStatus}
    {cgroupID : ℕ} {path : String} {id : List Char} (hid : scopeRe path.toList = some id)
    (h : (r.resolveCgroupPath status cgroupID path).2 = true) :
    ∃ st, status (String.ofList id) = some st ∧ st.labels "io.kubernetes.pod.namespace" ≠ "" := by
  rw [resolveCgroupPath, hid] at h
  dsimp only at h
  cases hst : status (String.ofList id) with
  | none =>
      rw [hst] at h
      cases h
  | some st =>
      rw [hst] at h
      refine ⟨st, rfl, fun hns ↦ ?_⟩
      dsimp only at h
      rw [if_pos hns] at h
      cases h

/-- The runtime says the same of a container's labels wherever it is asked. -/
def Answers.Consistent (a : Answers) : Prop :=
  ∀ containers, a.containers = some containers → ∀ c ∈ containers, ∀ st,
    a.status c.id = some st → st.labels = c.labels

/-- A container that the lazy join names has the entry that a refresh makes for it: the event's
path and the scanned directory end with the same name. -/
theorem lazyJoin_refresh (r : NameResolver) (now : ℤ) {a : Answers} {entries : List WalkEntry}
    (hwalk : Scanned entries) (hscan : a.scopes = some (scanCgroups entries))
    (hruntime : a.Consistent) {containers : List CRIContainer} (hlist : a.containers = some containers)
    {e : WalkEntry} (he : e ∈ entries) {id : String} {sc : CgroupScope}
    (hscope : e.scope = some (id, sc)) (hc : ∃ c ∈ containers, c.id = id) {dir : List Char}
    {path : String} (hpath : path.toList = dir ++ '/' :: e.name)
    (hjoin : (r.resolveCgroupPath a.status sc.ino path).2 = true) :
    (r.resolveCgroupPath a.status sc.ino path).1.cache.items sc.ino =
      (r.refresh now a).1.cache.items sc.ino := by
  obtain ⟨text, hname, rfl⟩ := WalkEntry.scopeRe_of_scope hscope
  have hre : NameResolver.scopeRe path.toList = some text := by rw [hpath, scopeRe_path, hname]
  obtain ⟨st, hst, hns⟩ := NameResolver.status_of_join hre hjoin
  -- the refresh joins the same container
  obtain ⟨c, hc, hjoined⟩ : ∃ c ∈ containers, a.joined sc.ino = some c ∧ c.id = String.ofList text := by
    have hfound : a.joined sc.ino = containers.reverse.find? fun c ↦
        (scanCgroups entries c.id).map CgroupScope.ino = some sc.ino := by
      rw [Answers.joined, hscan, hlist]
      rfl
    obtain ⟨c₀, hc₀, hid₀⟩ := hc
    cases hfind : containers.reverse.find? fun c ↦
        (scanCgroups entries c.id).map CgroupScope.ino = some sc.ino with
    | none =>
        have hnone := List.find?_eq_none.mp hfind c₀ (List.mem_reverse.mpr hc₀)
        rw [hid₀, scanCgroups_eq hwalk he hscope] at hnone
        simp at hnone
    | some c =>
        have hino := List.find?_some hfind
        obtain ⟨sc', hsc', hsame⟩ := Option.map_eq_some_iff.mp (of_decide_eq_true hino)
        obtain ⟨e', he', hscope'⟩ := mem_of_scanCgroups hsc'
        exact ⟨c, List.mem_reverse.mp (List.mem_of_find?_eq_some hfind), hfound.trans hfind,
          hwalk.inodes e he e' he' _ _ sc sc' hscope hscope' hsame⟩
  rw [NameResolver.resolveCgroupPath_items hre hst hns, NameResolver.refresh_items hjoined.1]
  have hstatus : a.status c.id = some st := by rw [hjoined.2, hst]
  rw [hruntime containers hlist c hc st hstatus, hstatus]

/-- The ID of a container. -/
def someID : List Char := List.replicate 64 'a'

/-- Its directory. -/
def someScope : WalkEntry where
  path := "/sys/fs/cgroup/kubepods.slice/".toList ++ scopeText "crio-".toList someID
  name := scopeText "crio-".toList someID
  isDir := true
  failed := false
  ino := some 7

theorem scopeRe_someScope : NameResolver.scopeRe someScope.name = some someID := by
  have hhex : ∀ c ∈ someID, NameResolver.isHex c = true := by
    intro c hc
    rw [List.eq_of_mem_replicate hc]
    decide
  exact scopeRe_eq_some_iff.mpr ⟨⟨List.length_replicate .., hhex⟩, "crio-".toList, by decide, [], rfl⟩

theorem someScope_scope : someScope.scope =
    some (String.ofList someID, ⟨7, String.ofList someScope.path⟩) := by
  rw [WalkEntry.scope, scopeRe_someScope]
  rfl

/-- A runtime that knows it. -/
def someAnswers : Answers where
  scopes := some (scanCgroups [someScope])
  containers := some [⟨String.ofList someID, fun _ ↦ "web"⟩]
  status _ := some ⟨fun _ ↦ "web", 512⟩

theorem someScope_joined : ∃ path : String,
    (freshResolver.resolveCgroupPath someAnswers.status 7 path).1.cache.items 7 =
      (freshResolver.refresh 0 someAnswers).1.cache.items 7 := by
  have hwalk : Scanned [someScope] := by
    constructor
    · intro e he e' he' id sc sc' hs hs'
      rw [List.mem_singleton.mp he] at hs
      rw [List.mem_singleton.mp he', hs] at hs'
      cases hs'
      rfl
    · intro e he e' he' id id' sc sc' hs hs' _
      rw [List.mem_singleton.mp he] at hs
      rw [List.mem_singleton.mp he', hs] at hs'
      cases hs'
      rfl
  have hruntime : someAnswers.Consistent := by
    intro containers hcontainers c hc st hst
    cases hcontainers
    cases hst
    rw [List.mem_singleton.mp hc]
  have hpath : (String.ofList ("/kubepods.slice".toList ++ '/' :: someScope.name)).toList =
      "/kubepods.slice".toList ++ '/' :: someScope.name := String.toList_ofList
  refine ⟨_, lazyJoin_refresh freshResolver 0 hwalk rfl hruntime rfl (.head _) someScope_scope
    ⟨_, .head _, rfl⟩ hpath ?_⟩
  rw [NameResolver.resolveCgroupPath, hpath, scopeRe_path, scopeRe_someScope]
  rfl
