import NodeSentinel.Cgroup.TtlCache

/-!
# Asking the runtime

The joins of `resolver.go`: a refresh asks the runtime for the status of every container and
replaces the entries of the cache, and the lazy join asks for one container and puts its
entry.  Either call may fail.
-/

/-! ## What the runtime answers -/

/-- A container in the answer to `ListContainers`; a label that is not there is empty. -/
structure CRIContainer where
  id : String
  labels : String → String

/-- The answer to `ContainerStatus`. -/
structure ContainerStatus where
  labels : String → String
  cpuShares : ℤ

/-- `cgroupScope`. -/
structure CgroupScope where
  ino : ℕ
  dir : String
deriving Repr, DecidableEq

/-- What a refresh finds: the scopes of the cgroup tree by container ID, the containers, and
the status of each; `none` where the scan or a call fails. -/
structure Answers where
  scopes : Option (String → Option CgroupScope)
  containers : Option (List CRIContainer)
  status : String → Option ContainerStatus

/-- The errors of `Refresh`. -/
inductive RefreshError where
  /-- `"scan cgroups: %w"` -/
  | scanCgroups
  /-- `"CRI ListContainers: %w"` -/
  | listContainers
deriving Repr, DecidableEq

/-! ## The joins -/

/-- The part of a `Resolver` that changes. -/
structure NameResolver where
  cache : TtlCache
  paths : ℕ → Option String

/-- The conversion to `int64`. -/
def int64 (z : ℤ) : ℤ := z.bmod (2 ^ 64)

/-- The identity in the labels of a container. -/
def labelled (labels : String → String) (requestMilliCPU : ℤ) : PodID where
  ns := labels "io.kubernetes.pod.namespace"
  pod := labels "io.kubernetes.pod.name"
  container := labels "io.kubernetes.container.name"
  requestMilliCPU := requestMilliCPU

/-- `requestMilliCPU`, from the answer of the runtime. -/
def requestMilliCPU : Option ContainerStatus → ℤ
  | none => 0
  | some status =>
      if status.cpuShares < 2 then 0 else (int64 (status.cpuShares * 1000)).tdiv 1024

namespace NameResolver

/-- The body of the loop of `Refresh`. -/
def joinStep (scopes : String → Option CgroupScope) (status : String → Option ContainerStatus)
    (s : (ℕ → Option PodID) × (ℕ → Option String)) (c : CRIContainer) :
    (ℕ → Option PodID) × (ℕ → Option String) :=
  match scopes c.id with
  | none => s
  | some sc =>
      (Function.update s.1 sc.ino (some (labelled c.labels (requestMilliCPU (status c.id)))),
        Function.update s.2 sc.ino (some sc.dir))

/-- `Refresh`. -/
def refresh (r : NameResolver) (now : ℤ) (a : Answers) : NameResolver × Option RefreshError :=
  match a.scopes with
  | none => (r, some .scanCgroups)
  | some scopes =>
      match a.containers with
      | none => (r, some .listContainers)
      | some containers =>
          let (next, nextPaths) :=
            containers.foldl (joinStep scopes a.status) (fun _ ↦ none, fun _ ↦ none)
          ({ cache := r.cache.replace now next, paths := nextPaths }, none)

/-- A lower-case hexadecimal digit. -/
def isHex (c : Char) : Bool := c.isDigit || ('a' ≤ c && c ≤ 'f')

/-- `scopeRe`: the container ID at the end of the name of a scope, if it is one. -/
def scopeRe (path : List Char) : Option (List Char) :=
  let suffix := ".scope".toList
  let stem := path.take (path.length - suffix.length)
  let id := stem.drop (stem.length - 64)
  let head := stem.take (stem.length - 64)
  let runtimes := ["cri-containerd-".toList, "crio-".toList, "docker-".toList]
  if suffix.isSuffixOf path && id.length == 64 && id.all isHex &&
      runtimes.any (·.isSuffixOf head) then some id
  else none

/-- `ResolveCgroupPath`: the resolver afterwards, and whether a binding was recorded. -/
def resolveCgroupPath (r : NameResolver) (status : String → Option ContainerStatus)
    (cgroupID : ℕ) (path : String) : NameResolver × Bool :=
  match scopeRe path.toList with
  | none => (r, false)
  | some id =>
      match status (String.ofList id) with
      | none => (r, false)
      | some st =>
          if st.labels "io.kubernetes.pod.namespace" = "" then (r, false)
          else
            let req := if st.cpuShares ≥ 2 then (int64 (st.cpuShares * 1000)).tdiv 1024 else 0
            ({ r with cache := r.cache.put cgroupID (labelled st.labels req) }, true)

end NameResolver

/-! ## The entry of a cgroup after a refresh -/

/-- The container whose entry a refresh makes for a cgroup: the last listed of those in it. -/
def Answers.joined (a : Answers) (ino : ℕ) : Option CRIContainer := do
  let scopes ← a.scopes
  let containers ← a.containers
  containers.reverse.find? fun c ↦ (scopes c.id).map CgroupScope.ino = some ino

namespace NameResolver

variable {r : NameResolver} {now : ℤ} {a : Answers} {ino : ℕ} {c : CRIContainer}

theorem foldl_joinStep (scopes : String → Option CgroupScope)
    (status : String → Option ContainerStatus) (containers : List CRIContainer) (ino : ℕ) :
    (containers.foldl (joinStep scopes status) (fun _ ↦ none, fun _ ↦ none)).1 ino =
      (containers.reverse.find? fun c ↦ (scopes c.id).map CgroupScope.ino = some ino).map
        fun c ↦ labelled c.labels (requestMilliCPU (status c.id)) := by
  induction containers using List.reverseRecOn with
  | nil => rfl
  | append_singleton containers c ih =>
      rw [List.foldl_append, List.foldl_cons, List.foldl_nil, List.reverse_append,
        List.reverse_singleton, List.singleton_append, List.find?_cons, joinStep]
      cases hsc : scopes c.id with
      | none => simpa [hsc] using ih
      | some sc =>
          by_cases hino : sc.ino = ino
          · subst hino
            simp
          · dsimp only
            rw [Function.update_of_ne (Ne.symm hino), ih]
            simp [hino]

/-- The entry is made of the labels and of what the runtime says of the request. -/
theorem refresh_items (h : a.joined ino = some c) : (r.refresh now a).1.cache.items ino =
    some ⟨labelled c.labels (requestMilliCPU (a.status c.id)), none⟩ := by
  unfold Answers.joined at h
  obtain ⟨scopes, hscopes, h⟩ := Option.bind_eq_some_iff.mp h
  obtain ⟨containers, hcontainers, h⟩ := Option.bind_eq_some_iff.mp h
  rw [refresh, hscopes]
  dsimp only
  rw [hcontainers]
  apply TtlCache.replace_of_some
  rw [foldl_joinStep, h]
  rfl

/-- A refresh that gives up changes nothing. -/
theorem refresh_of_none (h : a.scopes = none ∨ a.containers = none) : (r.refresh now a).1 = r := by
  rcases h with h | h
  · rw [refresh, h]
  · rw [refresh, h]
    cases a.scopes <;> rfl

/-! ## Queries that fail -/

/-- After a refresh the entry of a container carries a request that was asked for, or is the one
from before. -/
def KeepsRequest (r : NameResolver) (now : ℤ) (a : Answers) (ino : ℕ) (c : CRIContainer) : Prop :=
  (∃ st, a.status c.id = some st ∧ (r.refresh now a).1.cache.items ino =
    some ⟨labelled c.labels (requestMilliCPU (some st)), none⟩) ∨
  (r.refresh now a).1.cache.items ino = r.cache.items ino

/-- A query fails only for a container that has no request as far as is known. -/
def FailsHarmlessly (r : NameResolver) (a : Answers) : Prop :=
  ∀ ino pod c, r.cache.items ino = some ⟨pod, none⟩ → a.joined ino = some c →
    a.status c.id = none → pod = labelled c.labels 0

/-- A refresh keeps what is known of the containers that stay live exactly where no query fails
for one that has a request; and one that cannot list them changes nothing. -/
theorem refresh_keepsRequest_iff (r : NameResolver) (now : ℤ) (a : Answers) :
    ((∀ ino pod c, r.cache.items ino = some ⟨pod, none⟩ → a.joined ino = some c →
        r.KeepsRequest now a ino c) ↔ r.FailsHarmlessly a) ∧
      (a.scopes = none ∨ a.containers = none → (r.refresh now a).1 = r) := by
  refine ⟨⟨?_, ?_⟩, refresh_of_none⟩
  · intro h ino pod c hknown hjoined hfails
    rcases h ino pod c hknown hjoined with ⟨st, hst, -⟩ | hsame
    · rw [hst] at hfails
      cases hfails
    · rw [refresh_items hjoined, hknown, hfails, Option.some.injEq, TtlEntry.mk.injEq] at hsame
      exact hsame.1.symm
  · intro h ino pod c hknown hjoined
    unfold KeepsRequest
    rw [refresh_items hjoined]
    cases hst : a.status c.id with
    | some st => exact .inl ⟨st, rfl, rfl⟩
    | none =>
        refine .inr ?_
        rw [hknown, h ino pod c hknown hjoined hst]
        rfl

/-- A container with a request of half a CPU, and a runtime that does not answer for it. -/
def silentRuntime : Answers where
  scopes := some fun id ↦ if id = "web" then some ⟨1, "web.scope"⟩ else none
  containers := some [⟨"web", fun _ ↦ "web"⟩]
  status _ := none

/-- Its entry before. -/
def knownWeb : NameResolver where
  cache := (newTTLCache 30).put 1 (labelled (fun _ ↦ "web") 500)
  paths _ := none

/-- The request is lost. -/
theorem silentRuntime_forgets :
    ¬ ∀ ino pod c, knownWeb.cache.items ino = some ⟨pod, none⟩ → silentRuntime.joined ino = some c →
      knownWeb.KeepsRequest 0 silentRuntime ino c := by
  intro h
  have hjoined : silentRuntime.joined 1 = some ⟨"web", fun _ ↦ "web"⟩ := by
    simp [silentRuntime, Answers.joined]
  have hkeeps := h 1 (labelled (fun _ ↦ "web") 500) _ rfl hjoined
  rcases hkeeps with ⟨st, hst, -⟩ | hsame
  · cases hst
  · rw [refresh_items hjoined] at hsame
    exact absurd hsame (by decide)

/-! ## The encoding of requests -/

/-- The shares that the kubelet gives a container for its request. -/
def kubeletShares (milli : ℤ) : ℤ := (milli * 1024).tdiv 1000

/-- The requests that their shares tell: those whose encoding is not rounded. -/
def SharesTell (milli : ℤ) : Prop := 125 ∣ milli ∧ milli * 1024 < 2 ^ 63

/-- The decoding gives back what was encoded exactly where nothing was rounded. -/
theorem requestMilliCPU_kubeletShares {m : ℤ} (hm : 2 ≤ m) {st : ContainerStatus}
    (h : st.cpuShares = kubeletShares m) : requestMilliCPU (some st) = m ↔ SharesTell m := by
  have hshares : st.cpuShares = m * 1024 / 1000 := by
    rw [h, kubeletShares, Int.tdiv_eq_ediv_of_nonneg (by omega)]
  have htwo : ¬ st.cpuShares < 2 := by omega
  rw [requestMilliCPU, if_neg htwo, SharesTell]
  have hlt : int64 (st.cpuShares * 1000) < 2 ^ 63 := Int.bmod_lt (by norm_num)
  constructor
  · intro heq
    -- what was decoded fits, so nothing wrapped around
    have hnonneg : 0 ≤ int64 (st.cpuShares * 1000) := by
      by_contra! hneg
      have hdiv : 0 ≤ (-int64 (st.cpuShares * 1000)).tdiv 1024 :=
        Int.tdiv_nonneg (by omega) (by norm_num)
      rw [Int.neg_tdiv] at hdiv
      omega
    rw [Int.tdiv_eq_ediv_of_nonneg hnonneg] at heq
    have hwrap : int64 (st.cpuShares * 1000) = st.cpuShares * 1000 :=
      Int.bmod_eq_of_le (by omega) (by omega)
    rw [hwrap] at heq
    omega
  · rintro ⟨hdvd, hfits⟩
    have hwrap : int64 (st.cpuShares * 1000) = st.cpuShares * 1000 :=
      Int.bmod_eq_of_le (by omega) (by omega)
    rw [hwrap, Int.tdiv_eq_ediv_of_nonneg (by omega)]
    omega

theorem labelled_inj {labels : String → String} {m m' : ℤ} :
    labelled labels m = labelled labels m' ↔ m = m' := by
  simp [labelled]

/-- The lazy join decodes as a refresh does. -/
theorem resolveCgroupPath_items {status : String → Option ContainerStatus} {path : String}
    {id : List Char} {st : ContainerStatus} (hid : scopeRe path.toList = some id)
    (hst : status (String.ofList id) = some st)
    (hns : st.labels "io.kubernetes.pod.namespace" ≠ "") :
    (r.resolveCgroupPath status ino path).1.cache.items ino =
      some ⟨labelled st.labels (requestMilliCPU (some st)), none⟩ := by
  have hreq : (if st.cpuShares ≥ 2 then (int64 (st.cpuShares * 1000)).tdiv 1024 else 0) =
      requestMilliCPU (some st) := by
    rw [requestMilliCPU]
    split_ifs <;> first | rfl | omega
  rw [resolveCgroupPath, hid]
  dsimp only
  rw [hst]
  dsimp only
  rw [if_neg hns, hreq]
  exact TtlCache.put_self _

/-- On either path the request that the user set arrives exactly where its shares tell it. -/
theorem kubeletShares_roundtrip_iff (m : ℤ) (hm : 2 ≤ m) :
    (∀ (r : NameResolver) (now : ℤ) (a : Answers) (ino : ℕ) (c : CRIContainer)
      (st : ContainerStatus), a.joined ino = some c → a.status c.id = some st →
        st.cpuShares = kubeletShares m →
          ((r.refresh now a).1.cache.items ino = some ⟨labelled c.labels m, none⟩ ↔
            SharesTell m)) ∧
      ∀ (r : NameResolver) (status : String → Option ContainerStatus) (cg : ℕ) (path : String)
        (id : List Char) (st : ContainerStatus), scopeRe path.toList = some id →
          status (String.ofList id) = some st → st.labels "io.kubernetes.pod.namespace" ≠ "" →
            st.cpuShares = kubeletShares m →
              ((r.resolveCgroupPath status cg path).1.cache.items cg =
                some ⟨labelled st.labels m, none⟩ ↔ SharesTell m) := by
  constructor
  · intro r now a ino c st hjoined hst hshares
    rw [refresh_items hjoined, hst, Option.some.injEq, TtlEntry.mk.injEq, labelled_inj,
      requestMilliCPU_kubeletShares hm hshares]
    exact and_iff_left rfl
  · intro r status cg path id st hid hst hns hshares
    rw [resolveCgroupPath_items hid hst hns, Option.some.injEq, TtlEntry.mk.injEq, labelled_inj,
      requestMilliCPU_kubeletShares hm hshares]
    exact and_iff_left rfl

/-- Half a CPU arrives as it was set. -/
theorem half_roundtrip :
    (knownWeb.refresh 0 { silentRuntime with
        status := fun _ ↦ some ⟨fun _ ↦ "web", kubeletShares 500⟩ }).1.cache.items 1 =
      some ⟨labelled (fun _ ↦ "web") 500, none⟩ := by
  refine ((kubeletShares_roundtrip_iff 500 (by norm_num)).1 knownWeb 0 _ 1 ⟨"web", fun _ ↦ "web"⟩
    ⟨fun _ ↦ "web", kubeletShares 500⟩ ?_ rfl rfl).mpr ⟨by norm_num, by norm_num⟩
  simp [silentRuntime, Answers.joined]

/-- A tenth of a CPU arrives as 99 thousandths. -/
theorem tenth_rounded : requestMilliCPU (some ⟨fun _ ↦ "web", kubeletShares 100⟩) = 99 := by
  decide

end NameResolver
