import NodeSentinel.Agent.Rows
import NodeSentinel.Controller.Remediator

/-!
# Attribution, from the agent to the controller

The agent writes the identity of a pod in the label of a row, and the controller reads it
back from there.  Labels that are no identity have no slash, and a row whose cgroup was not
resolved has a negative confidence: either keeps the row from becoming a target, so it does
not matter that the label and the confidence come from two lookups.
-/

/-! ## Labels -/

section Label

variable {sep : Char} {cs rest : List Char} {n : ℕ}

theorem splitN_append (h : sep ∉ cs) :
    splitN sep (n + 2) (cs ++ sep :: rest) = cs :: splitN sep (n + 1) rest := by
  have hpos : ∀ c ∈ cs, (c != sep) = true := fun c hc ↦ bne_iff_ne.mpr fun he ↦ h (he ▸ hc)
  rw [splitN, List.dropWhile_append_of_pos hpos, List.takeWhile_append_of_pos hpos]
  simp

theorem splitN_of_notMem (h : sep ∉ cs) : splitN sep (n + 2) cs = [cs] := by
  have hdrop : cs.dropWhile (· != sep) = [] :=
    List.dropWhile_eq_nil_iff.mpr fun c hc ↦ bne_iff_ne.mpr fun he ↦ h (he ▸ hc)
  rw [splitN, hdrop]

/-- A label without a slash names no pod. -/
theorem splitPod_of_notMem {label : String} (h : '/' ∉ label.toList) : splitPod label = none := by
  rw [splitPod, splitN_of_notMem h]

theorem splitPod_append {ns pod container : String} (hns : '/' ∉ ns.toList)
    (hpod : '/' ∉ pod.toList) : splitPod (ns ++ "/" ++ pod ++ "/" ++ container) =
      if ns = "" ∨ pod = "" ∨ container = "" then none else some (ns, pod, container) := by
  have hl : (ns ++ "/" ++ pod ++ "/" ++ container).toList =
      ns.toList ++ '/' :: (pod.toList ++ '/' :: container.toList) := by simp
  rw [splitPod, hl, splitN_append hns, splitN_append hpod, splitN]
  simp [String.toList_eq_nil_iff]

namespace PodID

variable {p : PodID}

/-- What the controller reads in the label of a pod. -/
theorem splitPod_string (hns : '/' ∉ p.ns.toList) (hpod : '/' ∉ p.pod.toList) :
    splitPod p.string =
      if p.ns = "" ∨ p.pod = "" ∨ p.container = "" then none else some (p.ns, p.pod, p.container) := by
  unfold string
  by_cases h : p.ns = ""
  · rw [if_pos h, if_pos (.inl h), splitPod_of_notMem (by decide)]
  · rw [if_neg h, splitPod_append hns hpod]

end PodID

/-- The fallback of `label` is no identity. -/
theorem splitPod_system (cg : ℕ) : splitPod ("system(cg:" ++ toString cg ++ ")") = none := by
  have hdigits : '/' ∉ (toString cg).toList := fun h ↦ by
    rw [show toString cg = cg.repr from rfl, Nat.toList_repr] at h
    exact absurd (Nat.isDigit_of_mem_toDigits (by decide) (by decide) h) (by decide)
  refine splitPod_of_notMem ?_
  rw [String.toList_append, String.toList_append, List.mem_append, List.mem_append, not_or, not_or]
  exact ⟨⟨by decide, hdigits⟩, by decide⟩

end Label

/-! ## Lookups -/

/-- The lookups of an interval find the entry of a cgroup in a cache, or nothing: it may
appear or expire between two of them. -/
structure Resolver.LooksUp (res : Resolver) (cache : ℕ → Option PodID) : Prop where
  request : ∀ cg, res.request cg = none ∨ res.request cg = cache cg
  named : ∀ cg, res.named cg = none ∨ res.named cg = cache cg
  pod : ∀ cg, res.pod cg = none ∨ res.pod cg = cache cg

/-- Two lookups that find something find the same. -/
theorem Resolver.LooksUp.eq {res : Resolver} {cache : ℕ → Option PodID} (h : res.LooksUp cache)
    {cg : ℕ} {p p' : PodID} (hn : res.named cg = some p) (hp : res.pod cg = some p') :
    cache cg = some p ∧ p = p' := by
  have hcache : cache cg = some p := by
    rcases h.named cg with h' | h'
    · rw [h'] at hn
      cases hn
    · rw [← h', hn]
  rcases h.pod cg with h' | h'
  · rw [h'] at hp
    cases hp
  · rw [h', hcache] at hp
    exact ⟨hcache, Option.some.inj hp⟩

/-! ## The rows of a snapshot -/

/-- The label and confidence of the rows of a table. -/
def Snapshot.rows {K : Type} (s : Snapshot K) : Resource → List (String × K)
  | .cpu => s.offenders.map fun o ↦ (o.pod, o.confidence)
  | .disk => s.ioOffenders.map fun o ↦ (o.pod, o.confidence)
  | .net => s.netOffenders.map fun o ↦ (o.pod, o.confidence)

variable {K : Type} [Field K] [LinearOrder K]

theorem confidentTargets_eq (s : Snapshot K) (gate : K) : confidentTargets s gate =
    [Resource.cpu, .disk, .net].flatMap fun resource ↦ (s.rows resource).filterMap fun row ↦
      addTarget (if gate ≤ 0 then s.confidenceMin else gate) resource row.1 row.2 := by
  simp [confidentTargets, Snapshot.rows, List.filterMap_map]

section Attributions

variable [FloorSemiring K] [Sqrt K]

/-- The rows of an interval, each with the cgroup it is of. -/
def attributions (srt : SliceSort) (a : Agent K) (i : ReportInterval) : Resource → List (ℕ × String × K)
  | .cpu => ((cpuTable srt a i).listed a.cfg.topN).map fun r ↦
      (r.cgroupID, i.res.label r.cgroupID, (cpuScores a i).score r)
  | .disk => ((ioTable srt a i).listed a.cfg.topN).map fun r ↦
      (r.cgroupID, i.res.label r.cgroupID, ioScore a i r)
  | .net => ((netTable srt a i).listed a.cfg.topN).map fun r ↦
      (r.cgroupID, i.res.label r.cgroupID, netScore a i r)

variable {srt : SliceSort} {a : Agent K} {i : ReportInterval}

theorem buildSnapshot_rows (resource : Resource) : (buildSnapshot srt a i).1.rows resource =
    (attributions srt a i resource).map Prod.snd := by
  cases resource with
  | cpu =>
      rw [Snapshot.rows, buildSnapshot_cpu.1, Table.rows, attributions, List.map_map, List.map_map]
      refine List.map_congr_left fun r _ ↦ ?_
      exact Prod.ext ((cpuScores a i).row_pod r) ((cpuScores a i).row_confidence r)
  | disk =>
      rw [Snapshot.rows, buildSnapshot_io.1, Table.rows, attributions, List.map_map, List.map_map]
      rfl
  | net =>
      rw [Snapshot.rows, buildSnapshot_net.1, Table.rows, attributions, List.map_map, List.map_map]
      rfl

/-- Every row has the label of its cgroup, and a negative confidence if it was not resolved. -/
theorem attributions_spec {resource : Resource} {x : ℕ × String × K}
    (h : x ∈ attributions srt a i resource) :
    x.2.1 = i.res.label x.1 ∧ (i.res.pod x.1 = none → x.2.2 = -1) := by
  cases resource with
  | cpu =>
      obtain ⟨r, -, rfl⟩ := List.mem_map.mp h
      refine ⟨rfl, fun hr ↦ ?_⟩
      change (cpuScores a i).score r = -1
      rw [CPUScores.score, show (cpuScores a i).res.pod r.cgroupID = none from hr]
  | disk =>
      obtain ⟨r, -, rfl⟩ := List.mem_map.mp h
      refine ⟨rfl, fun hr ↦ ?_⟩
      change ioScore a i r = -1
      rw [ioScore, throughputScore, show i.res.pod r.cgroupID = none from hr]
  | net =>
      obtain ⟨r, -, rfl⟩ := List.mem_map.mp h
      refine ⟨rfl, fun hr ↦ ?_⟩
      change netScore a i r = -1
      rw [netScore, throughputScore, show i.res.pod r.cgroupID = none from hr]

end Attributions

/-! ## Targets -/

section Targets

variable {gate : K} {resource : Resource}

omit [Field K] in
theorem addTarget_eq_some {label : String} {conf : K} {t : Target K}
    (h : addTarget gate resource label conf = some t) :
    gate ≤ conf ∧ splitPod label = some (t.ns, t.pod, t.container) ∧ t.resource = resource ∧
      t.confidence = conf := by
  unfold addTarget at h
  split_ifs at h with hconf
  obtain ⟨⟨ns, pod, container⟩, hsplit, rfl⟩ := Option.map_eq_some_iff.mp h
  exact ⟨not_lt.mp hconf, hsplit, rfl, rfl⟩

variable [FloorSemiring K] [Sqrt K] {srt : SliceSort} {a : Agent K} {i : ReportInterval}

theorem confidentTargets_buildSnapshot : confidentTargets (buildSnapshot srt a i).1 gate =
    [Resource.cpu, .disk, .net].flatMap fun resource ↦
      (attributions srt a i resource).filterMap fun x ↦
        addTarget (if gate ≤ 0 then a.cfg.confidenceThreshold else gate) resource x.2.1 x.2.2 := by
  rw [confidentTargets_eq]
  simp only [buildSnapshot_rows, List.filterMap_map]
  rfl

/-- A row that becomes a target is of a resolved cgroup, and its label was found. -/
theorem attributed_of_addTarget [IsStrictOrderedRing K] {cache : ℕ → Option PodID}
    (hres : i.res.LooksUp cache)
    (hslash : ∀ cg pod, cache cg = some pod → '/' ∉ pod.ns.toList ∧ '/' ∉ pod.pod.toList)
    (hgate : 0 < gate) {x : ℕ × String × K} (hx : x ∈ attributions srt a i resource) {t : Target K}
    (ht : addTarget gate resource x.2.1 x.2.2 = some t) :
    ∃ pod, i.res.named x.1 = some pod ∧ i.res.pod x.1 = some pod ∧ cache x.1 = some pod ∧
      x.2.1 = pod.string ∧ t.ns = pod.ns ∧ t.pod = pod.pod ∧ t.container = pod.container := by
  obtain ⟨hlabel, hconf⟩ := attributions_spec hx
  obtain ⟨hle, hsplit, -, -⟩ := addTarget_eq_some ht
  cases hpod : i.res.pod x.1 with
  | none =>
      rw [hconf hpod] at hle
      exact absurd (hgate.trans_le hle) (by norm_num)
  | some pod =>
      rw [hlabel, Resolver.label] at hsplit
      cases hnamed : i.res.named x.1 with
      | none =>
          rw [hnamed] at hsplit
          exact absurd hsplit (by rw [splitPod_system]; exact Option.some_ne_none _ ∘ Eq.symm)
      | some pod' =>
          obtain ⟨hcache, rfl⟩ := hres.eq hnamed hpod
          rw [hnamed] at hsplit
          obtain ⟨hns, hname⟩ := hslash _ _ hcache
          dsimp only at hsplit
          rw [PodID.splitPod_string hns hname] at hsplit
          split_ifs at hsplit
          simp only [Option.some.injEq, Prod.mk.injEq] at hsplit
          refine ⟨pod', rfl, rfl, hcache, ?_, hsplit.1.symm, hsplit.2.1.symm, hsplit.2.2.symm⟩
          rw [hlabel, Resolver.label, hnamed]

/-- The targets of a snapshot are rows of resolved cgroups, and name their pods; what is not
resolved is never a target. -/
theorem confidentTargets_attributed [IsStrictOrderedRing K] (srt : SliceSort) (a : Agent K)
    (i : ReportInterval) {cache : ℕ → Option PodID} (hres : i.res.LooksUp cache)
    (hslash : ∀ cg pod, cache cg = some pod → '/' ∉ pod.ns.toList ∧ '/' ∉ pod.pod.toList)
    {gate : K} (hgate : 0 < gate ∨ gate = 0 ∧ 0 < a.cfg.confidenceThreshold) :
    (∀ t ∈ confidentTargets (buildSnapshot srt a i).1 gate, ∃ cg pod,
      (cg, pod.string, t.confidence) ∈ attributions srt a i t.resource ∧
        (pod.string, t.confidence) ∈ (buildSnapshot srt a i).1.rows t.resource ∧
        i.res.named cg = some pod ∧ i.res.pod cg = some pod ∧ cache cg = some pod ∧
        t.ns = pod.ns ∧ t.pod = pod.pod ∧ t.container = pod.container) ∧
    (∀ resource, ∀ x ∈ attributions srt a i resource,
      i.res.pod x.1 = none ∨ i.res.named x.1 = none ∨ x.2.1 = "unknown" →
        addTarget (if gate ≤ 0 then a.cfg.confidenceThreshold else gate) resource x.2.1 x.2.2 =
          none) ∧
    ∀ p : PodID, '/' ∉ p.ns.toList → '/' ∉ p.pod.toList →
      p.ns ≠ "" → p.pod ≠ "" → p.container ≠ "" →
        splitPod p.string = some (p.ns, p.pod, p.container) := by
  have hpos : 0 < if gate ≤ 0 then a.cfg.confidenceThreshold else gate := by
    split_ifs with h
    · rcases hgate with hgate | ⟨-, hgate⟩
      · exact absurd hgate h.not_gt
      · exact hgate
    · exact not_le.mp h
  refine ⟨fun t ht ↦ ?_, fun resource x hx hnot ↦ ?_, fun p hns hpod h₁ h₂ h₃ ↦ ?_⟩
  · rw [confidentTargets_buildSnapshot] at ht
    obtain ⟨resource, -, ht⟩ := List.mem_flatMap.mp ht
    obtain ⟨x, hx, hadd⟩ := List.mem_filterMap.mp ht
    obtain ⟨pod, hnamed, hpod, hcache, hlabel, hname⟩ :=
      attributed_of_addTarget hres hslash hpos hx hadd
    obtain ⟨-, -, rfl, hconf⟩ := addTarget_eq_some hadd
    have hrow : x.2 ∈ (buildSnapshot srt a i).1.rows t.resource := by
      rw [buildSnapshot_rows]
      exact List.mem_map_of_mem hx
    obtain ⟨cg, label, conf⟩ := x
    subst hlabel
    rw [hconf]
    exact ⟨cg, pod, hx, hrow, hnamed, hpod, hcache, hname⟩
  · refine Option.eq_none_iff_forall_ne_some.mpr fun t ht ↦ ?_
    obtain ⟨pod, hnamed, hpod, -⟩ := attributed_of_addTarget hres hslash hpos hx ht
    rcases hnot with h | h | h
    · rw [hpod] at h
      cases h
    · rw [hnamed] at h
      cases h
    · obtain ⟨-, hsplit, -⟩ := addTarget_eq_some ht
      rw [h, splitPod_of_notMem (by decide)] at hsplit
      cases hsplit
  · rw [PodID.splitPod_string hns hpod, if_neg]
    rintro (h | h | h)
    · exact h₁ h
    · exact h₂ h
    · exact h₃ h

end Targets

/-! ## Three pods -/

/-- An identity in namespace `web`. -/
def webPod (name : String) : PodID := ⟨"web", name, "app", 100⟩

/-- What the cache has of three pods. -/
def threePodsCache (cg : ℕ) : Option PodID :=
  if cg = 1 then some (webPod "a") else if cg = 2 then some (webPod "b")
  else if cg = 3 then some (webPod "c") else none

/-- Three users of the CPU and one that waits.  The entry of pod 2 expires after its label
was looked up, and that of pod 3 appears then. -/
def threePods : ReportInterval where
  cpu := [⟨1, 400⟩, ⟨2, 200⟩, ⟨3, 400⟩]
  runq := [⟨4, List.replicate 13 0 ++ [100], 100⟩]
  blkio := []
  network := []
  timeline := []
  res :=
    { request := threePodsCache
      named cg := if cg = 1 then some (webPod "a") else if cg = 2 then some (webPod "b") else none
      pod cg := if cg = 1 then some (webPod "a") else if cg = 3 then some (webPod "c") else none
      cpuStat _ := none }

theorem threePods_looksUp : threePods.res.LooksUp threePodsCache := by
  constructor
  all_goals
    intro cg
    by_cases h₁ : cg = 1
    · simp [threePods, threePodsCache, h₁]
    · by_cases h₂ : cg = 2
      · simp [threePods, threePodsCache, h₂]
      · by_cases h₃ : cg = 3 <;> simp [threePods, threePodsCache, h₁, h₂, h₃]

/-- The first is a target, under its own name. -/
theorem threePods_attributed :
    (⟨"web", "a", "app", .cpu, 2 / 15⟩ : Target ℚ) ∈ confidentTargets
        (buildSnapshot .insertion (newAgent (defaultConfig ℚ)) threePods).1 (1 / 10) ∧
      ∀ t ∈ confidentTargets (buildSnapshot .insertion (newAgent (defaultConfig ℚ)) threePods).1
        (1 / 10), ∃ cg pod,
        (cg, pod.string, t.confidence) ∈
            attributions .insertion (newAgent (defaultConfig ℚ)) threePods t.resource ∧
          (pod.string, t.confidence) ∈
            (buildSnapshot .insertion (newAgent (defaultConfig ℚ)) threePods).1.rows t.resource ∧
          threePods.res.named cg = some pod ∧ threePods.res.pod cg = some pod ∧
          threePodsCache cg = some pod ∧
          t.ns = pod.ns ∧ t.pod = pod.pod ∧ t.container = pod.container := by
  constructor
  · have hrow : (1, (webPod "a").string, (2 / 15 : ℚ)) ∈
        attributions .insertion (newAgent (defaultConfig ℚ)) threePods .cpu := by
      decide +kernel
    have hsplit : splitPod (webPod "a").string = some ("web", "a", "app") :=
      (PodID.splitPod_string (by decide) (by decide)).trans (if_neg (by decide))
    rw [confidentTargets_buildSnapshot]
    refine List.mem_flatMap.mpr ⟨.cpu, .head _, List.mem_filterMap.mpr ⟨_, hrow, ?_⟩⟩
    rw [addTarget, if_neg (by norm_num), hsplit]
    rfl
  · refine (confidentTargets_attributed .insertion _ threePods threePods_looksUp (fun cg pod h ↦ ?_)
      (.inl (by norm_num))).1
    unfold threePodsCache at h
    split_ifs at h <;> cases h <;> decide
