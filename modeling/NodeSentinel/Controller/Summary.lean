import NodeSentinel.Controller.Attribution

/-!
# The headline of a contended node

`summarize` of `controller.go` reads the highest confidence of each dimension, which the agent
kept while it scored; `confidentTargets` reads the rows.  On a snapshot of the agent they agree.
-/

variable {K : Type}

/-- What `summarize` renders: the victims of each dimension in `"CONTENDED  CPU:%d I/O:%d
NET:%d"`, and the percentage of `"confident offender (%.0f%%)"`, or `none` for `"alert only
(no confident offender)"`. -/
structure Headline (K : Type) where
  cpu : ℕ
  io : ℕ
  net : ℕ
  confident : Option K
deriving Repr, DecidableEq

variable [Field K] [LinearOrder K]

/-- `summarize`. -/
def summarize (s : Snapshot K) : Headline K :=
  let maxConf := s.maxConfidence
  let maxConf := if s.ioMaxConfidence > maxConf then s.ioMaxConfidence else maxConf
  let maxConf := if s.netMaxConfidence > maxConf then s.netMaxConfidence else maxConf
  { cpu := s.victims.length
    io := s.ioVictims.length
    net := s.netVictims.length
    confident := if maxConf ≥ s.confidenceMin then some (maxConf * 100) else none }

/-- The highest confidence of a dimension, as the snapshot has it. -/
def Snapshot.topConfidence (s : Snapshot K) : Resource → K
  | .cpu => s.maxConfidence
  | .disk => s.ioMaxConfidence
  | .net => s.netMaxConfidence

/-- The headline names a confident offender where a dimension has one. -/
theorem summarize_confident_iff {s : Snapshot K} :
    (summarize s).confident ≠ none ↔ ∃ resource, s.confidenceMin ≤ s.topConfidence resource := by
  have hconf : (summarize s).confident ≠ none ↔
      s.confidenceMin ≤ max (max s.maxConfidence s.ioMaxConfidence) s.netMaxConfidence := by
    simp only [summarize, max_eq_ite, ne_eq, ite_eq_right_iff, reduceCtorEq, imp_false, not_not,
      ge_iff_le]
  rw [hconf, le_max_iff, le_max_iff]
  constructor
  · rintro ((h | h) | h)
    · exact ⟨.cpu, h⟩
    · exact ⟨.disk, h⟩
    · exact ⟨.net, h⟩
  · rintro ⟨resource, h⟩
    cases resource with
    | cpu => exact .inl (.inl h)
    | disk => exact .inl (.inr h)
    | net => exact .inr h

/-! ## The highest confidence of a table -/

variable [FloorSemiring K] [Sqrt K] {srt : SliceSort} {a : Agent K} {i : ReportInterval}
  {resource : Resource}

/-- The running maximum that `buildSnapshot` keeps for a dimension. -/
theorem topConfidence_buildSnapshot (resource : Resource) :
    (buildSnapshot srt a i).1.topConfidence resource =
      ((attributions srt a i resource).map fun x ↦ x.2.2).foldl max (-1) := by
  cases resource with
  | cpu =>
      rw [Snapshot.topConfidence, buildSnapshot_cpu.2, Table.top, attributions, List.map_map]
      rfl
  | disk =>
      rw [Snapshot.topConfidence, buildSnapshot_io.2, Table.top, attributions, List.map_map]
      rfl
  | net =>
      rw [Snapshot.topConfidence, buildSnapshot_net.2, Table.top, attributions, List.map_map]
      rfl

/-- It is the largest confidence of the rows that the snapshot lists. -/
theorem isGreatest_topConfidence (resource : Resource) :
    IsGreatest (insert (-1) {c | ∃ row ∈ (buildSnapshot srt a i).1.rows resource, row.2 = c})
      ((buildSnapshot srt a i).1.topConfidence resource) := by
  have h := isGreatest_foldl_max ((attributions srt a i resource).map fun x ↦ x.2.2) (-1)
  rw [topConfidence_buildSnapshot, buildSnapshot_rows]
  simpa only [List.mem_map, exists_exists_and_eq_and] using h

/-! ## The range of a confidence -/

section Range

variable [IsStrictOrderedRing K]

omit [FloorSemiring K] [Sqrt K] in
/-- `offenderConfidence` says nothing, or a number between 0 and 1. -/
theorem offenderConfidence_range (b : Baseline K) (cg : ℕ) (usage sharePct victimSignal fallback
    throttle : K) :
    offenderConfidence b cg usage sharePct victimSignal fallback throttle = -1 ∨
      0 ≤ offenderConfidence b cg usage sharePct victimSignal fallback throttle ∧
        offenderConfidence b cg usage sharePct victimSignal fallback throttle ≤ 1 := by
  unfold offenderConfidence
  dsimp only
  split_ifs
  all_goals first
    | exact .inl rfl
    | exact .inr ⟨le_min zero_le_one (le_max_left _ _), min_le_left _ _⟩

omit [FloorSemiring K] [Sqrt K] in
theorem throughputScore_range (res : Resolver) (usage : Baseline K) (victimSignal : K)
    (cg bytes : ℕ) (sharePct : K) :
    throughputScore res usage victimSignal cg bytes sharePct = -1 ∨
      0 ≤ throughputScore res usage victimSignal cg bytes sharePct ∧
        throughputScore res usage victimSignal cg bytes sharePct ≤ 1 := by
  unfold throughputScore
  cases res.pod cg with
  | none => exact .inl rfl
  | some pod => exact offenderConfidence_range _ _ _ _ _ _ _

/-- So does every row. -/
theorem attributions_range {x : ℕ × String × K} (h : x ∈ attributions srt a i resource) :
    x.2.2 = -1 ∨ 0 ≤ x.2.2 ∧ x.2.2 ≤ 1 := by
  cases resource with
  | cpu =>
      obtain ⟨r, -, rfl⟩ := List.mem_map.mp h
      dsimp only
      rw [CPUScores.score]
      cases (cpuScores a i).res.pod r.cgroupID with
      | none => exact .inl rfl
      | some pod => exact offenderConfidence_range _ _ _ _ _ _ _
  | disk =>
      obtain ⟨r, -, rfl⟩ := List.mem_map.mp h
      exact throughputScore_range _ _ _ _ _ _
  | net =>
      obtain ⟨r, -, rfl⟩ := List.mem_map.mp h
      exact throughputScore_range _ _ _ _ _ _

end Range

/-! ## Healthy snapshots -/

/-- A healthy snapshot names no offender. -/
theorem rows_of_healthy (h : (buildSnapshot srt a i).1.healthy = true) (resource : Resource) :
    (buildSnapshot srt a i).1.rows resource = [] := by
  have hvictims : ((buildSnapshot srt a i).1.victims.isEmpty &&
      (buildSnapshot srt a i).1.ioVictims.isEmpty &&
      (buildSnapshot srt a i).1.netVictims.isEmpty) = true := h
  simp only [Bool.and_eq_true, List.isEmpty_iff] at hvictims
  cases resource with
  | cpu => rw [Snapshot.rows, buildSnapshot_offenders hvictims.1.1, List.map_nil]
  | disk => rw [Snapshot.rows, buildSnapshot_ioOffenders hvictims.1.2, List.map_nil]
  | net => rw [Snapshot.rows, buildSnapshot_netOffenders hvictims.2, List.map_nil]

/-! ## Summary and action -/

/-- The identities that the label of a row keeps apart. -/
structure PodID.WellNamed (p : PodID) : Prop where
  ns_ne : p.ns ≠ ""
  pod_ne : p.pod ≠ ""
  container_ne : p.container ≠ ""
  slash_notMem_ns : '/' ∉ p.ns.toList
  slash_notMem_pod : '/' ∉ p.pod.toList

theorem PodID.WellNamed.splitPod_string {p : PodID} (h : p.WellNamed) :
    splitPod p.string = some (p.ns, p.pod, p.container) := by
  rw [PodID.splitPod_string h.slash_notMem_ns h.slash_notMem_pod, if_neg]
  rintro (hns | hpod | hc)
  · exact h.ns_ne hns
  · exact h.pod_ne hpod
  · exact h.container_ne hc

section Agree

variable [IsStrictOrderedRing K] {cache : ℕ → Option PodID} {cpuStat : ℕ → Option CPUStat}

/-- A row is a target as soon as its confidence reaches a positive gate. -/
theorem addTarget_ne_none_iff (hres : i.res = .steady cache cpuStat)
    (hnames : ∀ cg p, cache cg = some p → p.WellNamed) {gate : K} (hgate : 0 < gate)
    {x : ℕ × String × K} (hx : x ∈ attributions srt a i resource) :
    addTarget gate resource x.2.1 x.2.2 ≠ none ↔ gate ≤ x.2.2 := by
  constructor
  · intro h
    obtain ⟨t, ht⟩ := Option.ne_none_iff_exists'.mp h
    exact (addTarget_eq_some ht).1
  · intro h
    obtain ⟨hlabel, hconf⟩ := attributions_spec hx
    have hlookup : i.res.pod x.1 = cache x.1 := by rw [hres]; rfl
    cases hc : cache x.1 with
    | none =>
        have hneg : x.2.2 = -1 := hconf (hlookup.trans hc)
        rw [hneg] at h
        exact absurd (hgate.trans_le h) (by norm_num)
    | some p =>
        have hp : i.res.label x.1 = p.string := by
          rw [hres]
          simp only [Resolver.label, Resolver.steady, hc]
        rw [addTarget, if_neg (not_lt.mpr h), hlabel, hp, (hnames _ _ hc).splitPod_string]
        exact Option.some_ne_none _

/-- A dimension has a confident offender if one of its rows is. -/
theorem confidenceMin_le_topConfidence_iff (hgate : 0 < a.cfg.confidenceThreshold) :
    (buildSnapshot srt a i).1.confidenceMin ≤ (buildSnapshot srt a i).1.topConfidence resource ↔
      ∃ x ∈ attributions srt a i resource, a.cfg.confidenceThreshold ≤ x.2.2 := by
  have hmin : (buildSnapshot srt a i).1.confidenceMin = a.cfg.confidenceThreshold := rfl
  have hneg : (-1 : K) < a.cfg.confidenceThreshold := lt_trans (by norm_num) hgate
  have htop := isGreatest_foldl_max ((attributions srt a i resource).map fun x ↦ x.2.2) (-1)
  rw [hmin, topConfidence_buildSnapshot]
  constructor
  · intro h
    rcases htop.1 with heq | hmem
    · exact absurd (heq ▸ h) hneg.not_ge
    · obtain ⟨x, hx, heq⟩ := List.mem_map.mp hmem
      exact ⟨x, hx, heq ▸ h⟩
  · rintro ⟨x, hx, hle⟩
    exact hle.trans (htop.2 (.inr (List.mem_map.mpr ⟨x, hx, rfl⟩)))

/-- What the summary of a snapshot says of its rows. -/
structure Snapshot.Summarized (s : Snapshot K) : Prop where
  isGreatest : ∀ resource,
    IsGreatest (insert (-1) {c | ∃ row ∈ s.rows resource, row.2 = c}) (s.topConfidence resource)
  range : ∀ resource, ∀ row ∈ s.rows resource, row.2 = -1 ∨ 0 ≤ row.2 ∧ row.2 ≤ 1
  healthy : s.healthy = true → ∀ resource, s.rows resource = []
  confident_iff : (summarize s).confident ≠ none ↔ confidentTargets s 0 ≠ []

/-- The headline of a node and the targets of the remediator come from the same rows: the
running maxima of the agent are those of the rows it lists. -/
theorem buildSnapshot_summarized (srt : SliceSort) (a : Agent K) (i : ReportInterval)
    (hres : i.res = .steady cache cpuStat) (hnames : ∀ cg p, cache cg = some p → p.WellNamed)
    (hgate : 0 < a.cfg.confidenceThreshold) : (buildSnapshot srt a i).1.Summarized where
  isGreatest := isGreatest_topConfidence
  range resource row h := by
    rw [buildSnapshot_rows] at h
    obtain ⟨x, hx, rfl⟩ := List.mem_map.mp h
    exact attributions_range hx
  healthy := rows_of_healthy
  confident_iff := by
    rw [summarize_confident_iff, confidentTargets_buildSnapshot, if_pos le_rfl]
    constructor
    · rintro ⟨resource, hle⟩
      obtain ⟨x, hx, hconf⟩ := (confidenceMin_le_topConfidence_iff hgate).mp hle
      obtain ⟨t, ht⟩ := Option.ne_none_iff_exists'.mp
        ((addTarget_ne_none_iff hres hnames hgate hx).mpr hconf)
      apply List.ne_nil_of_mem (a := t)
      exact List.mem_flatMap.mpr ⟨resource, by cases resource <;> simp,
        List.mem_filterMap.mpr ⟨x, hx, ht⟩⟩
    · intro hne
      obtain ⟨t, ht⟩ := List.exists_mem_of_ne_nil _ hne
      obtain ⟨resource, -, ht⟩ := List.mem_flatMap.mp ht
      obtain ⟨x, hx, hadd⟩ := List.mem_filterMap.mp ht
      exact ⟨resource, (confidenceMin_le_topConfidence_iff hgate).mpr
        ⟨x, hx, (addTarget_eq_some hadd).1⟩⟩

end Agree

/-! ## Three pods in an unchanged cache -/

theorem threePodsCache_wellNamed {cg : ℕ} {p : PodID} (h : threePodsCache cg = some p) :
    p.WellNamed := by
  unfold threePodsCache at h
  split_ifs at h
  all_goals
    cases h
    exact ⟨by decide, by decide, by decide, by decide, by decide⟩

/-- The first of the pods is confident enough for a gate of a tenth. -/
theorem threePods_summarized :
    (buildSnapshot .insertion
        (newAgent { defaultConfig ℚ with confidenceThreshold := 1 / 10 })
        { threePods with res := .steady threePodsCache threePods.res.cpuStat }).1.Summarized ∧
      (summarize (buildSnapshot .insertion
        (newAgent { defaultConfig ℚ with confidenceThreshold := 1 / 10 })
        { threePods with res := .steady threePodsCache threePods.res.cpuStat }).1).confident =
          some (40 / 3) := by
  constructor
  · apply buildSnapshot_summarized .insertion _ _ rfl
    · intro cg p h
      exact threePodsCache_wellNamed h
    · change (0 : ℚ) < 1 / 10
      norm_num
  · decide +kernel
