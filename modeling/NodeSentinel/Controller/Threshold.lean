import NodeSentinel.Controller.Attribution

/-!
# The threshold of the controller

`RemediationConfig.ConfidenceThreshold` takes the place of the gate that the agent wrote into its
snapshot, whichever of the two is higher.  A row that names a pod is let in below the agent's gate
when its confidence lies between the two, so a threshold tightens the gate only where there is no
such row.
-/

/-- The gate of `confidentTargets`: a threshold that is not set leaves the snapshot's own. -/
def Snapshot.gate {K : Type} [LinearOrder K] [Zero K] (s : Snapshot K) (g : K) : K :=
  if g ≤ 0 then s.confidenceMin else g

/-- A row of the snapshot that names a pod. -/
def Snapshot.Names {K : Type} (s : Snapshot K) (resource : Resource) (row : String × K) : Prop :=
  row ∈ s.rows resource ∧ (splitPod row.1).isSome

/-- A higher threshold selects no other target, and neither selects a row that the agent did not
mark confident. -/
structure Tightens {K : Type} [LinearOrder K] [Zero K] (s : Snapshot K) (g₁ g₂ : K) : Prop where
  subset : confidentTargets s g₂ ⊆ confidentTargets s g₁
  confident : ∀ g ∈ [g₁, g₂], ∀ t ∈ confidentTargets s g, s.confidenceMin ≤ t.confidence

/-- A threshold that is not set, is not under the agent's gate, or has no row of a pod between
itself and the agent's gate. -/
def Snapshot.NoneBetween {K : Type} [LinearOrder K] [Zero K] (s : Snapshot K) (g : K) : Prop :=
  g = 0 ∨ s.confidenceMin ≤ g ∨
    ∀ resource row, s.Names resource row → row.2 < g ∨ s.confidenceMin ≤ row.2

section Threshold

variable {K : Type} [Field K] [LinearOrder K] {s : Snapshot K} {g g₁ g₂ : K}

/-- The targets are the rows of pods from the gate on. -/
theorem mem_confidentTargets {t : Target K} : t ∈ confidentTargets s g ↔ ∃ label,
    (label, t.confidence) ∈ s.rows t.resource ∧ splitPod label = some (t.ns, t.pod, t.container) ∧
      s.gate g ≤ t.confidence := by
  rw [confidentTargets_eq, List.mem_flatMap]
  constructor
  · rintro ⟨resource, -, ht⟩
    obtain ⟨⟨label, conf⟩, hrow, hadd⟩ := List.mem_filterMap.mp ht
    obtain ⟨hle, hsplit, rfl, rfl⟩ := addTarget_eq_some hadd
    exact ⟨label, hrow, hsplit, hle⟩
  · rintro ⟨label, hrow, hsplit, hle⟩
    refine ⟨t.resource, ?_, List.mem_filterMap.mpr ⟨_, hrow, ?_⟩⟩
    · cases t.resource <;> simp
    · show addTarget (s.gate g) t.resource label t.confidence = some t
      rw [addTarget, if_neg (not_lt.mpr hle), hsplit]
      rfl

/-- A row of a pod becomes a target exactly when it reaches the gate. -/
theorem exists_target {resource : Resource} {row : String × K} (h : s.Names resource row)
    (hg : s.gate g ≤ row.2) : ∃ t ∈ confidentTargets s g, t.confidence = row.2 := by
  obtain ⟨hrow, hsplit⟩ := h
  obtain ⟨⟨ns, pod, container⟩, hsplit⟩ := Option.isSome_iff_exists.mp hsplit
  exact ⟨⟨ns, pod, container, resource, row.2⟩,
    mem_confidentTargets.mpr ⟨row.1, hrow, hsplit, hg⟩, rfl⟩

theorem names_of_mem {t : Target K} (h : t ∈ confidentTargets s g) :
    s.gate g ≤ t.confidence ∧ ∃ label, s.Names t.resource (label, t.confidence) := by
  obtain ⟨label, hrow, hsplit, hle⟩ := mem_confidentTargets.mp h
  refine ⟨hle, label, hrow, ?_⟩
  exact Option.isSome_iff_exists.mpr ⟨_, hsplit⟩

/-- A gate that is passed by confident rows only. -/
theorem confident_iff (hg : 0 ≤ g) :
    (∀ t ∈ confidentTargets s g, s.confidenceMin ≤ t.confidence) ↔ s.NoneBetween g := by
  constructor
  · intro h
    rcases hg.eq_or_lt with h0 | hpos
    · exact .inl h0.symm
    · refine .inr (or_iff_not_imp_left.mpr fun _ resource row hrow ↦ ?_)
      refine or_iff_not_imp_left.mpr fun hge ↦ ?_
      have hgate : s.gate g ≤ row.2 := by
        rw [Snapshot.gate, if_neg hpos.not_ge]
        exact not_lt.mp hge
      obtain ⟨t, ht, hconf⟩ := exists_target hrow hgate
      exact hconf ▸ h t ht
  · intro h t ht
    obtain ⟨hle, label, hrow⟩ := names_of_mem ht
    rcases hg.eq_or_lt with rfl | hpos
    · rwa [Snapshot.gate, if_pos le_rfl] at hle
    · rw [Snapshot.gate, if_neg hpos.not_ge] at hle
      rcases h with rfl | hmin | hbetween
      · exact absurd hpos (lt_irrefl _)
      · exact hmin.trans hle
      · exact (hbetween _ _ hrow).resolve_left hle.not_gt

/-- Raising a threshold that is set drops targets only. -/
theorem confidentTargets_subset (hpos : 0 < g₁) (hg : g₁ ≤ g₂) :
    confidentTargets s g₂ ⊆ confidentTargets s g₁ := by
  intro t ht
  obtain ⟨label, hrow, hsplit, hle⟩ := mem_confidentTargets.mp ht
  refine mem_confidentTargets.mpr ⟨label, hrow, hsplit, ?_⟩
  rw [Snapshot.gate, if_neg (hpos.trans_le hg).not_ge] at hle
  rw [Snapshot.gate, if_neg hpos.not_ge]
  exact hg.trans hle

/-- Without a threshold the targets are the rows that the agent marked confident. -/
theorem confidentTargets_subset_zero
    (h : ∀ t ∈ confidentTargets s g, s.confidenceMin ≤ t.confidence) :
    confidentTargets s g ⊆ confidentTargets s 0 := by
  intro t ht
  obtain ⟨label, hrow, hsplit, -⟩ := mem_confidentTargets.mp ht
  refine mem_confidentTargets.mpr ⟨label, hrow, hsplit, ?_⟩
  rw [Snapshot.gate, if_pos le_rfl]
  exact h t ht

/-- Two thresholds tighten the gate of a snapshot exactly when no row of a pod lies between one
of them and the gate of the agent. -/
theorem tightens_iff (s : Snapshot K) (h₀ : 0 ≤ g₁) (h : g₁ ≤ g₂) :
    Tightens s g₁ g₂ ↔ s.NoneBetween g₁ ∧ s.NoneBetween g₂ := by
  rw [← confident_iff h₀, ← confident_iff (h₀.trans h)]
  constructor
  · intro ht
    exact ⟨ht.confident g₁ (by simp), ht.confident g₂ (by simp)⟩
  · rintro ⟨h₁, h₂⟩
    constructor
    · rcases h₀.eq_or_lt with rfl | hpos
      · exact confidentTargets_subset_zero h₂
      · exact confidentTargets_subset hpos h
    · intro g hg
      rcases List.mem_pair.mp hg with rfl | rfl
      · exact h₁
      · exact h₂

end Threshold

/-! ## A row between the two gates -/

/-- A report with the gate 7/10, and one CPU offender of the given confidence. -/
def gated (confidence : ℚ) : Snapshot ℚ where
  nodeName := "node"
  healthy := false
  cgroupsSeen := 1
  runqWarnUs := 0
  minSamples := 0
  confidenceMin := 7 / 10
  maxConfidence := confidence
  offenders := [⟨"web/a/app", 0, 0, 0, 0, 0, confidence, .unattributed⟩]
  victims := []
  ioMaxConfidence := 0
  ioOffenders := []
  ioVictims := []
  netMaxConfidence := 0
  netOffenders := []
  netVictims := []

/-- Below both thresholds and the gate. -/
theorem tightens_gated : (0 : ℚ) ≤ 3 / 10 ∧ (3 / 10 : ℚ) ≤ 4 / 10 ∧
    (Tightens (gated (1 / 5)) (3 / 10) (4 / 10) ↔
      (gated (1 / 5)).NoneBetween (3 / 10) ∧ (gated (1 / 5)).NoneBetween (4 / 10)) :=
  ⟨by norm_num, by norm_num, tightens_iff _ (by norm_num) (by norm_num)⟩

/-- A threshold of 3/10 selects the offender of confidence 1/2 that the agent did not mark
confident. -/
theorem not_tightens_gated : ¬ Tightens (gated (1 / 2)) 0 (3 / 10) := by
  intro h
  have hrow : (gated (1 / 2)).Names .cpu ("web/a/app", 1 / 2) := ⟨.head _, by decide⟩
  obtain ⟨t, ht, hconf⟩ := exists_target (g := 3 / 10) hrow (by rw [Snapshot.gate]; norm_num)
  have hle : (7 / 10 : ℚ) ≤ t.confidence := h.confident (3 / 10) (by simp) t ht
  rw [hconf] at hle
  norm_num at hle
