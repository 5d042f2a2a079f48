import NodeSentinel.Agent.BuildSnapshot

/-!
# Harm

Offenders are only scored against the victims of their own dimension, but nothing keeps a
cgroup from being both: the severity is that of the worst victim of the node, and the
bursts of an offender are compared with the stalls of every victim.
-/

variable {K : Type} [Field K] [LinearOrder K]

/-! ## No offender without a victim -/

section Victims

variable {ρ σ : Type} {d : Dimension K ρ σ} {cfg : Config K} {b : Baseline K} {rs : List ρ}

/-- Some reading is judged a victim. -/
def Dimension.Harmed (d : Dimension K ρ σ) (cfg : Config K) (b : Baseline K) (rs : List ρ) : Prop :=
  ∃ r ∈ rs, (d.judged cfg b r).isSome

theorem Dimension.harmed_of_scan (hnd : (rs.map d.cgroup).Nodup) (h : (d.scan cfg b rs).out ≠ []) :
    d.Harmed cfg b rs := by
  rw [scan_out hnd] at h
  obtain ⟨row, hrow⟩ := List.exists_mem_of_ne_nil _ h
  obtain ⟨r, hr, hj⟩ := List.mem_filterMap.mp hrow
  obtain ⟨p, hp, -⟩ := Option.map_eq_some_iff.mp hj
  exact ⟨r, hr, Option.isSome_iff_exists.mpr ⟨p, hp⟩⟩

theorem SliceSort.ne_nil_of_capVictims {κ : Type} [LinearOrder κ] {srt : SliceSort} {key : σ → κ}
    {out : List σ} {n : ℕ} (h : capVictims (srt.sort key out) n ≠ []) : out ≠ [] := by
  rintro rfl
  refine h ?_
  rw [List.perm_nil.mp (srt.perm key [])]
  exact List.take_nil

end Victims

section Snapshot

variable [FloorSemiring K] [Sqrt K] {srt : SliceSort} {a : Agent K} {i : ReportInterval}

theorem harmed_of_offenders (h : (buildSnapshot srt a i).1.offenders ≠ []) :
    (cpuDimension a.cfg i.res.label).Harmed a.cfg a.baseline i.runq :=
  Dimension.harmed_of_scan i.runq_nodup
    (SliceSort.ne_nil_of_capVictims fun hv ↦ h (buildSnapshot_offenders hv))

theorem harmed_of_ioOffenders (h : (buildSnapshot srt a i).1.ioOffenders ≠ []) :
    (ioDimension a.cfg i.res.label).Harmed a.cfg a.ioBaseline i.blkio :=
  Dimension.harmed_of_scan i.blkio_nodup
    (SliceSort.ne_nil_of_capVictims fun hv ↦ h (buildSnapshot_ioOffenders hv))

theorem harmed_of_netOffenders (h : (buildSnapshot srt a i).1.netOffenders ≠ []) :
    (netDimension a.cfg i.res.label).Harmed a.cfg a.netBaseline i.network :=
  Dimension.harmed_of_scan i.network_nodup
    (SliceSort.ne_nil_of_capVictims fun hv ↦ h (buildSnapshot_netOffenders hv))

end Snapshot

/-! ## Its own stalls -/

section Burst

variable [Sqrt K] (tl : ℕ → Option CgroupTimeline) (pod : ℕ) (victims : List ℕ)

/-- The burst correlation is the larger of the one with the other victims and the one with
its own stalls. -/
theorem burstCorrelation_eq_max : (burstCorrelation tl pod victims : K × ℕ).1 =
    max (burstCorrelation tl pod (victims.filter (· ≠ pod))).1
      (burstCorrelation tl pod (victims.filter (· = pod))).1 := by
  cases h : tl pod with
  | none => simp [burstCorrelation, h]
  | some off =>
      refine eq_of_forall_ge_iff fun c ↦ ?_
      rw [max_le_iff, burstCorrelation_le_iff h, burstCorrelation_le_iff h,
        burstCorrelation_le_iff h]
      simp only [List.mem_filter, decide_eq_true_eq, ne_eq]
      constructor
      · rintro ⟨hc, hall⟩
        exact ⟨⟨hc, fun v hv ↦ hall v hv.1⟩, hc, fun v hv ↦ hall v hv.1⟩
      · rintro ⟨⟨hc, hothers⟩, -, hown⟩
        refine ⟨hc, fun v hv ↦ ?_⟩
        by_cases hvp : v = pod
        · exact hown v ⟨hv, hvp⟩
        · exact hothers v ⟨hv, hvp⟩

end Burst

/-- A confidence above zero needs a victim of its dimension, and the burst correlation one
that has stalled; the cgroup itself counts. -/
theorem confident_harmed [FloorSemiring K] [Sqrt K] (srt : SliceSort) (a : Agent K) (i : ReportInterval) :
    ((∃ o ∈ (buildSnapshot srt a i).1.offenders, 0 < o.confidence) →
      (cpuDimension a.cfg i.res.label).Harmed a.cfg a.baseline i.runq) ∧
    ((∃ o ∈ (buildSnapshot srt a i).1.ioOffenders, 0 < o.confidence) →
      (ioDimension a.cfg i.res.label).Harmed a.cfg a.ioBaseline i.blkio) ∧
    ((∃ o ∈ (buildSnapshot srt a i).1.netOffenders, 0 < o.confidence) →
      (netDimension a.cfg i.res.label).Harmed a.cfg a.netBaseline i.network) ∧
    ∀ tl pod victims, (burstCorrelation tl pod victims : K × ℕ).1 =
      max (burstCorrelation tl pod (victims.filter (· ≠ pod))).1
        (burstCorrelation tl pod (victims.filter (· = pod))).1 :=
  ⟨fun ⟨_, ho, _⟩ ↦ harmed_of_offenders (List.ne_nil_of_mem ho),
    fun ⟨_, ho, _⟩ ↦ harmed_of_ioOffenders (List.ne_nil_of_mem ho),
    fun ⟨_, ho, _⟩ ↦ harmed_of_netOffenders (List.ne_nil_of_mem ho), burstCorrelation_eq_max⟩

/-! ## A pod that stalls itself -/

/-- Pod 1 uses most of the CPU and is the only one that waits for it. -/
def selfStall : ReportInterval where
  cpu := [⟨1, 900⟩, ⟨2, 100⟩]
  runq := [⟨1, List.replicate 13 0 ++ [100], 100⟩]
  blkio := []
  network := []
  timeline := []
  res := .steady (fun cg ↦ if cg = 1 then some ⟨"web", "a", "app", 100⟩
    else some ⟨"web", "b", "app", 900⟩) fun _ ↦ none

/-- A timeline whose bursts are its own stalls. -/
def selfTimeline : CgroupTimeline where
  cgroupID := 1
  runqLatNs := List.replicate 59 0 ++ List.replicate 5 2000000
  runqCount := List.replicate 59 0 ++ List.replicate 5 1
  cpuNs := List.replicate 59 0 ++ List.replicate 5 2000000
  ctxSwitch := List.replicate 59 0 ++ List.replicate 5 1

/-- It is named a noisy neighbour, and its own stalls make it more of one. -/
theorem selfStall_confident :
    (¬ ∀ o ∈ (buildSnapshot .insertion (newAgent (defaultConfig ℚ)) selfStall).1.offenders,
      0 < o.confidence → ∃ r ∈ selfStall.runq, selfStall.res.label r.cgroupID ≠ o.pod ∧
        ((cpuDimension (defaultConfig ℚ) selfStall.res.label).judged (defaultConfig ℚ)
          (newAgent (defaultConfig ℚ)).baseline r).isSome) ∧
    ¬ ∀ (tl : ℕ → Option CgroupTimeline) (pod : ℕ) (victims : List ℕ),
      (burstCorrelation tl pod (victims.filter (· ≠ pod)) : ℚ × ℕ).1 =
        (burstCorrelation tl pod victims).1 := by
  constructor
  · intro h
    obtain ⟨o, ho, hpod, hconf⟩ : ∃ o ∈ (buildSnapshot .insertion (newAgent (defaultConfig ℚ))
        selfStall).1.offenders, o.pod = selfStall.res.label 1 ∧ 0 < o.confidence := by
      exact ⟨_, List.head_mem (by decide +kernel), by decide +kernel, by decide +kernel⟩
    obtain ⟨r, hr, hne, -⟩ := h o ho hconf
    obtain rfl := List.mem_singleton.mp hr
    exact hne hpod.symm
  · intro h
    have hself := h (fun _ ↦ some selfTimeline) 1 [1]
    exact absurd hself (by decide +kernel)
