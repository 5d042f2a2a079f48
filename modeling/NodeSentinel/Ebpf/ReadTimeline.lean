import NodeSentinel.Ebpf.CounterMap
import NodeSentinel.Ebpf.Timeline

/-!
# The sub-interval ring end to end

From a run of charges through the rings of all CPUs and `ReadTimeline` to the four series
of a cgroup, and the CPU time that `ReadCPU` reports for the same charges.
-/

variable {n : ℕ} {charges : List (Charge n)}

/-! ## The cgroups of the map -/

theorem TimelineMap.mem_charge {m : TimelineMap n} {ch : Charge n} {key : ℕ}
    (h : key ∈ m.charge ch) : key = ch.cgroup ∨ key ∈ m := by
  have hcreate : ∀ {key}, key ∈ m.create ch.cgroup → key = ch.cgroup ∨ key ∈ m := fun {key} h ↦ by
    unfold create at h
    split_ifs at h
    · exact .inr h
    · exact (AList.mem_insert m).mp h
    · exact .inr h
  unfold charge at h
  dsimp only at h
  split at h
  · exact hcreate h
  · exact ((AList.mem_insert _).mp h).elim .inl hcreate

theorem TimelineMap.mem_run {key : ℕ} (h : key ∈ run charges) : ∃ ch ∈ charges, ch.cgroup = key := by
  induction charges using List.reverseRecOn with
  | nil => exact absurd h (AList.notMem_empty key)
  | append_singleton charges ch ih =>
      rw [run, List.foldl_append, List.foldl_cons, List.foldl_nil] at h
      rcases mem_charge h with rfl | h
      · exact ⟨ch, by simp, rfl⟩
      · obtain ⟨ch', hch', he⟩ := ih h
        exact ⟨ch', List.mem_append_left _ hch', he⟩

/-- Where there are few cgroups, each has its rings. -/
theorem TimelineMap.mem_run_of_charge (h : InOrder charges)
    (hroom : (charges.map Charge.cgroup).toFinset.card < maxActiveCgroups) {ch : Charge n}
    (hch : ch ∈ charges) : ch.cgroup ∈ run charges := by
  refine (Rings.run h).present (lt_of_le_of_lt (AList.length_le_card _ fun key hkey ↦ ?_) hroom) ch
    hch
  obtain ⟨ch', hch', rfl⟩ := mem_run hkey
  exact List.mem_toFinset.mpr (List.mem_map_of_mem hch')

theorem mem_readTimeline {m : TimelineMap n} {refEpoch : ℕ} {tl : CgroupTimeline} :
    tl ∈ (readTimeline m refEpoch).1 ↔
      ∃ bs, m.lookup tl.cgroupID = some bs ∧ tl = drainCgroup refEpoch tl.cgroupID bs := by
  simp only [readTimeline, List.mem_map]
  constructor
  · rintro ⟨⟨key, bs⟩, he, rfl⟩
    rw [drainCgroup_cgroupID]
    exact ⟨bs, AList.mem_lookup_iff.mpr he, rfl⟩
  · rintro ⟨bs, hl, he⟩
    exact ⟨⟨_, bs⟩, AList.mem_lookup_iff.mp hl, he.symm⟩

/-! ## The sum of a series -/

/-- The windows of the axis together hold every charge that is not older. -/
theorem sum_charged (cgroup refEpoch : ℕ) (s : Series) (hstart : ∀ ch ∈ charges, ch.epoch ≠ 0)
    (href : ∀ ch ∈ charges, ch.epoch ≤ refEpoch)
    (hyoung : ∀ ch ∈ charges, refEpoch < ch.epoch + timelineBuckets) :
    ((List.range timelineBuckets).map fun pos ↦
      charged charges cgroup (refEpoch + pos - (timelineBuckets - 1)) s).sum =
      (charges.map fun ch ↦ if ch.cgroup = cgroup then ch.amount s else 0).sum := by
  have hT : timelineBuckets = 64 := rfl
  induction charges with
  | nil => simp [charged]
  | cons ch charges ih =>
      have hone : ((List.range timelineBuckets).map fun pos ↦
          if ch.cgroup = cgroup ∧ ch.epoch = refEpoch + pos - (timelineBuckets - 1) then
            ch.amount s else 0).sum = if ch.cgroup = cgroup then ch.amount s else 0 := by
        have h0 := hstart ch (.head _)
        have hle := href ch (.head _)
        have hlt := hyoung ch (.head _)
        have hpos : ∀ pos, ch.epoch = refEpoch + pos - (timelineBuckets - 1) ↔
            pos = ch.epoch + (timelineBuckets - 1) - refEpoch := by omega
        change ∑ pos ∈ Finset.range timelineBuckets, (if ch.cgroup = cgroup ∧
          ch.epoch = refEpoch + pos - (timelineBuckets - 1) then ch.amount s else 0) = _
        simp only [hpos, ite_and]
        split_ifs with hc
        · rw [Finset.sum_ite_eq', if_pos (Finset.mem_range.mpr (by omega))]
        · exact Finset.sum_const_zero
      simp only [charged, List.map_cons, List.sum_cons, List.sum_map_add] at ih ⊢
      rw [hone, ih (fun c hc ↦ hstart c (.tail _ hc)) (fun c hc ↦ href c (.tail _ hc))
        fun c hc ↦ hyoung c (.tail _ hc)]

/-! ## The CPU time of the same charges -/

/-- The slices among the charges, as `add_cpu_time` counts them. -/
def sliceEvents (charges : List (Charge n)) : List (KernelEvent n CPUTime) :=
  (charges.filter fun ch ↦ ch.kind = .slice).map fun ch ↦ ⟨ch.cpu, ch.cgroup, cpuMonitor ch.ns⟩

theorem eventTotal_sliceEvents (charges : List (Charge n)) (cgroup : ℕ) :
    eventTotal (sliceEvents charges) cgroup .onCpuNs =
      (charges.map fun ch ↦ if ch.cgroup = cgroup then ch.amount .cpu else 0).sum := by
  induction charges with
  | nil => rfl
  | cons ch charges ih =>
      simp only [eventTotal, sliceEvents, List.map_map] at ih ⊢
      rw [List.map_cons, List.sum_cons, ← ih, List.filter_cons]
      by_cases h : ch.kind = .slice
      · simp [h, Charge.amount, amount, cpuMonitor]
      · simp [h, Charge.amount]

/-! ## The drain -/

/-- The ring never mixes windows: a position of a series is what was charged in its window,
on all CPUs.  If no charge is older than the axis, the on-CPU series sums up to what
`ReadCPU` reports for the same charges. -/
theorem readTimeline_windows (h : InOrder charges) {refEpoch : ℕ}
    (href : ∀ ch ∈ charges, ch.epoch ≤ refEpoch)
    (hroom : (charges.map Charge.cgroup).toFinset.card < maxActiveCgroups) :
    (∀ ch ∈ charges, ∃ tl ∈ (readTimeline (TimelineMap.run charges) refEpoch).1,
      tl.cgroupID = ch.cgroup) ∧
    ∀ tl ∈ (readTimeline (TimelineMap.run charges) refEpoch).1,
      (∀ s, tl.get s = (List.range timelineBuckets).map fun pos ↦
        if timelineBuckets - 1 ≤ refEpoch + pos then
          charged charges tl.cgroupID (refEpoch + pos - (timelineBuckets - 1)) s else 0) ∧
      ((∀ ch ∈ charges, refEpoch < ch.epoch + timelineBuckets) →
        (∀ r ∈ (CounterMap.ofEvents (sliceEvents charges)).read.map readCPU,
          r.cgroupID = tl.cgroupID → tl.cpuNs.sum = r.onCpuNs) ∧
        ((∀ r ∈ (CounterMap.ofEvents (sliceEvents charges)).read.map readCPU,
          r.cgroupID ≠ tl.cgroupID) → tl.cpuNs.sum = 0)) := by
  have hT : timelineBuckets = 64 := rfl
  refine ⟨fun ch hch ↦ ?_, fun tl htl ↦ ?_⟩
  · obtain ⟨bs, hbs⟩ := Option.isSome_iff_exists.mp
      (AList.lookup_isSome.mpr (TimelineMap.mem_run_of_charge h hroom hch))
    refine ⟨drainCgroup refEpoch ch.cgroup bs, mem_readTimeline.mpr ⟨bs, ?_⟩,
      drainCgroup_cgroupID refEpoch ch.cgroup bs⟩
    rw [drainCgroup_cgroupID]
    exact ⟨hbs, rfl⟩
  · obtain ⟨bs, hbs, he⟩ := mem_readTimeline.mp htl
    have hget : ∀ s, tl.get s = (List.range timelineBuckets).map fun pos ↦
        charged charges tl.cgroupID (refEpoch + pos - (timelineBuckets - 1)) s := fun s ↦ by
      rw [he, drainCgroup_cgroupID]
      exact drainCgroup_get ((Rings.run h).slots hbs) h.started href s
    refine ⟨fun s ↦ ?_, fun hyoung ↦ ?_⟩
    · refine (hget s).trans (List.map_congr_left fun pos _ ↦ ?_)
      split_ifs with hpos
      · rfl
      · -- the axis starts before the first window
        refine List.sum_eq_zero fun v hv ↦ ?_
        obtain ⟨ch, hch, rfl⟩ := List.mem_map.mp hv
        have := h.started ch hch
        exact if_neg (by omega)
    · have hsum : tl.cpuNs.sum = eventTotal (sliceEvents charges) tl.cgroupID .onCpuNs := by
        rw [eventTotal_sliceEvents, ← sum_charged tl.cgroupID refEpoch .cpu h.started href hyoung]
        exact congrArg List.sum (hget .cpu)
      have hcounts := CounterMap.counts_ofEvents (sliceEvents charges)
      constructor
      · intro r hr hcg
        obtain ⟨e, hmem, rfl⟩ := List.mem_map.mp hr
        obtain ⟨hm, hstored⟩ := CounterMap.mem_read.mp hmem
        rw [hsum, ← hcg]
        change _ = e.2 .onCpuNs
        rw [hstored]
        exact (hcounts.sums hm _).symm
      · intro hnone
        rw [hsum]
        refine eventTotal_eq_zero (fun e hev he ↦ ?_) _
        have hfew : ((sliceEvents charges).map KernelEvent.cgroup).toFinset.card < maxCgroups := by
          refine (Finset.card_le_card fun cgroup hc ↦ ?_).trans_lt
            (hroom.trans (by decide))
          simp only [sliceEvents, List.map_map, List.mem_toFinset, List.mem_map,
            List.mem_filter, Function.comp_apply] at hc ⊢
          obtain ⟨ch, hch, hcg⟩ := hc
          exact ⟨ch, hch.1, hcg⟩
        have hm := CounterMap.mem_ofEvents hfew hev
        have hread : (e.cgroup, (CounterMap.ofEvents (sliceEvents charges)).stored e.cgroup) ∈
            (CounterMap.ofEvents (sliceEvents charges)).read := CounterMap.mem_read.mpr ⟨hm, rfl⟩
        exact hnone _ (List.mem_map_of_mem hread) he

/-- Two CPUs whose rings are revolutions apart: the first one's charges are older than the
axis, and the slot they share holds only the second one's. -/
def twoRevolutions : List (Charge 2) :=
  [⟨0, 1, 100 * timelineBucketNs, .slice, 7⟩, ⟨1, 1, 228 * timelineBucketNs, .slice, 5⟩,
    ⟨1, 1, 230 * timelineBucketNs, .wait, 3⟩]

theorem twoRevolutions_windows : ∃ tl ∈ (readTimeline (TimelineMap.run twoRevolutions) 230).1,
    tl.cgroupID = 1 ∧ tl.cpuNs = List.replicate 61 0 ++ [5, 0, 0] ∧
      tl.runqLatNs = List.replicate 63 0 ++ [3] := by
  have horder : InOrder twoRevolutions := ⟨by decide +kernel, by decide +kernel⟩
  have href : ∀ ch ∈ twoRevolutions, ch.epoch ≤ 230 := by decide +kernel
  obtain ⟨hmem, hall⟩ := readTimeline_windows horder href (by decide +kernel)
  obtain ⟨tl, htl, hcg⟩ := hmem _ (.head _)
  have hcg : tl.cgroupID = 1 := hcg
  have hget := (hall tl htl).1
  rw [hcg] at hget
  exact ⟨tl, htl, hcg, (hget .cpu).trans (by decide +kernel),
    (hget .runqLat).trans (by decide +kernel)⟩
