import NodeSentinel.Data.Keyed
import NodeSentinel.Data.Literal
import NodeSentinel.Report.Snapshot

/-!
# The scrape

`Collect` of `prometheus.go` turns the snapshot of the store into samples.  Prometheus rejects
the whole scrape of a node when two of them have one name and one label set, or when one has a
descriptor that `Describe` did not announce; a restarted container gives two rows one label.
`K` stands for `float64`, of which only the operations of the code are used: no law of arithmetic
or of the order is assumed.
-/

/-- A metric descriptor, less its help text. -/
structure Desc where
  fqName : String
  variableLabels : List String
deriving DecidableEq, Repr

def descContended : Desc := ⟨"sentinel_node_contended", []⟩
def descCgroups : Desc := ⟨"sentinel_cgroups_observed", []⟩
def descIntensity : Desc := ⟨"sentinel_pod_cpu_intensity_ratio", ["pod"]⟩
def descCPUms : Desc := ⟨"sentinel_pod_cpu_milliseconds", ["pod"]⟩
def descThrottle : Desc := ⟨"sentinel_pod_cpu_throttle_ratio", ["pod"]⟩
def descBurstCorr : Desc := ⟨"sentinel_pod_cpu_burst_correlation", ["pod"]⟩
def descRunqP99 : Desc := ⟨"sentinel_pod_runqueue_p99_microseconds", ["pod"]⟩
def descRunqP50 : Desc := ⟨"sentinel_pod_runqueue_p50_microseconds", ["pod"]⟩
def descMaxConfidence : Desc := ⟨"sentinel_max_offender_confidence", []⟩
def descConfidence : Desc := ⟨"sentinel_pod_offender_confidence", ["pod"]⟩
def descDegradation : Desc := ⟨"sentinel_pod_runqueue_degradation", ["pod"]⟩
def descIOBytes : Desc := ⟨"sentinel_pod_io_bytes", ["pod"]⟩
def descIOLatP99 : Desc := ⟨"sentinel_pod_io_latency_p99_microseconds", ["pod"]⟩
def descIOConfidence : Desc := ⟨"sentinel_pod_io_offender_confidence", ["pod"]⟩
def descIOMaxConfidence : Desc := ⟨"sentinel_max_io_offender_confidence", []⟩
def descNetTxBytes : Desc := ⟨"sentinel_pod_net_tx_bytes", ["pod"]⟩
def descNetRetransmits : Desc := ⟨"sentinel_pod_net_retransmits", ["pod"]⟩
def descNetConfidence : Desc := ⟨"sentinel_pod_net_offender_confidence", ["pod"]⟩
def descNetMaxConfidence : Desc := ⟨"sentinel_max_net_offender_confidence", []⟩

/-- `Describe`. -/
def describe : List Desc :=
  [descContended, descCgroups, descIntensity, descCPUms, descThrottle, descBurstCorr, descRunqP99,
    descRunqP50, descMaxConfidence, descConfidence, descDegradation, descIOBytes, descIOLatP99,
    descIOConfidence, descIOMaxConfidence, descNetTxBytes, descNetRetransmits, descNetConfidence,
    descNetMaxConfidence]

/-- A gauge sample.  It has a value for each label of its descriptor. -/
structure Metric (K : Type*) where
  desc : Desc
  value : K
  labelValues : List String
  labelled : labelValues.length = desc.variableLabels.length

variable {K : Type*}

/-- `MustNewConstMetric` for a gauge.  It panics where the label values do not fit. -/
def mustNewConstMetric (desc : Desc) (value : K) (labelValues : List String)
    (h : labelValues.length = desc.variableLabels.length) : Metric K :=
  ⟨desc, value, labelValues, h⟩

/-- What no two samples of a scrape may share. -/
def Metric.series (m : Metric K) : Desc × List String := (m.desc, m.labelValues)

/-! ## Collect -/

section Collect

variable {R : Type*}

/-- The loops of `Collect`: a row is skipped when its pod is already seen. -/
def emitRows (pod : R → String) (emit : R → List (Metric K)) :
    List String → List R → List (Metric K)
  | _, [] => []
  | seen, o :: rows =>
    if pod o ∈ seen then
      -- guard against a duplicate label set breaking the scrape
      emitRows pod emit seen rows
    else emit o ++ emitRows pod emit (pod o :: seen) rows

variable [Zero K] [One K] [NatCast K] [Mul K] [Div K] [LE K] [DecidableLE K] [LT K] [DecidableLT K]

/-- The samples of a row of `Offenders`. -/
def offenderMetrics (o : Offender K) : List (Metric K) :=
  [mustNewConstMetric descIntensity (o.intensity / 100) [o.pod] rfl,
    mustNewConstMetric descCPUms o.cpuMs [o.pod] rfl,
    mustNewConstMetric descThrottle (o.throttlePct / 100) [o.pod] rfl] ++
  (if o.correlPct ≥ 0 then
    [mustNewConstMetric descBurstCorr (o.correlPct / 100) [o.pod] rfl] else []) ++
  (if o.confidence ≥ 0 then
    [mustNewConstMetric descConfidence o.confidence [o.pod] rfl] else [])

/-- The samples of a row of `Victims`. -/
def victimMetrics (v : Victim K) : List (Metric K) :=
  [mustNewConstMetric descRunqP99 v.p99us [v.pod] rfl,
    mustNewConstMetric descRunqP50 v.p50us [v.pod] rfl] ++
  (if v.degradation > 0 then
    [mustNewConstMetric descDegradation v.degradation [v.pod] rfl] else [])

/-- The samples of a row of `IOOffenders`. -/
def ioOffenderMetrics (o : IOOffender K) : List (Metric K) :=
  [mustNewConstMetric descIOBytes (o.mb * 1000000) [o.pod] rfl] ++
  (if o.confidence ≥ 0 then
    [mustNewConstMetric descIOConfidence o.confidence [o.pod] rfl] else [])

/-- The sample of a row of `IOVictims`. -/
def ioVictimMetrics (v : Victim K) : List (Metric K) :=
  [mustNewConstMetric descIOLatP99 v.p99us [v.pod] rfl]

/-- The samples of a row of `NetOffenders`. -/
def netOffenderMetrics (o : NetOffender K) : List (Metric K) :=
  [mustNewConstMetric descNetTxBytes (o.mb * 1000000) [o.pod] rfl] ++
  (if o.confidence ≥ 0 then
    [mustNewConstMetric descNetConfidence o.confidence [o.pod] rfl] else [])

/-- The sample of a row of `NetVictims`. -/
def netVictimMetrics (v : NetVictim K) : List (Metric K) :=
  [mustNewConstMetric descNetRetransmits (v.retransmits : K) [v.pod] rfl]

/-- The node-level gauges that `Collect` starts with. -/
def nodeMetrics (s : Snapshot K) : List (Metric K) :=
  let contended : K := if s.healthy then 0 else 1
  [mustNewConstMetric descContended contended [] rfl,
    mustNewConstMetric descCgroups (s.cgroupsSeen : K) [] rfl,
    mustNewConstMetric descMaxConfidence s.maxConfidence [] rfl]

/-- `Collect` on the snapshot of the store. -/
def collect (s : Snapshot K) : List (Metric K) :=
  nodeMetrics s ++
  emitRows Offender.pod offenderMetrics [] s.offenders ++
  emitRows Victim.pod victimMetrics [] s.victims ++
  [mustNewConstMetric descIOMaxConfidence s.ioMaxConfidence [] rfl] ++
  emitRows IOOffender.pod ioOffenderMetrics [] s.ioOffenders ++
  emitRows Victim.pod ioVictimMetrics [] s.ioVictims ++
  [mustNewConstMetric descNetMaxConfidence s.netMaxConfidence [] rfl] ++
  emitRows NetOffender.pod netOffenderMetrics [] s.netOffenders ++
  emitRows NetVictim.pod netVictimMetrics [] s.netVictims

end Collect

/-- Every descriptor has a name of its own, so the registry takes the collector. -/
theorem nodup_describe_fqName : (describe.map Desc.fqName).Nodup := by decide

/-! ## One loop -/

section Rows

variable {R : Type*} {pod : R → String} {emit : R → List (Metric K)} {descs : List Desc}

theorem emitRows_eq (seen : List String) (rows : List R) :
    emitRows pod emit seen rows = (firsts pod seen rows).flatMap emit := by
  induction rows generalizing seen with
  | nil => rfl
  | cons o rows ih =>
      rw [emitRows]
      by_cases ho : pod o ∈ seen
      · rw [if_pos ho, firsts_cons_of_mem ho, ih]
      · rw [if_neg ho, firsts_cons_of_notMem ho, List.flatMap_cons, ih]

/-- A row gives each of its descriptors at most one sample, labelled with its pod. -/
structure RowMetrics (pod : R → String) (emit : R → List (Metric K)) (descs : List Desc) :
    Prop where
  sublist : ∀ o, ((emit o).map Metric.desc).Sublist descs
  labelValues : ∀ o, ∀ m ∈ emit o, m.labelValues = [pod o]

namespace RowMetrics

theorem desc_mem (h : RowMetrics pod emit descs) {seen : List String} {rows : List R}
    {m : Metric K} (hm : m ∈ emitRows pod emit seen rows) : m.desc ∈ descs := by
  rw [emitRows_eq] at hm
  obtain ⟨o, -, hm⟩ := List.mem_flatMap.mp hm
  exact (h.sublist o).subset (List.mem_map_of_mem hm)

theorem nodup_series (h : RowMetrics pod emit descs) (hd : descs.Nodup) (seen : List String)
    (rows : List R) : ((emitRows pod emit seen rows).map Metric.series).Nodup := by
  rw [emitRows_eq]
  have hkeys : ((firsts pod seen rows).map fun o ↦ [pod o]).Nodup := by
    have hinj : Function.Injective fun p : String ↦ [p] := fun p q hpq ↦ List.head_eq_of_cons_eq hpq
    have hpods : ((firsts pod seen rows).map pod).Nodup := nodup_map_firsts
    have hmap := hpods.map hinj
    rwa [List.map_map] at hmap
  exact nodup_flatMap_items hkeys h.labelValues fun o ↦ hd.sublist (h.sublist o)

/-- The samples of a pod are those of its first row. -/
theorem filter_emitRows (h : RowMetrics pod emit descs) (rows : List R) (p : String) :
    (emitRows pod emit [] rows).filter (fun m ↦ m.labelValues = [p]) =
      (rows.find? (pod · = p)).elim [] emit := by
  rw [emitRows_eq, filter_flatMap_items h.labelValues]
  have hkey : (firsts pod [] rows).filter (fun o ↦ [pod o] = [p]) =
      (firsts pod [] rows).filter (pod · = p) :=
    List.filter_congr fun o _ ↦ by simp
  rw [hkey, filter_firsts List.not_mem_nil]
  cases rows.find? (pod · = p) with
  | none => rfl
  | some o => simp

/-- A restarted container: the second row of the pod gives no sample. -/
example : (emitRows Victim.pod ioVictimMetrics []
    [⟨"shop/db", 1, 9, 0, 4⟩, ⟨"shop/web", 1, 7, 0, 4⟩, ⟨"shop/db", 1, 5, 0, 4⟩]).map
      (fun m ↦ (m.labelValues, m.value)) = [(["shop/db"], (9 : ℤ)), (["shop/web"], 7)] := by decide

/-! ### How a body is put together -/

theorem nil : RowMetrics pod (fun _ ↦ ([] : List (Metric K))) [] where
  sublist _ := List.Sublist.refl _
  labelValues _ _ hm := absurd hm List.not_mem_nil

/-- A sample that every row has. -/
theorem cons (h : RowMetrics pod emit descs) (d : Desc) {m : R → Metric K}
    (hd : ∀ o, (m o).desc = d) (hl : ∀ o, (m o).labelValues = [pod o]) :
    RowMetrics pod (fun o ↦ m o :: emit o) (d :: descs) where
  sublist o := by
    rw [List.map_cons, hd]
    exact (h.sublist o).cons_cons d
  labelValues o := List.forall_mem_cons.mpr ⟨hl o, h.labelValues o⟩

/-- A sample that a row has under a condition. -/
theorem guarded (h : RowMetrics pod emit descs) (d : Desc) {c : R → Prop} [DecidablePred c]
    {m : R → Metric K} (hd : ∀ o, (m o).desc = d) (hl : ∀ o, (m o).labelValues = [pod o]) :
    RowMetrics pod (fun o ↦ emit o ++ if c o then [m o] else []) (descs ++ [d]) where
  sublist o := by
    rw [List.map_append]
    refine (h.sublist o).append ?_
    by_cases hc : c o
    · rw [if_pos hc, List.map_singleton, hd]
    · rw [if_neg hc]
      exact List.nil_sublist _
  labelValues o := by
    refine List.forall_mem_append.mpr ⟨h.labelValues o, fun x hx ↦ ?_⟩
    rw [List.mem_ite_nil_right, List.mem_singleton] at hx
    rw [hx.2, hl]

end RowMetrics

end Rows

/-! ## The loops of `Collect` -/

def nodeDescs : List Desc := [descContended, descCgroups, descMaxConfidence]
def offenderDescs : List Desc :=
  [descIntensity, descCPUms, descThrottle, descBurstCorr, descConfidence]
def victimDescs : List Desc := [descRunqP99, descRunqP50, descDegradation]
def ioOffenderDescs : List Desc := [descIOBytes, descIOConfidence]
def ioVictimDescs : List Desc := [descIOLatP99]
def netOffenderDescs : List Desc := [descNetTxBytes, descNetConfidence]
def netVictimDescs : List Desc := [descNetRetransmits]

theorem nodeMetrics_desc [Zero K] [One K] [NatCast K] (s : Snapshot K) :
    (nodeMetrics s).map Metric.desc = nodeDescs := rfl

section Rows

variable {K : Type*} [Zero K] [NatCast K] [LE K] [DecidableLE K]

theorem offenderMetrics_row [Div K] :
    RowMetrics Offender.pod (offenderMetrics (K := K)) offenderDescs := by
  refine .guarded (.guarded (.cons (.cons (.cons .nil descThrottle ?_ ?_) descCPUms ?_ ?_)
    descIntensity ?_ ?_) descBurstCorr ?_ ?_) descConfidence ?_ ?_ <;>
  · intro o
    rfl

theorem ioOffenderMetrics_row [Mul K] :
    RowMetrics IOOffender.pod (ioOffenderMetrics (K := K)) ioOffenderDescs := by
  refine .guarded (.cons .nil descIOBytes ?_ ?_) descIOConfidence ?_ ?_ <;>
  · intro o
    rfl

theorem netOffenderMetrics_row [Mul K] :
    RowMetrics NetOffender.pod (netOffenderMetrics (K := K)) netOffenderDescs := by
  refine .guarded (.cons .nil descNetTxBytes ?_ ?_) descNetConfidence ?_ ?_ <;>
  · intro o
    rfl

end Rows

theorem victimMetrics_row [Zero K] [LT K] [DecidableLT K] :
    RowMetrics Victim.pod (victimMetrics (K := K)) victimDescs := by
  refine .guarded (.cons (.cons .nil descRunqP50 ?_ ?_) descRunqP99 ?_ ?_) descDegradation ?_ ?_ <;>
  · intro v
    rfl

theorem ioVictimMetrics_row : RowMetrics Victim.pod (ioVictimMetrics (K := K)) ioVictimDescs := by
  refine .cons .nil descIOLatP99 ?_ ?_ <;>
  · intro v
    rfl

theorem netVictimMetrics_row [NatCast K] :
    RowMetrics NetVictim.pod (netVictimMetrics (K := K)) netVictimDescs := by
  refine .cons .nil descNetRetransmits ?_ ?_ <;>
  · intro v
    rfl

/-! ## The whole scrape -/

/-- The samples of a scrape that have one of the given descriptors and the pod's label. -/
def samplesOf (out : List (Metric K)) (descs : List Desc) (pod : String) : List (Metric K) :=
  out.filter fun m ↦ m.desc ∈ descs ∧ m.labelValues = [pod]

section Scrape

variable [Zero K] [One K] [NatCast K] [Mul K] [Div K] [LE K] [DecidableLE K] [LT K] [DecidableLT K]

/-- A scrape of a snapshot that the registry takes, with each pod at its first row. -/
structure Scrapable (s : Snapshot K) (out : List (Metric K)) : Prop where
  nodup : (out.map Metric.series).Nodup
  described : ∀ m ∈ out, m.desc ∈ describe
  offenders : ∀ p, samplesOf out offenderDescs p =
    (s.offenders.find? (·.pod = p)).elim [] offenderMetrics
  victims : ∀ p, samplesOf out victimDescs p =
    (s.victims.find? (·.pod = p)).elim [] victimMetrics
  ioOffenders : ∀ p, samplesOf out ioOffenderDescs p =
    (s.ioOffenders.find? (·.pod = p)).elim [] ioOffenderMetrics
  ioVictims : ∀ p, samplesOf out ioVictimDescs p =
    (s.ioVictims.find? (·.pod = p)).elim [] ioVictimMetrics
  netOffenders : ∀ p, samplesOf out netOffenderDescs p =
    (s.netOffenders.find? (·.pod = p)).elim [] netOffenderMetrics
  netVictims : ∀ p, samplesOf out netVictimDescs p =
    (s.netVictims.find? (·.pod = p)).elim [] netVictimMetrics

/-- What `Collect` sends, each part with the descriptors that are its own. -/
def collectParts (s : Snapshot K) : List (List Desc × List (Metric K)) :=
  [(nodeDescs, nodeMetrics s),
    (offenderDescs, emitRows Offender.pod offenderMetrics [] s.offenders),
    (victimDescs, emitRows Victim.pod victimMetrics [] s.victims),
    ([descIOMaxConfidence], [mustNewConstMetric descIOMaxConfidence s.ioMaxConfidence [] rfl]),
    (ioOffenderDescs, emitRows IOOffender.pod ioOffenderMetrics [] s.ioOffenders),
    (ioVictimDescs, emitRows Victim.pod ioVictimMetrics [] s.ioVictims),
    ([descNetMaxConfidence], [mustNewConstMetric descNetMaxConfidence s.netMaxConfidence [] rfl]),
    (netOffenderDescs, emitRows NetOffender.pod netOffenderMetrics [] s.netOffenders),
    (netVictimDescs, emitRows NetVictim.pod netVictimMetrics [] s.netVictims)]

theorem collect_eq (s : Snapshot K) : collect s = (collectParts s).flatMap Prod.snd := by
  simp only [collect, collectParts, List.flatMap_cons, List.flatMap_nil, List.append_nil,
    List.append_assoc]

/-- `Describe` announces the descriptors of every part, and no others. -/
theorem tags_perm_describe (s : Snapshot K) : ((collectParts s).flatMap Prod.fst).Perm describe := by
  show List.Perm (nodeDescs ++ (offenderDescs ++ (victimDescs ++ ([descIOMaxConfidence] ++
    (ioOffenderDescs ++ (ioVictimDescs ++ ([descNetMaxConfidence] ++
    (netOffenderDescs ++ (netVictimDescs ++ []))))))))) describe
  decide

/-- No two loops share a descriptor, and none has that of a node-level gauge. -/
theorem parts_collect (s : Snapshot K) : Parts Metric.desc (collectParts s) where
  own := by
    simp only [collectParts, List.forall_mem_cons]
    refine ⟨fun m hm ↦ ?_, fun m ↦ offenderMetrics_row.desc_mem, fun m ↦ victimMetrics_row.desc_mem,
      ⟨.head _, List.forall_mem_nil _⟩, fun m ↦ ioOffenderMetrics_row.desc_mem,
      fun m ↦ ioVictimMetrics_row.desc_mem, ⟨.head _, List.forall_mem_nil _⟩,
      fun m ↦ netOffenderMetrics_row.desc_mem, fun m ↦ netVictimMetrics_row.desc_mem,
      List.forall_mem_nil _⟩
    rw [← nodeMetrics_desc s]
    exact List.mem_map_of_mem hm
  nodup := by
    rw [(tags_perm_describe s).nodup_iff]
    exact nodup_describe_fqName.of_map Desc.fqName

/-- The samples of a loop's descriptors for a pod are those of its first row. -/
theorem samplesOf_collect {R : Type*} {pod : R → String} {emit : R → List (Metric K)}
    {descs : List Desc} (h : RowMetrics pod emit descs) {s : Snapshot K} {rows : List R}
    (hpart : (descs, emitRows pod emit [] rows) ∈ collectParts s) (p : String) :
    samplesOf (collect s) descs p = (rows.find? (pod · = p)).elim [] emit := by
  have hdescs : (collect s).filter (·.desc ∈ descs) = emitRows pod emit [] rows := by
    rw [collect_eq]
    exact (parts_collect s).filter_part hpart
  rw [← h.filter_emitRows rows p, ← hdescs, List.filter_filter]
  refine List.filter_congr fun m _ ↦ ?_
  rw [Bool.decide_and, Bool.and_comm]

theorem nodup_series_part (s : Snapshot K) :
    ∀ part ∈ collectParts s, (part.2.map Metric.series).Nodup := by
  have hdescs : ∀ part ∈ collectParts s, part.1.Nodup := fun _ ↦ (parts_collect s).nodup_tags
  simp only [collectParts, List.forall_mem_cons] at hdescs ⊢
  obtain ⟨hnode, hoff, hvic, -, hio, hiov, -, hnet, hnetv, -⟩ := hdescs
  refine ⟨?_, offenderMetrics_row.nodup_series hoff [] _, victimMetrics_row.nodup_series hvic [] _,
    List.nodup_singleton _, ioOffenderMetrics_row.nodup_series hio [] _,
    ioVictimMetrics_row.nodup_series hiov [] _, List.nodup_singleton _,
    netOffenderMetrics_row.nodup_series hnet [] _, netVictimMetrics_row.nodup_series hnetv [] _,
    List.forall_mem_nil _⟩
  -- the node-level gauges have no label: their descriptors alone tell them apart
  apply List.Nodup.of_map Prod.fst
  rw [List.map_map]
  exact hnode

theorem nodup_series_collect (s : Snapshot K) : ((collect s).map Metric.series).Nodup := by
  rw [collect_eq]
  exact (parts_collect s).nodup_map (fun m n h ↦ congrArg Prod.fst h) (nodup_series_part s)

theorem described_collect {s : Snapshot K} {m : Metric K} (hm : m ∈ collect s) :
    m.desc ∈ describe := by
  rw [collect_eq] at hm
  exact (tags_perm_describe s).mem_iff.mp ((parts_collect s).mem_tags hm)

/-- The registry compares names: they tell the samples apart as the descriptors do. -/
theorem nodup_names_collect (s : Snapshot K) :
    ((collect s).map fun m ↦ (m.desc.fqName, m.labelValues)).Nodup := by
  have hseries := nodup_series_collect s
  refine hseries.of_map.map_on fun m hm n hn he ↦ ?_
  obtain ⟨hname, hlabels⟩ := Prod.mk.inj he
  have hdesc : m.desc = n.desc := List.inj_on_of_nodup_map nodup_describe_fqName
    (described_collect hm) (described_collect hn) hname
  exact List.inj_on_of_nodup_map hseries hm hn (Prod.ext hdesc hlabels)

/-- Whatever rows and labels the snapshot repeats, its scrape is taken. -/
theorem collect_scrapable (s : Snapshot K) : Scrapable s (collect s) where
  nodup := nodup_series_collect s
  described _ := described_collect
  offenders := samplesOf_collect offenderMetrics_row (by simp [collectParts])
  victims := samplesOf_collect victimMetrics_row (by simp [collectParts])
  ioOffenders := samplesOf_collect ioOffenderMetrics_row (by simp [collectParts])
  ioVictims := samplesOf_collect ioVictimMetrics_row (by simp [collectParts])
  netOffenders := samplesOf_collect netOffenderMetrics_row (by simp [collectParts])
  netVictims := samplesOf_collect netVictimMetrics_row (by simp [collectParts])

end Scrape
