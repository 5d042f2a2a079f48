import NodeSentinel.Agent.Rows
import NodeSentinel.Ebpf.NetMonitor

/-!
# From the sockets to the verdict

The network half of a snapshot, told by what the sockets of the cgroups have done in the interval:
who is a victim of it, and how much a sender has sent.  The counters of the kernel, of which there
is one for each CPU, do not matter.
-/

variable {K : Type} [Field K] [LinearOrder K] [IsStrictOrderedRing K] {n : ℕ}

/-- A cgroup is in trouble: it has sent enough to be judged, and had to send too much of it again,
also for what is normal for it, as far as that is known. -/
structure InTrouble (cfg : Config K) (b : Baseline K) (calls : List (NetCall n)) (cg : ℕ) : Prop where
  active : uint64 cfg.minSegs ≤ sends calls cg
  count : uint64 cfg.retransWarn ≤ retransmissions calls cg
  rate : cfg.retransRateWarn ≤ retransmissions calls cg / sends calls cg
  unusual : ∀ e, b.state cg = some e → b.warmup ≤ e.samples → 0 < e.value →
    cfg.deviationFactor * e.value ≤ retransmissions calls cg / sends calls cg

/-- What `judgeVictim` calls a victim. -/
theorem judgeVictim_isVictim_iff (cfg : Config K) (b : Baseline K) (floor value : K) (cg : ℕ) :
    (judgeVictim cfg b floor cg value).1.isVictim = true ↔ floor ≤ value ∧
      ∀ e, b.state cg = some e → b.warmup ≤ e.samples → 0 < e.value →
        cfg.deviationFactor * e.value ≤ value := by
  cases hdev : b.deviation cg value with
  | none =>
      have hcold : ∀ e, b.state cg = some e → b.warmup ≤ e.samples → 0 < e.value →
          cfg.deviationFactor * e.value ≤ value := fun e he hwarm hpos ↦ by
        rw [Baseline.deviation_eq_some_iff.mpr ⟨e, he, hwarm, hpos, rfl⟩] at hdev
        cases hdev
      simp only [judgeVictim, hdev, ge_iff_le, decide_eq_true_eq]
      exact (and_iff_left hcold).symm
  | some ratio =>
      obtain ⟨e, he, hwarm, hpos, rfl⟩ := Baseline.deviation_eq_some_iff.mp hdev
      have hfactor : value / e.value < cfg.deviationFactor ↔
          ¬ cfg.deviationFactor * e.value ≤ value := by
        rw [← le_div_iff₀ hpos, not_le]
      simp only [judgeVictim, hdev, hfactor, ge_iff_le]
      split_ifs with h
      · rw [decide_eq_true_eq]
        refine (and_iff_left fun e' he' _ _ ↦ ?_).symm
        obtain rfl := Option.some.inj (he.symm.trans he')
        exact h
      · exact iff_of_false not_false fun hall ↦ h (hall.2 e he hwarm hpos)

section Judged

variable {cfg : Config K} {b : Baseline K} {calls : List (NetCall n)} {cg : ℕ}

/-- The reading of a cgroup is judged a victim if the cgroup is in trouble. -/
theorem judged_netReading_iff (label : ℕ → String) :
    ((netDimension cfg label).judged cfg b (netReading calls cg)).isSome ↔
      InTrouble cfg b calls cg := by
  have hvalue : (netDimension cfg label).value (netReading calls cg) =
      if sends calls cg < uint64 cfg.minSegs then none
      else if retransmissions calls cg < uint64 cfg.retransWarn then none
      else some (retransmissions calls cg / sends calls cg : K) := rfl
  rw [Dimension.judged, hvalue]
  by_cases hactive : uint64 cfg.minSegs ≤ sends calls cg
  · rw [if_neg (not_lt.mpr hactive)]
    by_cases hcount : uint64 cfg.retransWarn ≤ retransmissions calls cg
    · rw [if_neg (not_lt.mpr hcount), Option.bind_some]
      dsimp only
      have hvictim := judgeVictim_isVictim_iff cfg b cfg.retransRateWarn
        (retransmissions calls cg / sends calls cg) cg
      split_ifs with h
      · obtain ⟨hrate, hunusual⟩ := hvictim.mp h
        exact iff_of_true rfl ⟨hactive, hcount, hrate, hunusual⟩
      · exact iff_of_false Bool.false_ne_true fun ht ↦ h (hvictim.mpr ⟨ht.rate, ht.unusual⟩)
    · rw [if_pos (not_le.mp hcount)]
      exact iff_of_false Bool.false_ne_true fun ht ↦ hcount ht.count
  · rw [if_pos (not_le.mp hactive)]
    exact iff_of_false Bool.false_ne_true fun ht ↦ hactive ht.active

end Judged

/-! ## One interval -/

section Interval

variable {a : Agent K} {i : ReportInterval} {calls : List (NetCall n)}

/-- Who is in the list of victims is in trouble. -/
theorem exists_inTrouble_of_mem (hread : i.network.Perm (readNetMap calls)) {v : NetVictim K}
    (hv : v ∈ (netScan a i).out) : ∃ cg, InTrouble a.cfg a.netBaseline calls cg ∧
      v.pod = i.res.label cg ∧ v.retransmits = retransmissions calls cg ∧
      v.segs = sends calls cg := by
  rw [netScan, Dimension.scan_out i.network_nodup, List.mem_filterMap] at hv
  obtain ⟨r, hr, hrow⟩ := hv
  obtain ⟨p, hp, rfl⟩ := Option.map_eq_some_iff.mp hrow
  obtain ⟨-, hexact⟩ := mem_readNetMap.mp (hread.mem_iff.mp hr)
  have hjudged : ((netDimension a.cfg i.res.label).judged a.cfg a.netBaseline
      (netReading calls r.cgroupID)).isSome := by
    rw [← hexact, hp]
    rfl
  exact ⟨r.cgroupID, (judged_netReading_iff _).mp hjudged, rfl,
    congrArg CgroupNet.retransmits hexact, congrArg CgroupNet.txSegs hexact⟩

/-- Who is in trouble is in the list, if it is read at all. -/
theorem netScan_ne_nil_iff (hread : i.network.Perm (readNetMap calls))
    (hroom : (calls.map NetCall.cgroup).toFinset.card < maxCgroups)
    (hsegs : 0 < uint64 a.cfg.minSegs) :
    (netScan a i).out ≠ [] ↔ ∃ cg, InTrouble a.cfg a.netBaseline calls cg := by
  constructor
  · intro hne
    obtain ⟨v, hv⟩ := List.exists_mem_of_ne_nil _ hne
    obtain ⟨cg, ht, -⟩ := exists_inTrouble_of_mem hread hv
    exact ⟨cg, ht⟩
  · rintro ⟨cg, ht⟩
    obtain ⟨c, hc, hcg⟩ := List.countP_pos_iff.mp (hsegs.trans_le ht.active)
    obtain ⟨rfl, -⟩ := of_decide_eq_true hcg
    obtain ⟨p, hp⟩ := Option.isSome_iff_exists.mp ((judged_netReading_iff i.res.label).mpr ht)
    rw [netScan, Dimension.scan_out i.network_nodup]
    intro hnil
    have hnone := List.filterMap_eq_nil_iff.mp hnil _ (hread.mem_iff.mpr (netReading_mem hroom hc))
    rw [hp] at hnone
    cases hnone

variable [FloorSemiring K] [Sqrt K] {srt : SliceSort}

omit [IsStrictOrderedRing K] in
theorem netVictims_eq : (buildSnapshot srt a i).1.netVictims =
    capVictims (srt.sort NetVictim.retransmits (netScan a i).out) a.cfg.topN := rfl

omit [IsStrictOrderedRing K] in
theorem netVictims_ne_nil_iff (htop : 0 < a.cfg.topN) :
    (buildSnapshot srt a i).1.netVictims ≠ [] ↔ (netScan a i).out ≠ [] := by
  have hempty := SliceSort.isEmpty_capVictims srt NetVictim.retransmits
    (v := (netScan a i).out) (n := a.cfg.topN)
  rw [← netVictims_eq, Bool.eq_iff_iff, Bool.or_eq_true, List.isEmpty_iff, List.isEmpty_iff,
    beq_iff_eq, or_iff_left htop.ne'] at hempty
  exact not_congr hempty

omit [IsStrictOrderedRing K] in
/-- The row of a sender. -/
theorem exists_of_netOffenders (hread : i.network.Perm (readNetMap calls)) {o : NetOffender K}
    (ho : o ∈ (buildSnapshot srt a i).1.netOffenders) : (netScan a i).out ≠ [] ∧ ∃ cg,
      o.pod = i.res.label cg ∧ o.mb = bytesSent calls cg / 1000000 ∧ o.segs = sends calls cg ∧
        ((calls.map NetCall.cgroup).toFinset.card < maxCgroups →
          o.sharePct = share (bytesSent calls cg) (allBytesSent calls)) := by
  rw [buildSnapshot_net.1] at ho
  obtain ⟨r, hr, rfl⟩ := List.mem_map.mp ho
  rw [Table.listed] at hr
  split_ifs at hr with hharmed
  · have hr : r ∈ i.network := (srt.mem_sort).mp (List.mem_of_mem_take hr)
    obtain ⟨-, hexact⟩ := mem_readNetMap.mp (hread.mem_iff.mp hr)
    have hbytes := congrArg CgroupNet.txBytes hexact
    refine ⟨?_, r.cgroupID, rfl, ?_, congrArg CgroupNet.txSegs hexact, fun hroom ↦ ?_⟩
    · rintro hnil
      rw [netTable, hnil] at hharmed
      cases hharmed
    · change (r.txBytes / 1000000 : K) = _
      rw [hbytes]
      rfl
    · change share r.txBytes (i.network.map CgroupNet.txBytes).sum = _
      rw [(hread.map CgroupNet.txBytes).sum_eq, sum_readNetMap hroom, hbytes]
      rfl
  · cases hr

end Interval

/-! ## A run -/

section Run

variable [FloorSemiring K] [Sqrt K]

/-- The network half of the snapshots of a run in which the readings of each interval are those of
the calls in it, in some order.  A victim that is listed is in trouble, and its row says what its
sockets have done; the row of a sender says what it has sent, and none is listed unless there are
victims.  While few cgroups have sockets, no trouble is overlooked, and the share of a sender is
that of all bytes. -/
theorem network_verdict (srt : SliceSort) (cfg : Config K) (is : ℕ → ReportInterval)
    (calls : ℕ → List (NetCall n)) (hread : ∀ k, (is k).network.Perm (readNetMap (calls k)))
    (htop : 0 < cfg.topN) (hsegs : 0 < uint64 cfg.minSegs) (k : ℕ) :
    (∀ v ∈ (buildSnapshot srt ((newAgent cfg).after srt is k) (is k)).1.netVictims, ∃ cg,
      InTrouble cfg ((newAgent cfg).after srt is k).netBaseline (calls k) cg ∧
        v.pod = (is k).res.label cg ∧ v.retransmits = retransmissions (calls k) cg ∧
        v.segs = sends (calls k) cg) ∧
    (∀ o ∈ (buildSnapshot srt ((newAgent cfg).after srt is k) (is k)).1.netOffenders,
      (buildSnapshot srt ((newAgent cfg).after srt is k) (is k)).1.netVictims ≠ [] ∧ ∃ cg,
      o.pod = (is k).res.label cg ∧ o.mb = bytesSent (calls k) cg / 1000000 ∧
        o.segs = sends (calls k) cg ∧
        (((calls k).map NetCall.cgroup).toFinset.card < maxCgroups →
          o.sharePct = share (bytesSent (calls k) cg) (allBytesSent (calls k)))) ∧
    (((calls k).map NetCall.cgroup).toFinset.card < maxCgroups →
      ((buildSnapshot srt ((newAgent cfg).after srt is k) (is k)).1.netVictims ≠ [] ↔
        ∃ cg, InTrouble cfg ((newAgent cfg).after srt is k).netBaseline (calls k) cg)) := by
  have hcfg : ((newAgent cfg).after srt is k).cfg = cfg := Agent.after_cfg srt _ is k
  generalize (newAgent cfg).after srt is k = a at hcfg
  subst hcfg
  refine ⟨fun v hv ↦ ?_, fun o ho ↦ ?_, fun hroom ↦ ?_⟩
  · rw [netVictims_eq] at hv
    exact exists_inTrouble_of_mem (hread k) ((srt.mem_sort).mp (List.mem_of_mem_take hv))
  · obtain ⟨hvictims, hrow⟩ := exists_of_netOffenders (hread k) ho
    exact ⟨(netVictims_ne_nil_iff htop).mpr hvictims, hrow⟩
  · exact (netVictims_ne_nil_iff htop).trans (netScan_ne_nil_iff (hread k) hroom hsegs)

/-! ### A socket that is used on two CPUs -/

/-- Neither CPU sees enough calls of cgroup 1 by itself. -/
def splitSocket : List (NetCall 2) :=
  List.replicate 30 ⟨0, 1, .sendmsg 100⟩ ++ List.replicate 30 ⟨1, 1, .sendmsg 100⟩ ++
    List.replicate 12 ⟨1, 1, .retransmit⟩ ++ [⟨0, 2, .sendmsg 500⟩]

def splitSocketInterval : ReportInterval where
  cpu := []
  runq := []
  blkio := []
  network := readNetMap splitSocket
  timeline := []
  res := .steady (fun _ ↦ none) fun _ ↦ none
  network_nodup := readNetMap_nodup splitSocket

theorem splitSocket_inTrouble :
    InTrouble (defaultConfig ℚ) (newAgent (defaultConfig ℚ)).netBaseline splitSocket 1 := by
  have hsends : sends splitSocket 1 = 60 := by decide +kernel
  have hretrans : retransmissions splitSocket 1 = 12 := by decide +kernel
  refine ⟨?_, ?_, ?_, nofun⟩
  · rw [hsends]
    decide
  · rw [hretrans]
    decide
  · rw [hsends, hretrans]
    norm_num [defaultConfig]

theorem splitSocket_verdict : (buildSnapshot .insertion (newAgent (defaultConfig ℚ))
    splitSocketInterval).1.netVictims ≠ [] := by
  have hread : ∀ _ : ℕ, splitSocketInterval.network.Perm (readNetMap splitSocket) := fun _ ↦ by
    rw [splitSocketInterval]
  have hroom : (splitSocket.map NetCall.cgroup).toFinset.card < maxCgroups := by decide +kernel
  exact ((network_verdict .insertion (defaultConfig ℚ) (fun _ ↦ splitSocketInterval)
    (fun _ ↦ splitSocket) hread (by decide) (by decide) 0).2.2 hroom).mpr
      ⟨1, splitSocket_inTrouble⟩

end Run
