import NodeSentinel.Data.Rank
import NodeSentinel.Ebpf.CounterMap
import NodeSentinel.Metrics.Histogram

/-!
# Latency percentiles end to end

From the waits of a cgroup on all CPUs through `log2_bucket`, the per-CPU histograms and
`SchedObserver.Read` to `Percentile`: the estimate is the midpoint of the slot of the exact
nearest-rank percentile.
-/

variable {n : ℕ}

/-- A wait of `us` microseconds. -/
structure Wait (n : ℕ) where
  cpu : Fin n
  cgroup : ℕ
  us : ℕ

/-- `runq_latency_map` after some waits. -/
def runqMap (waits : List (Wait n)) : CounterMap n SchedHist :=
  .ofEvents (waits.map fun w ↦ ⟨w.cpu, w.cgroup, runqMonitor w.us⟩)

/-- What `SchedObserver.Read` returns for it. -/
def readRunqMap (waits : List (Wait n)) : List CgroupLatency := (runqMap waits).read.map readRunq

/-- The raw latencies of a cgroup. -/
def latencies (waits : List (Wait n)) (cgroup : ℕ) : List ℕ :=
  (waits.filter fun w ↦ w.cgroup = cgroup).map Wait.us

/-! ## The histogram of a cgroup -/

section Histogram

variable (waits : List (Wait n)) (cgroup : ℕ)

/-- What the waits add to a counter of a cgroup, its latencies add. -/
theorem eventTotal_waits (f : SchedHist) :
    eventTotal (waits.map fun w ↦ ⟨w.cpu, w.cgroup, runqMonitor w.us⟩) cgroup f =
      ((latencies waits cgroup).map fun us ↦ amount (runqMonitor us) f).sum := by
  induction waits with
  | nil => rfl
  | cons w waits ih =>
      rw [latencies, List.filter_cons, List.map_cons, eventTotal, List.map_cons, List.sum_cons]
      rw [eventTotal, latencies] at ih
      rw [ih]
      by_cases hc : w.cgroup = cgroup <;> simp [hc]

theorem eventTotal_slot (i : Fin maxSlots) :
    eventTotal (waits.map fun w ↦ ⟨w.cpu, w.cgroup, runqMonitor w.us⟩) cgroup (.slot i) =
      (latencies waits cgroup).countP fun us ↦ log2Bucket us = i := by
  have hamount : ∀ us, amount (runqMonitor us) (.slot i) = if log2Bucket us = i then 1 else 0 := by
    intro us
    simp [amount, runqMonitor, Fin.ext_iff]
  rw [eventTotal_waits]
  simp only [hamount]
  induction latencies waits cgroup with
  | nil => rfl
  | cons us l ih => simp [ih, List.countP_cons, Nat.add_comm]

theorem eventTotal_count :
    eventTotal (waits.map fun w ↦ ⟨w.cpu, w.cgroup, runqMonitor w.us⟩) cgroup .count =
      (latencies waits cgroup).length := by
  have hamount : ∀ us, amount (runqMonitor us) .count = 1 := by
    intro us
    simp [amount, runqMonitor]
  simp [eventTotal_waits, hamount]

variable {waits}

/-- A reading is the histogram of the latencies, however they are spread over the CPUs. -/
theorem mem_readRunqMap {r : CgroupLatency} (hr : r ∈ readRunqMap waits) :
    r.slots = (List.range maxSlots).map (fun i ↦
      (latencies waits r.cgroupID).countP fun us ↦ log2Bucket us = i) ∧
    r.count = (latencies waits r.cgroupID).length ∧
    latencies waits r.cgroupID ≠ [] := by
  obtain ⟨e, he, rfl⟩ := List.mem_map.mp hr
  obtain ⟨hm, hstored⟩ := CounterMap.mem_read.mp he
  have hcounts := CounterMap.counts_ofEvents
    (waits.map fun w ↦ (⟨w.cpu, w.cgroup, runqMonitor w.us⟩ : KernelEvent n SchedHist))
  refine ⟨?_, ?_, ?_⟩
  · rw [← List.map_coe_finRange_eq_range, List.map_map]
    refine List.map_congr_left fun i _ ↦ ?_
    rw [Function.comp_apply, ← eventTotal_slot]
    exact (congrFun hstored _).trans (hcounts.sums hm _)
  · rw [← eventTotal_count]
    exact (congrFun hstored _).trans (hcounts.sums hm _)
  · obtain ⟨ev, hev, hcg⟩ := hcounts.keys _ hm
    obtain ⟨w, hw, rfl⟩ := List.mem_map.mp hev
    exact List.ne_nil_of_mem (List.mem_map_of_mem
      (List.mem_filter.mpr ⟨hw, decide_eq_true hcg⟩))

/-- Each cgroup that has waited has a reading. -/
theorem exists_mem_readRunqMap (hroom : (waits.map Wait.cgroup).toFinset.card < maxCgroups)
    {w : Wait n} (hw : w ∈ waits) : ∃ r ∈ readRunqMap waits, r.cgroupID = w.cgroup := by
  have hm : w.cgroup ∈ runqMap waits := by
    refine CounterMap.mem_ofEvents (e := ⟨w.cpu, w.cgroup, runqMonitor w.us⟩) ?_
      (List.mem_map_of_mem hw)
    rwa [List.map_map]
  have hread : (w.cgroup, (runqMap waits).stored w.cgroup) ∈ (runqMap waits).read :=
    CounterMap.mem_read.mpr ⟨hm, rfl⟩
  exact ⟨_, List.mem_map_of_mem hread, rfl⟩

theorem latencies_perm {n' : ℕ} {waits' : List (Wait n')}
    (h : (waits.map fun w ↦ (w.cgroup, w.us)).Perm (waits'.map fun w ↦ (w.cgroup, w.us))) :
    (latencies waits cgroup).Perm (latencies waits' cgroup) := by
  have hl : ∀ {n : ℕ} (waits : List (Wait n)), latencies waits cgroup =
      ((waits.map fun w ↦ (w.cgroup, w.us)).filter fun p ↦ p.1 = cgroup).map Prod.snd :=
    fun waits ↦ by
      rw [latencies, List.filter_map, List.map_map]
      rfl
  rw [hl, hl]
  exact (h.filter _).map _

end Histogram

/-! ## The percentile -/

section Percentile

variable {K : Type} [Field K] [LinearOrder K] [FloorSemiring K]

/-- The rank of the exact nearest-rank percentile, from 0. -/
def nearestRank (total : ℕ) (p : K) : ℕ := ⌈p / 100 * (total : K)⌉₊ - 1

/-- The slot a percentile is estimated by. -/
def slotOf (x : ℕ) : ℕ := min (Nat.log 2 (max x 1)) 26

theorem log2Bucket_eq_slotOf (x : ℕ) : log2Bucket x = slotOf x := by
  rw [log2Bucket_eq, slotOf]
  rcases Nat.eq_zero_or_pos x with rfl | hx
  · rfl
  · rw [max_eq_left hx]
    rfl

theorem log2Bucket_mono : Monotone log2Bucket := fun x y h ↦ by
  rw [log2Bucket_eq, log2Bucket_eq]
  exact min_le_min_right _ (Nat.log_mono_right h)

variable [IsStrictOrderedRing K]

theorem ceil_pos_le {total : ℕ} (ht : 0 < total) {p : K} (hp : 0 < p) (hp' : p ≤ 100) :
    0 < ⌈p / 100 * (total : K)⌉₊ ∧ ⌈p / 100 * (total : K)⌉₊ ≤ total := by
  have h100 : (0 : K) < 100 := by norm_num
  constructor
  · exact Nat.ceil_pos.mpr (mul_pos (div_pos hp h100) (Nat.cast_pos.mpr ht))
  · exact Nat.ceil_le.mpr (mul_le_of_le_one_left (Nat.cast_nonneg _) ((div_le_one h100).mpr hp'))

/-- The percentile of the histogram of some latencies. -/
theorem percentile_counts {xs : List ℕ} (hxs : xs ≠ []) {p : K} (hp : 0 < p) (hp' : p ≤ 100) {x : ℕ}
    (hx : rank xs (nearestRank xs.length p) = some x) :
    percentile ((List.range maxSlots).map fun i ↦ xs.countP fun us ↦ log2Bucket us = i) p =
      bucketMidpoint (slotOf x) := by
  obtain ⟨hpos, hle⟩ := ceil_pos_le (List.length_pos_iff.mpr hxs) hp hp'
  have htotal : ((List.range maxSlots).map fun i ↦
      xs.countP fun us ↦ log2Bucket us = i).sum = xs.length := by
    have h := sum_take_counts log2Bucket xs (le_refl maxSlots)
    rw [List.take_of_length_le (by simp)] at h
    rw [h]
    exact List.countP_eq_length.mpr fun us _ ↦ decide_eq_true (log2Bucket_lt us)
  obtain ⟨hlow, hhigh⟩ := countP_of_rank hx log2Bucket_mono
  have hslot := log2Bucket_lt x
  rw [percentile, htotal, if_neg (List.length_pos_iff.mpr hxs).ne']
  simp only [if_neg hpos.ne']
  rw [← log2Bucket_eq_slotOf, percentileScan_eq (k := log2Bucket x) (by simpa using hslot),
    Nat.zero_add]
  · rw [Nat.zero_add, sum_take_counts _ _ hslot.le]
    unfold nearestRank at hlow
    omega
  · rw [Nat.zero_add, sum_take_counts _ _ hslot]
    simp only [Nat.lt_succ_iff]
    unfold nearestRank at hhigh
    omega

/-- The estimate is within a factor of the exact percentile. -/
theorem bucketMidpoint_slotOf {x : ℕ} (h1 : 1 ≤ x) (h : x < 2 ^ 27) :
    3 / 4 * (x : K) < bucketMidpoint (slotOf x) ∧ bucketMidpoint (slotOf x) ≤ 3 / 2 * (x : K) := by
  have hlog : Nat.log 2 x < 27 := Nat.log_lt_of_lt_pow (by omega) h
  have hslot : slotOf x = Nat.log 2 x := by
    rw [slotOf, max_eq_left h1]
    omega
  have hlow : ((2 : K) ^ Nat.log 2 x) ≤ x := by exact_mod_cast Nat.pow_log_le_self 2 (by omega)
  have hhigh : (x : K) < 2 ^ Nat.log 2 x * 2 := by
    exact_mod_cast Nat.lt_pow_succ_log_self (b := 2) one_lt_two x
  rw [hslot, bucketMidpoint]
  constructor <;> linarith

/-- Percentiles are within their stated precision, for every distribution of the waits over
the CPUs: the estimate is the midpoint of the slot of the exact percentile, it is monotone in
`p`, the count is that of the slots, and a reading does not depend on the CPUs. -/
theorem percentile_readRunqMap {waits : List (Wait n)} :
    ((waits.map Wait.cgroup).toFinset.card < maxCgroups →
      ∀ w ∈ waits, ∃ r ∈ readRunqMap waits, r.cgroupID = w.cgroup) ∧
    ∀ r ∈ readRunqMap waits,
      (∀ p : K, 0 < p → p ≤ 100 → ∃ x, rank (latencies waits r.cgroupID)
          (nearestRank (latencies waits r.cgroupID).length p) = some x ∧
        percentile r.slots p = 3 / 2 * 2 ^ min (Nat.log 2 (max x 1)) 26 ∧
        (1 ≤ x → x < 2 ^ 27 →
          3 / 4 * (x : K) < percentile r.slots p ∧ percentile r.slots p ≤ 3 / 2 * (x : K))) ∧
      (∀ p q : K, 0 < p → p ≤ q → q ≤ 100 → percentile r.slots p ≤ percentile r.slots q) ∧
      r.count = r.slots.sum ∧
      ∀ {n' : ℕ} (waits' : List (Wait n')),
        (waits'.map fun w ↦ (w.cgroup, w.us)).Perm (waits.map fun w ↦ (w.cgroup, w.us)) →
        ∀ r' ∈ readRunqMap waits', r'.cgroupID = r.cgroupID → r' = r := by
  refine ⟨fun hroom w hw ↦ exists_mem_readRunqMap hroom hw, fun r hr ↦ ?_⟩
  obtain ⟨hslots, hcount, hne⟩ := mem_readRunqMap hr
  have hrank : ∀ p : K, 0 < p → p ≤ 100 → ∃ x, rank (latencies waits r.cgroupID)
      (nearestRank (latencies waits r.cgroupID).length p) = some x ∧
        percentile r.slots p = bucketMidpoint (slotOf x) := fun p hp hp' ↦ by
    obtain ⟨hpos, hle⟩ := ceil_pos_le (List.length_pos_iff.mpr hne) hp hp'
    obtain ⟨x, hx⟩ : ∃ x, rank (latencies waits r.cgroupID)
        (nearestRank (latencies waits r.cgroupID).length p) = some x :=
      exists_rank (by unfold nearestRank; omega)
    exact ⟨x, hx, hslots ▸ percentile_counts hne hp hp' hx⟩
  refine ⟨fun p hp hp' ↦ ?_, fun p q hp hpq hq ↦ ?_, ?_, fun waits' hperm r' hr' hcg ↦ ?_⟩
  · obtain ⟨x, hx, he⟩ := hrank p hp hp'
    exact ⟨x, hx, he.trans (mul_comm _ _), fun h1 h ↦ he ▸ bucketMidpoint_slotOf h1 h⟩
  · obtain ⟨x, hx, he⟩ := hrank p hp (hpq.trans hq)
    obtain ⟨y, hy, he'⟩ := hrank q (hp.trans_le hpq) hq
    have hxy : x ≤ y := rank_mono hx hy (Nat.sub_le_sub_right (Nat.ceil_mono
      (mul_le_mul_of_nonneg_right (div_le_div_of_nonneg_right hpq (by norm_num))
        (Nat.cast_nonneg _))) 1)
    rw [he, he', ← log2Bucket_eq_slotOf, ← log2Bucket_eq_slotOf]
    exact bucketMidpoint_mono (log2Bucket_mono hxy)
  · have hsum := sum_take_counts log2Bucket (latencies waits r.cgroupID) (le_refl maxSlots)
    rw [List.take_of_length_le (by simp)] at hsum
    rw [hcount, hslots, hsum]
    exact (List.countP_eq_length.mpr fun us _ ↦ decide_eq_true (log2Bucket_lt us)).symm
  · obtain ⟨hslots', hcount', -⟩ := mem_readRunqMap hr'
    have hlat := latencies_perm r.cgroupID hperm
    rw [hcg] at hslots' hcount'
    cases r
    cases r'
    simp only at hcg hslots hslots' hcount hcount' hlat
    simp only [hlat.countP_eq, hlat.length_eq] at hslots' hcount'
    rw [hcg, hslots, hslots', hcount, hcount']

end Percentile

/-- Three waits of one cgroup on two CPUs. -/
def threeWaits : List (Wait 2) := [⟨0, 1, 800⟩, ⟨1, 1, 3⟩, ⟨1, 1, 0⟩]

theorem threeWaits_percentile : ∃ r ∈ readRunqMap threeWaits, r.cgroupID = 1 ∧
    percentile r.slots 99 = (768 : ℚ) ∧ percentile r.slots 50 = (3 : ℚ) := by
  obtain ⟨hmem, hall⟩ : _ ∧ ∀ r ∈ readRunqMap threeWaits, _ := percentile_readRunqMap (K := ℚ)
  obtain ⟨r, hr, hcg⟩ := hmem (by decide +kernel) ⟨0, 1, 800⟩ (.head _)
  have hlat : latencies threeWaits r.cgroupID = [800, 3, 0] := by
    rw [hcg]
    rfl
  have hpct : ∀ {p : ℚ} {x : ℕ}, 0 < p → p ≤ 100 →
      rank [800, 3, 0] (nearestRank 3 p) = some x →
      percentile r.slots p = 3 / 2 * 2 ^ min (Nat.log 2 (max x 1)) 26 := fun {p x} hp hp' hx ↦ by
    obtain ⟨y, hy, he, -⟩ := (hall r hr).1 p hp hp'
    rw [hlat] at hy
    obtain rfl := Option.some.inj (hy.symm.trans hx)
    exact he
  refine ⟨r, hr, hcg, ?_, ?_⟩
  · exact (hpct (x := 800) (by norm_num) (by norm_num) (by decide +kernel)).trans (by decide +kernel)
  · exact (hpct (x := 3) (by norm_num) (by norm_num) (by decide +kernel)).trans (by decide +kernel)
