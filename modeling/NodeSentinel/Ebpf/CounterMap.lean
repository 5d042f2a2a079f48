import NodeSentinel.Data.AList
import NodeSentinel.Ebpf.Types

/-!
# Per-CPU counter maps

The maps `runq_latency_map`, `cpu_time_map`, `blkio_latency_map` and `net_stats_map`: for
every cgroup one copy of its counters on each CPU.  A kernel program looks the cgroup up,
creates its element where there is none, and adds to the copy of its own CPU; user space
adds the copies up.  `F` names the counters of a value.
-/

open Function (update)

/-- `MAX_CGROUPS`. -/
def maxCgroups : ℕ := 4096

/-- A value: the counters of every CPU. -/
abbrev PerCPU (n : ℕ) (F : Type) := Fin n → F → ℕ

/-- A `BPF_MAP_TYPE_PERCPU_HASH` keyed by cgroup. -/
abbrev CounterMap (n : ℕ) (F : Type) := AList fun _ : ℕ ↦ PerCPU n F

variable {n : ℕ} {F : Type}

/-- The copies added up. -/
def PerCPU.merge (v : PerCPU n F) (f : F) : ℕ := ∑ cpu, v cpu f

namespace CounterMap

/-- The element of a cgroup is created where there is none, while the map has room. -/
def create (m : CounterMap n F) (cgroup : ℕ) : CounterMap n F :=
  if cgroup ∈ m then m
  else if m.entries.length < maxCgroups then m.insert cgroup fun _ _ ↦ 0
  else m

/-- What the map holds of a counter. -/
def stored (m : CounterMap n F) (cgroup : ℕ) (f : F) : ℕ :=
  match m.lookup cgroup with
  | none => 0
  | some v => v.merge f

/-- The loop of `Read`: every element, its copies added up. -/
def read (m : CounterMap n F) : List (ℕ × (F → ℕ)) := m.entries.map fun e ↦ (e.1, e.2.merge)

variable [DecidableEq F]

/-- `__sync_fetch_and_add` on the copy of a CPU. -/
def add (m : CounterMap n F) (cgroup : ℕ) (cpu : Fin n) (f : F) (k : ℕ) : CounterMap n F :=
  match m.lookup cgroup with
  | none => m
  | some v => m.insert cgroup (update v cpu (update (v cpu) f (v cpu f + k)))

/-- An event of a cgroup on a CPU, in which nothing comes between. -/
def record (m : CounterMap n F) (cpu : Fin n) (cgroup : ℕ) (adds : List (F × ℕ)) :
    CounterMap n F :=
  adds.foldl (fun m a ↦ m.add cgroup cpu a.1 a.2) (m.create cgroup)

end CounterMap

/-! ## What the programs add -/

/-- `MAX_SLOTS`. -/
def maxSlots : ℕ := 27

/-- The loop of `log2_bucket`, with as many rounds left as there are buckets above. -/
def log2Loop : ℕ → ℕ → ℕ → ℕ
  | 0, _, bucket => bucket
  | left + 1, value, bucket =>
      if value > 1 then log2Loop left (value / 2) (bucket + 1) else bucket

/-- `log2_bucket`. -/
def log2Bucket (value : ℕ) : ℕ := log2Loop (maxSlots - 1) value 0

theorem log2Loop_eq (left value bucket : ℕ) :
    log2Loop left value bucket = bucket + min (Nat.log 2 value) left := by
  induction left generalizing value bucket with
  | zero => simp [log2Loop]
  | succ left ih =>
      rw [log2Loop]
      split_ifs with h
      · rw [ih, Nat.log_of_one_lt_of_le (b := 2) one_lt_two h]
        omega
      · rw [Nat.log_of_lt (not_lt.mp h |>.trans_lt one_lt_two)]
        omega

/-- `log2_bucket` is the logarithm, capped. -/
theorem log2Bucket_eq (value : ℕ) : log2Bucket value = min (Nat.log 2 value) (maxSlots - 1) := by
  rw [log2Bucket, log2Loop_eq, Nat.zero_add]

theorem log2Bucket_lt (value : ℕ) : log2Bucket value < maxSlots := by
  rw [log2Bucket_eq]
  exact (min_le_right _ _).trans_lt (by decide)

/-- A program: what each of its events adds. -/
abbrev Monitor (E F : Type) := E → List (F × ℕ)

/-- `struct sched_hist`. -/
inductive SchedHist where
  | slot (i : Fin maxSlots)
  | totalUs
  | count
deriving DecidableEq

/-- A run-queue wait of so many microseconds. -/
def runqMonitor : Monitor ℕ SchedHist := fun waitUs ↦
  [(.slot ⟨log2Bucket waitUs, log2Bucket_lt waitUs⟩, 1), (.totalUs, waitUs), (.count, 1)]

/-- The value of `cpu_time_map`. -/
inductive CPUTime where
  | onCpuNs
deriving DecidableEq

instance : Fintype CPUTime := ⟨{.onCpuNs}, fun ⟨⟩ ↦ Finset.mem_singleton_self _⟩

/-- `add_cpu_time`: an on-CPU slice. -/
def cpuMonitor : Monitor ℕ CPUTime := fun nanoseconds ↦ [(.onCpuNs, nanoseconds)]

/-- `struct blkio_hist`. -/
inductive BlkioHist where
  | slot (i : Fin maxSlots)
  | totalUs
  | count
  | bytes
deriving DecidableEq

/-- A completed request: its latency in microseconds and its size. -/
def blkioMonitor : Monitor (ℕ × ℕ) BlkioHist := fun ⟨deltaUs, bytes⟩ ↦
  [(.slot ⟨log2Bucket deltaUs, log2Bucket_lt deltaUs⟩, 1), (.totalUs, deltaUs), (.count, 1),
    (.bytes, bytes)]

/-- `struct net_stats`. -/
inductive NetStats where
  | retransmits
  | txBytes
  | txSegs
deriving DecidableEq

/-- `handle_tcp_retransmit` and `handle_tcp_sendmsg`. -/
inductive NetEvent where
  | retransmit
  | sendmsg (size : ℕ)

def netMonitor : Monitor NetEvent NetStats
  | .retransmit => [(.retransmits, 1)]
  | .sendmsg size => [(.txBytes, size), (.txSegs, 1)]

/-! ## What user space reads -/

/-- `SchedObserver.Read`, of one element. -/
def readRunq (e : ℕ × (SchedHist → ℕ)) : CgroupLatency where
  cgroupID := e.1
  slots := (List.finRange maxSlots).map fun i ↦ e.2 (.slot i)
  count := e.2 .count

/-- `ReadCPU`, of one element. -/
def readCPU (e : ℕ × (CPUTime → ℕ)) : CgroupCPUTime := ⟨e.1, e.2 .onCpuNs⟩

/-- `BlkioObserver.Read`, of one element. -/
def readBlkio (e : ℕ × (BlkioHist → ℕ)) : CgroupBlkio where
  cgroupID := e.1
  slots := (List.finRange maxSlots).map fun i ↦ e.2 (.slot i)
  count := e.2 .count
  bytes := e.2 .bytes

/-- `NetObserver.Read`, of one element. -/
def readNet (e : ℕ × (NetStats → ℕ)) : CgroupNet :=
  ⟨e.1, e.2 .retransmits, e.2 .txBytes, e.2 .txSegs⟩

/-! ## One addition -/

namespace CounterMap

variable {m : CounterMap n F} {cgroup cgroup' : ℕ} {cpu : Fin n} {f f' : F} {k : ℕ}

theorem stored_of_notMem (h : cgroup ∉ m) : m.stored cgroup f = 0 := by
  rw [stored, AList.lookup_eq_none.mpr h]

theorem stored_insert (v : PerCPU n F) : stored (m.insert cgroup v) cgroup' f =
    if cgroup' = cgroup then v.merge f else m.stored cgroup' f := by
  split_ifs with h
  · subst h
    rw [stored, AList.lookup_insert]
  · rw [stored, AList.lookup_insert_ne h, stored]

/-- A new element counts nothing. -/
@[simp] theorem stored_create : (m.create cgroup).stored cgroup' f = m.stored cgroup' f := by
  unfold create
  split_ifs with hm
  · rfl
  · rw [stored_insert]
    split_ifs with h
    · rw [h, stored_of_notMem hm]
      simp [PerCPU.merge]
    · rfl
  · rfl

theorem mem_create : cgroup' ∈ m.create cgroup → cgroup' = cgroup ∨ cgroup' ∈ m := by
  unfold create
  split_ifs
  · exact .inr
  · exact (AList.mem_insert m).mp
  · exact .inr

theorem mem_create_of_mem (h : cgroup' ∈ m) : cgroup' ∈ m.create cgroup := by
  unfold create
  split_ifs
  · exact h
  · exact (AList.mem_insert m).mpr (.inr h)
  · exact h

theorem self_mem_create (h : m.entries.length < maxCgroups) : cgroup ∈ m.create cgroup := by
  unfold create
  split_ifs with hm
  · exact hm
  · exact (AList.mem_insert m).mpr (.inl rfl)

variable [DecidableEq F]

theorem merge_update (v : PerCPU n F) :
    PerCPU.merge (update v cpu (update (v cpu) f (v cpu f + k))) f' =
      v.merge f' + if f' = f then k else 0 := by
  have hcpu : ∀ cpu', update v cpu (update (v cpu) f (v cpu f + k)) cpu' f' =
      v cpu' f' + if cpu' = cpu then (if f' = f then k else 0) else 0 := fun cpu' ↦ by
    by_cases h : cpu' = cpu
    · subst h
      by_cases hf : f' = f
      · subst hf
        simp
      · simp [hf]
    · simp [h]
  simp only [PerCPU.merge, hcpu, Finset.sum_add_distrib, Finset.sum_ite_eq', Finset.mem_univ,
    if_true]

/-- An addition to an element that is there. -/
theorem stored_add (h : cgroup ∈ m) : (m.add cgroup cpu f k).stored cgroup' f' =
    m.stored cgroup' f' + if cgroup' = cgroup ∧ f' = f then k else 0 := by
  obtain ⟨v, hv⟩ := Option.isSome_iff_exists.mp (AList.lookup_isSome.mpr h)
  have hadd : m.add cgroup cpu f k =
      m.insert cgroup (update v cpu (update (v cpu) f (v cpu f + k))) := by
    rw [add, hv]
  rw [hadd, stored_insert]
  split_ifs with hc hcf hcf
  · rw [merge_update, hc, stored, hv, if_pos hcf.2]
  · rw [merge_update, hc, stored, hv, if_neg fun hf ↦ hcf ⟨hc, hf⟩]
  · exact absurd hcf.1 hc
  · rfl

@[simp] theorem mem_add : cgroup' ∈ m.add cgroup cpu f k ↔ cgroup' ∈ m := by
  unfold add
  cases h : m.lookup cgroup with
  | none => rfl
  | some v =>
      have hm : cgroup ∈ m := AList.lookup_isSome.mp (Option.isSome_iff_exists.mpr ⟨v, h⟩)
      rw [AList.mem_insert]
      exact or_iff_right_of_imp fun he ↦ he ▸ hm

end CounterMap

/-! ## A run of events -/

/-- One event of a program. -/
structure KernelEvent (n : ℕ) (F : Type) where
  cpu : Fin n
  cgroup : ℕ
  adds : List (F × ℕ)

/-- What some additions add to a counter. -/
def amount [DecidableEq F] (adds : List (F × ℕ)) (f : F) : ℕ :=
  (adds.map fun a ↦ if a.1 = f then a.2 else 0).sum

/-- What the events of a cgroup add to a counter. -/
def eventTotal [DecidableEq F] (evs : List (KernelEvent n F)) (cgroup : ℕ) (f : F) : ℕ :=
  (evs.map fun e ↦ if e.cgroup = cgroup then amount e.adds f else 0).sum

/-- The map after a run of events since it was last drained. -/
def CounterMap.ofEvents [DecidableEq F] (evs : List (KernelEvent n F)) : CounterMap n F :=
  evs.foldl (fun m e ↦ m.record e.cpu e.cgroup e.adds) ∅

theorem eventTotal_eq_zero [DecidableEq F] {evs : List (KernelEvent n F)} {cgroup : ℕ}
    (h : ∀ e ∈ evs, e.cgroup ≠ cgroup) (f : F) : eventTotal evs cgroup f = 0 := by
  refine List.sum_eq_zero fun v hv ↦ ?_
  obtain ⟨e, he, rfl⟩ := List.mem_map.mp hv
  exact if_neg (h e he)

theorem eventTotal_append [DecidableEq F] (evs : List (KernelEvent n F)) (e : KernelEvent n F) (cgroup : ℕ)
    (f : F) : eventTotal (evs ++ [e]) cgroup f =
      eventTotal evs cgroup f + if e.cgroup = cgroup then amount e.adds f else 0 := by
  simp [eventTotal]

/-- The map counts the events, except those of cgroups it had no room for. -/
structure CounterMap.Counts [DecidableEq F] (evs : List (KernelEvent n F)) (m : CounterMap n F) : Prop where
  sums : ∀ {cgroup}, cgroup ∈ m → ∀ f, m.stored cgroup f = eventTotal evs cgroup f
  present : m.entries.length < maxCgroups → ∀ e ∈ evs, e.cgroup ∈ m
  keys : ∀ cgroup ∈ m, ∃ e ∈ evs, e.cgroup = cgroup

namespace CounterMap

variable [DecidableEq F] {m : CounterMap n F} {cgroup cgroup' : ℕ} {cpu : Fin n} {f : F}
  {adds : List (F × ℕ)}

theorem mem_foldl_add : cgroup' ∈ adds.foldl (fun m a ↦ m.add cgroup cpu a.1 a.2) m ↔
    cgroup' ∈ m := by
  induction adds generalizing m with
  | nil => exact Iff.rfl
  | cons a adds ih => exact ih.trans mem_add

theorem stored_foldl_add (h : cgroup ∈ m) :
    (adds.foldl (fun m a ↦ m.add cgroup cpu a.1 a.2) m).stored cgroup' f =
      m.stored cgroup' f + if cgroup = cgroup' then amount adds f else 0 := by
  induction adds generalizing m with
  | nil => simp [amount]
  | cons a adds ih =>
      rw [List.foldl_cons, ih (mem_add.mpr h), stored_add h, add_assoc]
      congr 1
      by_cases hc : cgroup = cgroup'
      · subst hc
        simp [amount, eq_comm]
      · simp [hc, Ne.symm hc]

theorem foldl_add_of_notMem (h : cgroup ∉ m) :
    adds.foldl (fun m a ↦ m.add cgroup cpu a.1 a.2) m = m := by
  induction adds with
  | nil => rfl
  | cons a adds ih =>
      have hadd : m.add cgroup cpu a.1 a.2 = m := by
        rw [add, AList.lookup_eq_none.mpr h]
      rw [List.foldl_cons, hadd, ih]

omit [DecidableEq F] in
theorem length_le_create : m.entries.length ≤ (m.create cgroup).entries.length := by
  unfold create
  split_ifs
  · exact le_rfl
  · exact AList.length_le_insert _ _ _
  · exact le_rfl

theorem length_foldl_add : (adds.foldl (fun m a ↦ m.add cgroup cpu a.1 a.2) m).entries.length =
    m.entries.length :=
  AList.length_congr fun _ ↦ mem_foldl_add

/-- One more event. -/
theorem Counts.record {evs : List (KernelEvent n F)} (h : Counts evs m) (e : KernelEvent n F) :
    Counts (evs ++ [e]) (m.record e.cpu e.cgroup e.adds) := by
  by_cases hmem : e.cgroup ∈ m.create e.cgroup
  · refine ⟨fun {cgroup} hc f ↦ ?_, fun hroom e' he' ↦ ?_, fun cgroup hc ↦ ?_⟩
    · rw [CounterMap.record, stored_foldl_add hmem, stored_create, eventTotal_append]
      congr 1
      rcases mem_create (mem_foldl_add.mp hc) with rfl | hc
      · by_cases hm : e.cgroup ∈ m
        · exact h.sums hm f
        · -- it has no event yet: the map had room for it
          rw [stored_of_notMem hm, eventTotal_eq_zero]
          intro e' he' hee
          refine hm (hee ▸ h.present ?_ e' he')
          by_contra hfull
          unfold create at hmem
          rw [if_neg hm, if_neg hfull] at hmem
          exact hm hmem
      · exact h.sums hc f
    · rw [CounterMap.record, length_foldl_add] at hroom
      rw [CounterMap.record, mem_foldl_add]
      rcases List.mem_append.mp he' with he' | he'
      · exact mem_create_of_mem (h.present (length_le_create.trans_lt hroom) e' he')
      · rw [List.mem_singleton.mp he']
        exact hmem
    · rcases mem_create (mem_foldl_add.mp hc) with rfl | hc
      · exact ⟨e, by simp, rfl⟩
      · obtain ⟨e', he', hee⟩ := h.keys cgroup hc
        exact ⟨e', List.mem_append_left _ he', hee⟩
  · -- the map is full: nothing happens
    have hm : e.cgroup ∉ m := fun hm ↦ hmem (mem_create_of_mem hm)
    have hfull : ¬ m.entries.length < maxCgroups := fun hroom ↦ hmem (self_mem_create hroom)
    have hrec : m.record e.cpu e.cgroup e.adds = m := by
      rw [CounterMap.record, foldl_add_of_notMem hmem, create, if_neg hm, if_neg hfull]
    rw [hrec]
    refine ⟨fun {cgroup} hc f ↦ ?_, fun hroom ↦ absurd hroom hfull, fun cgroup hc ↦ ?_⟩
    · rw [eventTotal_append, if_neg, add_zero, h.sums hc]
      rintro rfl
      exact hm hc
    · obtain ⟨e', he', hee⟩ := h.keys cgroup hc
      exact ⟨e', List.mem_append_left _ he', hee⟩

/-- A run of events. -/
theorem counts_ofEvents (evs : List (KernelEvent n F)) : Counts evs (ofEvents evs) := by
  induction evs using List.reverseRecOn with
  | nil => exact ⟨fun hc ↦ absurd hc (AList.notMem_empty _), nofun,
      fun _ hc ↦ absurd hc (AList.notMem_empty _)⟩
  | append_singleton evs e ih =>
      rw [ofEvents, List.foldl_append, List.foldl_cons, List.foldl_nil]
      exact ih.record e

/-- A map of few cgroups has all of them. -/
theorem mem_ofEvents {evs : List (KernelEvent n F)}
    (hroom : (evs.map KernelEvent.cgroup).toFinset.card < maxCgroups) {e : KernelEvent n F} (he : e ∈ evs) :
    e.cgroup ∈ ofEvents evs := by
  have h := counts_ofEvents evs
  refine h.present (lt_of_le_of_lt (AList.length_le_card _ fun cgroup hc ↦ ?_) hroom) e he
  obtain ⟨e', he', rfl⟩ := h.keys cgroup hc
  exact List.mem_toFinset.mpr (List.mem_map_of_mem he')

omit [DecidableEq F] in
/-- The reading of an element is what the map holds of its key. -/
theorem mem_read {e : ℕ × (F → ℕ)} : e ∈ m.read ↔ e.1 ∈ m ∧ e.2 = m.stored e.1 := by
  obtain ⟨cgroup, g⟩ := e
  simp only [read, List.mem_map, Prod.mk.injEq]
  constructor
  · rintro ⟨⟨key, v⟩, hv, rfl, rfl⟩
    have hl : m.lookup key = some v := AList.mem_lookup_iff.mpr hv
    exact ⟨AList.lookup_isSome.mp (Option.isSome_iff_exists.mpr ⟨v, hl⟩), by
      funext f
      rw [stored, hl]⟩
  · rintro ⟨hm, rfl⟩
    obtain ⟨v, hv⟩ := Option.isSome_iff_exists.mp (AList.lookup_isSome.mpr hm)
    refine ⟨⟨cgroup, v⟩, AList.mem_lookup_iff.mp hv, rfl, ?_⟩
    funext f
    rw [stored, hv]

end CounterMap
