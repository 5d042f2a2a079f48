import NodeSentinel.Data.AList
import NodeSentinel.Ebpf.Types

/-!
# The sub-interval ring

`get_timeline_bucket` of `sched_monitor.bpf.c` and `ReadTimeline` of `sched.go`.  The
kernel keeps for every cgroup one ring of 100 ms buckets per CPU; each slot remembers the
window it holds, and is reset when a charge of another window lands on it.  A drain
brings the slots of all CPUs onto one axis that ends now, and deletes them.

`Charge` is what a context switch adds: the slice that ended, to the cgroup that ran, or
the wait that ended, to the cgroup that is about to.
-/

open Function (update)

/-! ## The kernel side -/

/-- `MAX_ACTIVE_CGROUPS`. -/
def maxActiveCgroups : ℕ := 512

/-- `struct sched_bucket`. -/
structure SchedBucket where
  epoch : ℕ := 0
  runqLatNs : ℕ := 0
  cpuNs : ℕ := 0
  runqCount : ℕ := 0
  ctxSwitches : ℕ := 0
deriving Repr, DecidableEq

/-- `struct sched_buckets`. -/
abbrev SchedBuckets := Fin timelineBuckets → SchedBucket

/-- `sched_timeline_map` on `n` CPUs. -/
abbrev TimelineMap (n : ℕ) := AList fun _ : ℕ ↦ (Fin n → SchedBuckets)

/-- The two things a context switch charges. -/
inductive ChargeKind where
  /-- An on-CPU slice, to the cgroup that leaves the CPU. -/
  | slice
  /-- A run-queue wait, to the cgroup that takes it. -/
  | wait
deriving Repr, DecidableEq

/-- A charge of `ns` nanoseconds on a CPU. -/
structure Charge (n : ℕ) where
  cpu : Fin n
  cgroup : ℕ
  now : ℕ
  kind : ChargeKind
  ns : ℕ
deriving Repr, DecidableEq

namespace Charge

variable {n : ℕ} (ch : Charge n)

/-- The window of a charge. -/
def epoch : ℕ := ch.now / timelineBucketNs

/-- The slot its window has in a ring. -/
def slot : Fin timelineBuckets := ⟨ch.epoch % timelineBuckets, Nat.mod_lt _ (by decide)⟩

/-- Add the charge to its bucket. -/
def add (b : SchedBucket) : SchedBucket :=
  match ch.kind with
  | .slice => { b with cpuNs := b.cpuNs + ch.ns, ctxSwitches := b.ctxSwitches + 1 }
  | .wait => { b with runqLatNs := b.runqLatNs + ch.ns, runqCount := b.runqCount + 1 }

end Charge

/-- The lazy reset: a slot that holds another window is emptied. -/
def SchedBucket.reset (b : SchedBucket) (epoch : ℕ) : SchedBucket :=
  if b.epoch = epoch then b else { epoch }

namespace TimelineMap

variable {n : ℕ}

/-- The entry of a cgroup is created where there is none, while the map has room. -/
def create (m : TimelineMap n) (cgroup : ℕ) : TimelineMap n :=
  if cgroup ∈ m then m
  else if m.entries.length < maxActiveCgroups then m.insert cgroup fun _ _ ↦ {}
  else m

/-- `get_timeline_bucket`, and the charge added to the bucket. -/
def charge (m : TimelineMap n) (ch : Charge n) : TimelineMap n :=
  let m := m.create ch.cgroup
  match m.lookup ch.cgroup with
  | none => m
  | some bs => m.insert ch.cgroup
      (update bs ch.cpu (update (bs ch.cpu) ch.slot (ch.add ((bs ch.cpu ch.slot).reset ch.epoch))))

/-- The map after a run of charges since it was last drained. -/
def run (charges : List (Charge n)) : TimelineMap n := charges.foldl charge ∅

end TimelineMap

/-! ## The drain -/

/-- The body of the loop of `ReadTimeline` over the slots of a cgroup. -/
def drainBucket (refEpoch : ℕ) (tl : CgroupTimeline) (b : SchedBucket) : CgroupTimeline :=
  if b.epoch = 0 ∨ b.epoch > refEpoch then tl
  else
    let age := refEpoch - b.epoch
    if age ≥ timelineBuckets then tl
    else
      let pos := timelineBuckets - 1 - age
      { tl with
        runqLatNs := tl.runqLatNs.modify pos (· + b.runqLatNs)
        runqCount := tl.runqCount.modify pos (· + b.runqCount)
        cpuNs := tl.cpuNs.modify pos (· + b.cpuNs)
        ctxSwitch := tl.ctxSwitch.modify pos (· + b.ctxSwitches) }

/-- The slots of all CPUs. -/
def allBuckets {n : ℕ} (percpu : Fin n → SchedBuckets) : List SchedBucket :=
  (List.finRange n).flatMap fun cpu ↦ (List.finRange timelineBuckets).map (percpu cpu)

/-- The timeline of one cgroup. -/
def drainCgroup {n : ℕ} (refEpoch key : ℕ) (percpu : Fin n → SchedBuckets) : CgroupTimeline :=
  let zeros := List.replicate timelineBuckets 0
  (allBuckets percpu).foldl (drainBucket refEpoch) ⟨key, zeros, zeros, zeros, zeros⟩

/-- `ReadTimeline`, `refEpoch` being the window that is now: the timelines, and the map
after all its keys are deleted. -/
def readTimeline {n : ℕ} (m : TimelineMap n) (refEpoch : ℕ) :
    List CgroupTimeline × TimelineMap n :=
  (m.entries.map fun e ↦ drainCgroup refEpoch e.1 e.2, ∅)

/-! ## The four series -/

/-- A series of a timeline. -/
inductive Series where
  | runqLat
  | runqCount
  | cpu
  | ctxSwitch
deriving Repr, DecidableEq

/-- The counter of a series. -/
def SchedBucket.get (b : SchedBucket) : Series → ℕ
  | .runqLat => b.runqLatNs
  | .runqCount => b.runqCount
  | .cpu => b.cpuNs
  | .ctxSwitch => b.ctxSwitches

def CgroupTimeline.get (tl : CgroupTimeline) : Series → List ℕ
  | .runqLat => tl.runqLatNs
  | .runqCount => tl.runqCount
  | .cpu => tl.cpuNs
  | .ctxSwitch => tl.ctxSwitch

/-- What a charge adds to a series. -/
def Charge.amount {n : ℕ} (ch : Charge n) : Series → ℕ
  | .runqLat => if ch.kind = .wait then ch.ns else 0
  | .runqCount => if ch.kind = .wait then 1 else 0
  | .cpu => if ch.kind = .slice then ch.ns else 0
  | .ctxSwitch => if ch.kind = .slice then 1 else 0

variable {n : ℕ}

theorem Charge.slot_congr {ch ch' : Charge n} (h : ch.epoch = ch'.epoch) : ch.slot = ch'.slot :=
  Fin.ext (congrArg (· % timelineBuckets) h)

@[simp] theorem Charge.add_epoch (ch : Charge n) (b : SchedBucket) : (ch.add b).epoch = b.epoch := by
  unfold add
  split <;> rfl

theorem Charge.add_get (ch : Charge n) (b : SchedBucket) (s : Series) :
    (ch.add b).get s = b.get s + ch.amount s := by
  unfold add
  split <;> rename_i hk <;> cases s <;> simp [SchedBucket.get, amount, hk]

@[simp] theorem SchedBucket.reset_epoch (b : SchedBucket) (epoch : ℕ) :
    (b.reset epoch).epoch = epoch := by
  unfold reset
  split
  · assumption
  · rfl

/-- A bucket of `epoch` counts at position `pos` of an axis that ends with `refEpoch`. -/
def Lands (refEpoch pos epoch : ℕ) : Prop :=
  epoch ≠ 0 ∧ epoch + (timelineBuckets - 1) = refEpoch + pos

instance (refEpoch pos epoch : ℕ) : Decidable (Lands refEpoch pos epoch) :=
  inferInstanceAs (Decidable (_ ∧ _))

theorem getElem?_modify_add (l : List ℕ) (i pos v : ℕ) :
    (l.modify i (· + v))[pos]? = l[pos]?.map (· + if i = pos then v else 0) := by
  rw [List.getElem?_modify]
  split <;> simp

/-- What the drain does to one series. -/
theorem drainBucket_get (refEpoch : ℕ) (tl : CgroupTimeline) (b : SchedBucket) (s : Series)
    {pos : ℕ} (hpos : pos < timelineBuckets) :
    ((drainBucket refEpoch tl b).get s)[pos]? = ((tl.get s)[pos]?).map
      (· + if Lands refEpoch pos b.epoch then b.get s else 0) := by
  have hT : timelineBuckets = 64 := rfl
  have skip : ¬ Lands refEpoch pos b.epoch → ((tl.get s)[pos]?) = ((tl.get s)[pos]?).map
      (· + if Lands refEpoch pos b.epoch then b.get s else 0) := fun h ↦ by simp [h]
  unfold drainBucket
  by_cases h0 : b.epoch = 0 ∨ b.epoch > refEpoch
  · rw [if_pos h0]
    exact skip fun h ↦ by unfold Lands at h; omega
  rw [if_neg h0]
  dsimp only
  by_cases hage : refEpoch - b.epoch ≥ timelineBuckets
  · rw [if_pos hage]
    exact skip fun h ↦ by unfold Lands at h; omega
  rw [if_neg hage]
  have hl : Lands refEpoch pos b.epoch ↔ timelineBuckets - 1 - (refEpoch - b.epoch) = pos := by
    unfold Lands
    omega
  simp only [hl]
  cases s <;> exact getElem?_modify_add _ _ _ _

theorem foldl_drainBucket_get (refEpoch : ℕ) (bs : List SchedBucket) (tl : CgroupTimeline)
    (s : Series) {pos : ℕ} (hpos : pos < timelineBuckets) :
    ((bs.foldl (drainBucket refEpoch) tl).get s)[pos]? = ((tl.get s)[pos]?).map
      (· + (bs.map fun b ↦ if Lands refEpoch pos b.epoch then b.get s else 0).sum) := by
  induction bs generalizing tl with
  | nil => simp
  | cons b bs ih =>
      rw [List.foldl_cons, ih, drainBucket_get refEpoch tl b s hpos, Option.map_map]
      congr 1
      funext k
      simp [add_assoc]

theorem foldl_drainBucket_length (refEpoch : ℕ) (bs : List SchedBucket) (tl : CgroupTimeline)
    (s : Series) : ((bs.foldl (drainBucket refEpoch) tl).get s).length = (tl.get s).length := by
  induction bs generalizing tl with
  | nil => rfl
  | cons b bs ih =>
      rw [List.foldl_cons, ih]
      unfold drainBucket
      dsimp only
      split_ifs
      · rfl
      · rfl
      · cases s <;> exact List.length_modify _ _ _

theorem drainBucket_cgroupID (refEpoch : ℕ) (tl : CgroupTimeline) (b : SchedBucket) :
    (drainBucket refEpoch tl b).cgroupID = tl.cgroupID := by
  unfold drainBucket
  dsimp only
  split_ifs <;> rfl

theorem drainCgroup_cgroupID (refEpoch key : ℕ) (percpu : Fin n → SchedBuckets) :
    (drainCgroup refEpoch key percpu).cgroupID = key := by
  have h : ∀ (bs : List SchedBucket) (tl : CgroupTimeline),
      (bs.foldl (drainBucket refEpoch) tl).cgroupID = tl.cgroupID := fun bs ↦ by
    induction bs with
    | nil => exact fun _ ↦ rfl
    | cons b bs ih => exact fun tl ↦ (ih _).trans (drainBucket_cgroupID refEpoch tl b)
  exact h _ _

/-! ## What the ring holds -/

/-- What the charges of a cgroup in a window add to a series. -/
def charged (charges : List (Charge n)) (cgroup epoch : ℕ) (s : Series) : ℕ :=
  (charges.map fun ch ↦ if ch.cgroup = cgroup ∧ ch.epoch = epoch then ch.amount s else 0).sum

/-- The same, on one CPU. -/
def chargedOn (charges : List (Charge n)) (cpu : Fin n) (cgroup epoch : ℕ) (s : Series) : ℕ :=
  (charges.map fun ch ↦
    if ch.cpu = cpu ∧ ch.cgroup = cgroup ∧ ch.epoch = epoch then ch.amount s else 0).sum

theorem chargedOn_append (charges : List (Charge n)) (ch : Charge n) (cpu : Fin n)
    (cgroup epoch : ℕ) (s : Series) :
    chargedOn (charges ++ [ch]) cpu cgroup epoch s = chargedOn charges cpu cgroup epoch s +
      if ch.cpu = cpu ∧ ch.cgroup = cgroup ∧ ch.epoch = epoch then ch.amount s else 0 := by
  simp [chargedOn]

/-- The CPUs together. -/
theorem sum_chargedOn (charges : List (Charge n)) (cgroup epoch : ℕ) (s : Series) :
    ∑ cpu, chargedOn charges cpu cgroup epoch s = charged charges cgroup epoch s := by
  induction charges with
  | nil => simp [chargedOn, charged]
  | cons ch charges ih =>
      simp only [chargedOn, charged, List.map_cons, List.sum_cons, Finset.sum_add_distrib] at ih ⊢
      rw [ih]
      congr 1
      by_cases h : ch.cgroup = cgroup ∧ ch.epoch = epoch <;> simp [h]

theorem chargedOn_eq_zero {charges : List (Charge n)} {cpu : Fin n} {cgroup epoch : ℕ}
    (h : ∀ ch ∈ charges, ch.cpu = cpu → ch.cgroup = cgroup → ch.epoch ≠ epoch) (s : Series) :
    chargedOn charges cpu cgroup epoch s = 0 := by
  refine List.sum_eq_zero fun v hv ↦ ?_
  obtain ⟨ch, hch, rfl⟩ := List.mem_map.mp hv
  exact if_neg fun he ↦ h ch hch he.1 he.2.1 he.2.2

/-- A slot holds the charges of the latest window that has landed on it. -/
structure Slot (charges : List (Charge n)) (cpu : Fin n) (cgroup : ℕ) (idx : Fin timelineBuckets)
    (b : SchedBucket) : Prop where
  sums : ∀ s, b.get s = chargedOn charges cpu cgroup b.epoch s
  latest : ∀ ch ∈ charges, ch.cpu = cpu → ch.cgroup = cgroup → ch.slot = idx → ch.epoch ≤ b.epoch
  origin : b.epoch ≠ 0 → ∃ ch ∈ charges, ch.cpu = cpu ∧ ch.slot = idx ∧ ch.epoch = b.epoch

namespace Slot

variable {charges : List (Charge n)} {cpu : Fin n} {cgroup : ℕ} {idx : Fin timelineBuckets}
  {b : SchedBucket} {ch : Charge n}

/-- A slot of a ring that has just been created. -/
theorem empty (h : ∀ ch ∈ charges, ch.cgroup ≠ cgroup) : Slot charges cpu cgroup idx {} where
  sums s := by
    rw [chargedOn_eq_zero fun ch hch _ hcg _ ↦ h ch hch hcg]
    cases s <;> rfl
  latest ch hch _ hcg := absurd hcg (h ch hch)
  origin h := absurd rfl h

/-- A charge that goes elsewhere. -/
theorem other (h : Slot charges cpu cgroup idx b) (h0 : ch.epoch ≠ 0)
    (hne : ¬ (ch.cpu = cpu ∧ ch.cgroup = cgroup ∧ ch.slot = idx)) :
    Slot (charges ++ [ch]) cpu cgroup idx b where
  sums s := by
    rw [chargedOn_append, if_neg, add_zero, h.sums]
    rintro ⟨hcpu, hcg, he⟩
    obtain ⟨ch', -, -, hslot, he'⟩ := h.origin (he ▸ h0)
    exact hne ⟨hcpu, hcg, (Charge.slot_congr (he.trans he'.symm)).trans hslot⟩
  latest ch' hch' hcpu hcg hslot := by
    rcases List.mem_append.mp hch' with hch' | hch'
    · exact h.latest ch' hch' hcpu hcg hslot
    · obtain rfl := List.mem_singleton.mp hch'
      exact absurd ⟨hcpu, hcg, hslot⟩ hne
  origin he := by
    obtain ⟨ch', hch', hrest⟩ := h.origin he
    exact ⟨ch', List.mem_append_left _ hch', hrest⟩

/-- A charge that lands on the slot, later than those before it on its CPU. -/
theorem add (h : Slot charges ch.cpu ch.cgroup ch.slot b)
    (hmono : ∀ ch' ∈ charges, ch'.cpu = ch.cpu → ch'.epoch ≤ ch.epoch) :
    Slot (charges ++ [ch]) ch.cpu ch.cgroup ch.slot (ch.add (b.reset ch.epoch)) where
  sums s := by
    rw [Charge.add_epoch, SchedBucket.reset_epoch, Charge.add_get, chargedOn_append,
      if_pos ⟨rfl, rfl, rfl⟩]
    congr 1
    unfold SchedBucket.reset
    split
    · next he => rw [h.sums, he]
    · next he =>
        -- no earlier charge of this window: the slot would still hold it
        rw [chargedOn_eq_zero]
        · cases s <;> rfl
        · intro ch' hch' hcpu hcg he'
          have hle := h.latest ch' hch' hcpu hcg (Charge.slot_congr he')
          by_cases h0 : b.epoch = 0
          · omega
          · obtain ⟨ch'', hch'', hcpu'', -, he''⟩ := h.origin h0
            have := hmono ch'' hch'' hcpu''
            omega
  latest ch' hch' hcpu _ _ := by
    rw [Charge.add_epoch, SchedBucket.reset_epoch]
    rcases List.mem_append.mp hch' with hch' | hch'
    · exact hmono ch' hch' hcpu
    · rw [List.mem_singleton.mp hch']
  origin _ := ⟨ch, by simp, rfl, rfl, by simp⟩

end Slot

/-- The charges of each CPU are in the order of time, and of windows that have a number. -/
structure InOrder (charges : List (Charge n)) : Prop where
  mono : charges.Pairwise fun ch ch' ↦ ch.cpu = ch'.cpu → ch.now ≤ ch'.now
  started : ∀ ch ∈ charges, ch.epoch ≠ 0

/-- The map holds the rings of the charges, except those of cgroups it had no room for. -/
structure Rings (charges : List (Charge n)) (m : TimelineMap n) : Prop where
  slots : ∀ {cgroup bs}, m.lookup cgroup = some bs → ∀ cpu idx,
    Slot charges cpu cgroup idx (bs cpu idx)
  present : m.entries.length < maxActiveCgroups → ∀ ch ∈ charges, ch.cgroup ∈ m

namespace TimelineMap

variable {m : TimelineMap n} {cgroup : ℕ}

/-- A cgroup has no entry only if the map is full. -/
theorem full_of_lookup_create (h : (m.create cgroup).lookup cgroup = none) :
    maxActiveCgroups ≤ (m.create cgroup).entries.length := by
  unfold create at h ⊢
  split_ifs at h ⊢ with hm hroom
  · exact absurd h (Option.isSome_iff_ne_none.mp (AList.lookup_isSome.mpr hm))
  · rw [AList.lookup_insert] at h
    cases h
  · exact not_lt.mp hroom

end TimelineMap

namespace Rings

variable {charges : List (Charge n)} {m : TimelineMap n} {ch : Charge n}

theorem create (h : Rings charges m) (cgroup : ℕ) : Rings charges (m.create cgroup) := by
  unfold TimelineMap.create
  split_ifs with hm hroom
  · exact h
  · refine ⟨fun {cgroup' bs} hl cpu idx ↦ ?_, fun _ ch hch ↦
      (AList.mem_insert _).mpr (.inr (h.present hroom ch hch))⟩
    by_cases hc : cgroup' = cgroup
    · subst hc
      rw [AList.lookup_insert, Option.some.injEq] at hl
      subst hl
      exact .empty fun ch hch he ↦ hm (he ▸ h.present hroom ch hch)
    · rw [AList.lookup_insert_ne hc] at hl
      exact h.slots hl cpu idx
  · exact h

/-- One more charge. -/
theorem charge (h : Rings charges m) (h0 : ch.epoch ≠ 0)
    (hmono : ∀ ch' ∈ charges, ch'.cpu = ch.cpu → ch'.epoch ≤ ch.epoch) :
    Rings (charges ++ [ch]) (m.charge ch) := by
  have hc := h.create ch.cgroup
  have elsewhere : ∀ {cgroup bs}, (m.create ch.cgroup).lookup cgroup = some bs →
      cgroup ≠ ch.cgroup → ∀ cpu idx, Slot (charges ++ [ch]) cpu cgroup idx (bs cpu idx) :=
    fun hl hne cpu idx ↦ (hc.slots hl cpu idx).other h0 fun he ↦ hne he.2.1.symm
  unfold TimelineMap.charge
  dsimp only
  cases hl : (m.create ch.cgroup).lookup ch.cgroup with
  | none =>
      refine ⟨fun hl' ↦ elsewhere hl' fun he ↦ ?_, fun hroom ↦ ?_⟩
      · rw [he, hl] at hl'
        cases hl'
      · exact absurd hroom (not_lt.mpr (TimelineMap.full_of_lookup_create hl))
  | some bs =>
      refine ⟨fun {cgroup bs'} hl' cpu idx ↦ ?_, fun hroom ch' hch' ↦ ?_⟩
      · by_cases hcg : cgroup = ch.cgroup
        · subst hcg
          rw [AList.lookup_insert, Option.some.injEq] at hl'
          subst hl'
          by_cases hcpu : cpu = ch.cpu
          · subst hcpu
            rw [Function.update_self]
            by_cases hidx : idx = ch.slot
            · subst hidx
              rw [Function.update_self]
              exact (hc.slots hl _ _).add hmono
            · rw [Function.update_of_ne hidx]
              exact (hc.slots hl _ _).other h0 fun he ↦ hidx he.2.2.symm
          · rw [Function.update_of_ne hcpu]
            exact (hc.slots hl _ _).other h0 fun he ↦ hcpu he.1.symm
        · rw [AList.lookup_insert_ne hcg] at hl'
          exact elsewhere hl' hcg cpu idx
      · rw [AList.mem_insert]
        rcases List.mem_append.mp hch' with hch' | hch'
        · exact .inr (hc.present ((AList.length_le_insert _ _ _).trans_lt hroom) ch' hch')
        · exact .inl (congrArg Charge.cgroup (List.mem_singleton.mp hch'))

/-- A run of charges. -/
theorem run (h : InOrder charges) : Rings charges (TimelineMap.run charges) := by
  induction charges using List.reverseRecOn with
  | nil => exact ⟨fun hl ↦ by simp [TimelineMap.run] at hl, nofun⟩
  | append_singleton charges ch ih =>
      obtain ⟨hmono, -, hlast⟩ := List.pairwise_append.mp h.mono
      rw [TimelineMap.run, List.foldl_append, List.foldl_cons, List.foldl_nil]
      refine (ih ⟨hmono, fun ch' hch' ↦ h.started ch' (List.mem_append_left _ hch')⟩).charge
        (h.started ch (by simp)) fun ch' hch' hcpu ↦ ?_
      exact Nat.div_le_div_right (hlast ch' hch' ch (by simp) hcpu)

end Rings

/-! ## What the drain reports -/

/-- The slots of one CPU that count at a position hold the charges of its window. -/
theorem sum_slots {charges : List (Charge n)} {cpu : Fin n} {cgroup refEpoch pos : ℕ}
    {bs : SchedBuckets} (h : ∀ idx, Slot charges cpu cgroup idx (bs idx))
    (hstart : ∀ ch ∈ charges, ch.epoch ≠ 0) (href : ∀ ch ∈ charges, ch.epoch ≤ refEpoch)
    (hpos : pos < timelineBuckets) (s : Series) :
    ∑ idx, (if Lands refEpoch pos (bs idx).epoch then (bs idx).get s else 0) =
      chargedOn charges cpu cgroup (refEpoch + pos - (timelineBuckets - 1)) s := by
  have hT : timelineBuckets = 64 := rfl
  let e := refEpoch + pos - (timelineBuckets - 1)
  let i : Fin timelineBuckets := ⟨e % timelineBuckets, Nat.mod_lt _ (by decide)⟩
  have lands : ∀ {idx}, Lands refEpoch pos (bs idx).epoch → (bs idx).epoch = e := fun hl ↦ by
    unfold Lands at hl
    omega
  have slot : ∀ {ch : Charge n}, ch.epoch = e → ch.slot = i := fun he ↦
    Fin.ext (congrArg (· % timelineBuckets) he)
  rw [Finset.sum_eq_single i]
  · by_cases hl : Lands refEpoch pos (bs i).epoch
    · rw [if_pos hl, (h i).sums, lands hl]
    · rw [if_neg hl, chargedOn_eq_zero]
      intro ch hch hcpu hcg he
      -- the slot would have to hold this window, as no later one fits between it and now
      have hle := (h i).latest ch hch hcpu hcg (slot he)
      have h0 := hstart ch hch
      obtain ⟨ch', hch', -, hslot, he'⟩ := (h i).origin (by omega)
      have hmod : ch'.epoch % timelineBuckets = e % timelineBuckets := congrArg Fin.val hslot
      have hnow := href ch' hch'
      refine hl ⟨by omega, ?_⟩
      simp only [hT, e] at *
      omega
  · intro idx _ hidx
    refine if_neg fun hl ↦ hidx ?_
    obtain ⟨ch', -, -, hslot, he'⟩ := (h idx).origin hl.1
    rw [← hslot, slot (he'.trans (lands hl))]
  · exact fun hi ↦ absurd (Finset.mem_univ i) hi

/-- A position of a drained series is what was charged in its window, on all CPUs. -/
theorem drainCgroup_get {charges : List (Charge n)} {cgroup refEpoch : ℕ}
    {percpu : Fin n → SchedBuckets} (h : ∀ cpu idx, Slot charges cpu cgroup idx (percpu cpu idx))
    (hstart : ∀ ch ∈ charges, ch.epoch ≠ 0) (href : ∀ ch ∈ charges, ch.epoch ≤ refEpoch)
    (s : Series) :
    (drainCgroup refEpoch cgroup percpu).get s = (List.range timelineBuckets).map fun pos ↦
      charged charges cgroup (refEpoch + pos - (timelineBuckets - 1)) s := by
  refine List.ext_getElem? fun pos ↦ ?_
  by_cases hpos : pos < timelineBuckets
  · have hzero : (CgroupTimeline.get ⟨cgroup, List.replicate timelineBuckets 0,
        List.replicate timelineBuckets 0, List.replicate timelineBuckets 0,
        List.replicate timelineBuckets 0⟩ s)[pos]? = some 0 := by
      cases s <;> simp [CgroupTimeline.get, hpos]
    have hsum : ((allBuckets percpu).map fun b ↦
        if Lands refEpoch pos b.epoch then b.get s else 0).sum =
        charged charges cgroup (refEpoch + pos - (timelineBuckets - 1)) s := by
      rw [← sum_chargedOn, ← Finset.sum_congr rfl fun cpu _ ↦ sum_slots (h cpu) hstart href hpos s]
      simp [allBuckets, List.flatMap_def, List.sum_flatten, Fin.sum_univ_def,
        Function.comp_def]
    rw [drainCgroup, foldl_drainBucket_get _ _ _ _ hpos, hzero, hsum]
    simp [hpos]
  · rw [List.getElem?_eq_none, List.getElem?_eq_none]
    · simpa using hpos
    · rw [drainCgroup, foldl_drainBucket_length]
      cases s <;> simpa [CgroupTimeline.get] using hpos
