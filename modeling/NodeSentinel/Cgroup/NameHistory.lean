import NodeSentinel.Cgroup.TtlCache
import NodeSentinel.Data.History

/-!
# The name cache and its history

Which name the cache has of a cgroup, in terms of the calls that were made: the one of the last
binding, until the grace period ends that the first call without the cgroup has started.

The source has no optional deadline: it keeps the zero time in the entries that are live.  The cache
with such entries behaves as the other one while the clock is past the zero time; a deadline that is
the zero time itself would be taken for that of a live cgroup.
-/

/-! ## Calls -/

/-- A call of a method of `ttlCache`. -/
inductive CacheCall where
  | replace (live : Finmap fun _ : ℕ ↦ PodID)
  | put (id : ℕ) (pod : PodID)
  | tombstone (id : ℕ)
  | get (id : ℕ)

/-- A call and the reading of the clock in it, in nanoseconds since the zero time. -/
structure TimedCall where
  time : ℤ
  call : CacheCall

namespace CacheCall

/-- The name a call binds to a cgroup. -/
def binds (id : ℕ) : CacheCall → Option PodID
  | replace live => live.lookup id
  | put id' pod => if id' = id then some pod else none
  | _ => none

/-- A call after which a cgroup is absent. -/
def unbinds (id : ℕ) : CacheCall → Bool
  | replace live => (live.lookup id).isNone
  | tombstone id' => id' = id
  | _ => false

end CacheCall

/-- The cache after a call. -/
def TtlCache.after (c : TtlCache) (x : TimedCall) : TtlCache :=
  match x.call with
  | .replace live => c.replace x.time fun id ↦ live.lookup id
  | .put id pod => c.put id pod
  | .tombstone id => c.tombstone x.time id
  | .get _ => c

/-! ## What a history says of a cgroup -/

/-- A call that binds a name to a cgroup. -/
def TimedCall.Binds (id : ℕ) (x : TimedCall) : Prop := (x.call.binds id).isSome

/-- The first call of some after which a cgroup is absent. -/
def firstAbsent (id : ℕ) (calls : List TimedCall) : Option TimedCall := calls.find? (·.call.unbinds id)

/-- A cgroup has the name of the last call that bound one to it, and has not been absent since for
longer than the TTL. -/
def NamedAt (ttl : ℤ) (calls : List TimedCall) (t : ℤ) (id : ℕ) (pod : PodID) : Prop :=
  ∃ x after, LastOf (TimedCall.Binds id) calls x after ∧ x.call.binds id = some pod ∧
    ∀ d, firstAbsent id after = some d → t ≤ d.time + ttl

/-- The entry of a cgroup at some time, by the history of the cache. -/
inductive Remembered (ttl : ℤ) (id : ℕ) (calls : List TimedCall) (now : ℤ) : Option TtlEntry → Prop
  /-- No name was bound to it. -/
  | unknown (h : ∀ x ∈ calls, ¬ x.Binds id) : Remembered ttl id calls now none
  /-- It has not been absent since its name was bound. -/
  | live {x : TimedCall} {after : List TimedCall} {pod : PodID}
      (h : LastOf (TimedCall.Binds id) calls x after) (hpod : x.call.binds id = some pod)
      (hlive : firstAbsent id after = none) : Remembered ttl id calls now (some ⟨pod, none⟩)
  /-- It has been absent since. -/
  | absent {x d : TimedCall} {after : List TimedCall} {pod : PodID}
      (h : LastOf (TimedCall.Binds id) calls x after) (hpod : x.call.binds id = some pod)
      (habsent : firstAbsent id after = some d) :
      Remembered ttl id calls now (some ⟨pod, some (d.time + ttl)⟩)
  /-- It has been absent for too long. -/
  | pruned {x d : TimedCall} {after : List TimedCall}
      (h : LastOf (TimedCall.Binds id) calls x after)
      (habsent : firstAbsent id after = some d) (hlt : d.time + ttl < now) :
      Remembered ttl id calls now none

section

variable {ttl now t : ℤ} {id : ℕ} {calls : List TimedCall} {x : TimedCall} {o : Option TtlEntry}

theorem Remembered.mono (h : Remembered ttl id calls now o) (hle : now ≤ t) :
    Remembered ttl id calls t o := by
  cases h with
  | unknown h => exact .unknown h
  | live h hpod hlive => exact .live h hpod hlive
  | absent h hpod habsent => exact .absent h hpod habsent
  | pruned h habsent hlt => exact .pruned h habsent (hlt.trans_le hle)

/-- A call that binds a name. -/
theorem Remembered.bind {pod : PodID} (hx : x.call.binds id = some pod) :
    Remembered ttl id (calls ++ [x]) now (some ⟨pod, none⟩) := by
  refine .live ((LastOf.concat_of_pos ?_).mpr ⟨rfl, rfl⟩) hx rfl
  exact Option.isSome_iff_exists.mpr ⟨pod, hx⟩

/-- A call that does not concern a cgroup. -/
theorem Remembered.other (h : Remembered ttl id calls now o) (hx : ¬ x.Binds id)
    (hu : x.call.unbinds id = false) : Remembered ttl id (calls ++ [x]) now o := by
  have hfirst : ∀ after, firstAbsent id (after ++ [x]) = firstAbsent id after := by
    intro after
    simp [firstAbsent, List.find?_append, hu]
  cases h with
  | unknown h =>
      refine .unknown fun y hy ↦ ?_
      rcases List.mem_append.mp hy with hy | hy
      · exact h y hy
      · rwa [List.mem_singleton.mp hy]
  | live h hpod hlive =>
      exact .live ((LastOf.concat_of_neg hx).mpr ⟨_, rfl, h⟩) hpod ((hfirst _).trans hlive)
  | absent h hpod habsent =>
      exact .absent ((LastOf.concat_of_neg hx).mpr ⟨_, rfl, h⟩) hpod ((hfirst _).trans habsent)
  | pruned h habsent hlt =>
      exact .pruned ((LastOf.concat_of_neg hx).mpr ⟨_, rfl, h⟩) ((hfirst _).trans habsent) hlt

/-- A call after which a cgroup is absent starts its grace period, or leaves the one that has
started. -/
theorem Remembered.unbind (h : Remembered ttl id calls now o) (hx : ¬ x.Binds id)
    (hu : x.call.unbinds id = true) :
    Remembered ttl id (calls ++ [x]) now (o.map fun e ↦ e.absent (x.time + ttl)) := by
  have hfirst : ∀ {after : List TimedCall} {d}, firstAbsent id after = some d →
      firstAbsent id (after ++ [x]) = some d := by
    intro after d hd
    rw [firstAbsent, List.find?_append, show after.find? _ = some d from hd]
    rfl
  cases h with
  | unknown h =>
      refine .unknown fun y hy ↦ ?_
      rcases List.mem_append.mp hy with hy | hy
      · exact h y hy
      · rwa [List.mem_singleton.mp hy]
  | @live _ after _ h hpod hlive =>
      refine .absent ((LastOf.concat_of_neg hx).mpr ⟨_, rfl, h⟩) hpod ?_
      rw [firstAbsent, List.find?_append, show after.find? _ = none from hlive]
      simp [hu]
  | absent h hpod habsent =>
      exact .absent ((LastOf.concat_of_neg hx).mpr ⟨_, rfl, h⟩) hpod (hfirst habsent)
  | pruned h habsent hlt =>
      exact .pruned ((LastOf.concat_of_neg hx).mpr ⟨_, rfl, h⟩) (hfirst habsent) hlt

/-- What has expired may be dropped. -/
theorem Remembered.drop (h : Remembered ttl id calls now o) :
    Remembered ttl id calls now (o.filter fun e ↦ !e.expired now) := by
  cases h with
  | unknown h => exact .unknown h
  | live h hpod hlive => exact .live h hpod hlive
  | @absent _ d _ pod h hpod habsent =>
      by_cases hlt : d.time + ttl < now
      · rw [Option.filter_some, if_neg (by simp [TtlEntry.expired, hlt])]
        exact .pruned h habsent hlt
      · rw [Option.filter_some, if_pos (by simp [TtlEntry.expired, not_lt.mp hlt])]
        exact .absent h hpod habsent
  | pruned h habsent hlt => exact .pruned h habsent hlt

/-- A call keeps what the cache remembers in step with the history. -/
theorem Remembered.after {c : TtlCache} (h : Remembered c.ttl id calls now (c.items id))
    (hle : now ≤ x.time) : Remembered c.ttl id (calls ++ [x]) x.time ((c.after x).items id) := by
  replace h := h.mono hle
  obtain ⟨time, call⟩ := x
  cases call with
  | replace live =>
      cases hl : live.lookup id with
      | some pod =>
          rw [TtlCache.after, TtlCache.replace_of_some hl]
          exact .bind hl
      | none =>
          rw [TtlCache.after, TtlCache.replace_of_none hl]
          refine Remembered.drop (h.unbind ?_ ?_)
          · simp [TimedCall.Binds, CacheCall.binds, hl]
          · simp [CacheCall.unbinds, hl]
  | put id' pod =>
      by_cases hid : id' = id
      · subst hid
        rw [TtlCache.after, TtlCache.put_self]
        exact .bind (if_pos rfl)
      · rw [TtlCache.after, TtlCache.put_of_ne (Ne.symm hid)]
        exact h.other (by simp [TimedCall.Binds, CacheCall.binds, hid]) rfl
  | tombstone id' =>
      by_cases hid : id' = id
      · subst hid
        rw [TtlCache.after, TtlCache.tombstone_self]
        exact h.unbind (by simp [TimedCall.Binds, CacheCall.binds]) (by simp [CacheCall.unbinds])
      · rw [TtlCache.after, TtlCache.tombstone_of_ne (Ne.symm hid)]
        exact h.other (by simp [TimedCall.Binds, CacheCall.binds]) (by simp [CacheCall.unbinds, hid])
  | get id' => exact h.other (by simp [TimedCall.Binds, CacheCall.binds]) rfl

/-- A clock that does not go back, up to `t`. -/
def Clocked (calls : List TimedCall) (t : ℤ) : Prop :=
  calls.Pairwise (fun x y ↦ x.time ≤ y.time) ∧ ∀ x ∈ calls, x.time ≤ t

theorem Clocked.of_concat (h : Clocked (calls ++ [x]) t) : Clocked calls x.time ∧ x.time ≤ t := by
  obtain ⟨hsorted, hle⟩ := h
  obtain ⟨hcalls, -, hx⟩ := List.pairwise_append.mp hsorted
  exact ⟨⟨hcalls, fun y hy ↦ hx y hy x (by simp)⟩, hle x (by simp)⟩

namespace TtlCache

/-- The cache after some calls. -/
def run (c : TtlCache) (calls : List TimedCall) : TtlCache := calls.foldl after c

theorem run_concat (c : TtlCache) : c.run (calls ++ [x]) = (c.run calls).after x := by
  rw [run, List.foldl_append]
  rfl

theorem after_ttl (c : TtlCache) : (c.after x).ttl = c.ttl := by
  obtain ⟨time, call⟩ := x
  cases call <;> rfl

theorem run_ttl (c : TtlCache) : (c.run calls).ttl = c.ttl := by
  induction calls using List.reverseRecOn with
  | nil => rfl
  | append_singleton calls x ih => rw [run_concat, after_ttl, ih]

/-- What the cache has of a cgroup after some calls. -/
theorem remembered_run (ttl : ℤ) (id : ℕ) (h : Clocked calls t) :
    Remembered ttl id calls t (((newTTLCache ttl).run calls).items id) := by
  induction calls using List.reverseRecOn generalizing t with
  | nil => exact .unknown (by simp)
  | append_singleton calls x ih =>
      obtain ⟨hcalls, hle⟩ := h.of_concat
      have hstep := ih hcalls
      have httl : ((newTTLCache ttl).run calls).ttl = ttl := run_ttl _
      rw [run_concat]
      generalize (newTTLCache ttl).run calls = c at hstep httl ⊢
      subst httl
      exact (hstep.after le_rfl).mono hle

/-- The name that is found is the one the history has. -/
theorem get_run_iff (ttl : ℤ) (id : ℕ) (h : Clocked calls t) {pod : PodID} :
    ((newTTLCache ttl).run calls).get t id = some pod ↔ NamedAt ttl calls t id pod := by
  have hmem := remembered_run ttl id h
  rw [get]
  generalize ((newTTLCache ttl).run calls).items id = o at hmem
  constructor
  · intro hget
    cases hmem with
    | unknown => cases hget
    | live hlast hpod hlive =>
        obtain rfl : _ = pod := by simpa [TtlEntry.expired] using hget
        exact ⟨_, _, hlast, hpod, fun d hd ↦ by rw [hlive] at hd; cases hd⟩
    | @absent _ d _ _ hlast hpod habsent =>
        have hgrace : t ≤ d.time + ttl := by
          by_contra hlt
          simp [TtlEntry.expired, not_le.mp hlt] at hget
        obtain rfl : _ = pod := by simpa [TtlEntry.expired, hgrace.not_gt] using hget
        refine ⟨_, _, hlast, hpod, fun d' hd ↦ ?_⟩
        obtain rfl := Option.some.inj (habsent.symm.trans hd)
        exact hgrace
    | pruned => cases hget
  · rintro ⟨x, after, hlast, hpod, hgrace⟩
    cases hmem with
    | unknown hnone =>
        obtain ⟨⟨before, rfl⟩, hbinds, -⟩ := hlast
        exact absurd hbinds (hnone x (by simp))
    | live hlast' hpod' hlive =>
        obtain ⟨rfl, rfl⟩ := hlast.unique hlast'
        obtain rfl := Option.some.inj (hpod.symm.trans hpod')
        rfl
    | absent hlast' hpod' habsent =>
        obtain ⟨rfl, rfl⟩ := hlast.unique hlast'
        obtain rfl := Option.some.inj (hpod.symm.trans hpod')
        simp [TtlEntry.expired, (hgrace _ habsent).not_gt]
    | pruned hlast' habsent hlt =>
        obtain ⟨rfl, rfl⟩ := hlast.unique hlast'
        exact absurd (hgrace _ habsent) hlt.not_ge

end TtlCache

end

/-! ## The cache with the zero time -/

section Range

variable {α β : Type*}

/-- A loop over a map: what becomes of each entry, if it is kept. -/
def Finmap.range (m : Finmap fun _ : ℕ ↦ α) (f : α → Option β) : Finmap fun _ : ℕ ↦ β :=
  Finmap.keysLookupEquiv.symm ⟨(m.keys.filter fun id ↦ ((m.lookup id).bind f).isSome,
    fun id ↦ (m.lookup id).bind f), fun id ↦ by
      rw [Finset.mem_filter, Finmap.mem_keys, ← Finmap.lookup_isSome]
      cases h : m.lookup id <;> simp [h]⟩

@[simp] theorem Finmap.lookup_range (m : Finmap fun _ : ℕ ↦ α) (f : α → Option β) (id : ℕ) :
    (m.range f).lookup id = (m.lookup id).bind f := by
  rw [range, Finmap.keysLookupEquiv_symm_apply_lookup]

end Range

/-- `ttlEntry` as it is stored. -/
structure RawEntry where
  pod : PodID
  expiry : ℤ
deriving Repr, DecidableEq

/-- `IsZero`. -/
def isZero (t : ℤ) : Bool := t = 0

namespace RawEntry

/-- `!e.expiry.IsZero() && now.After(e.expiry)`. -/
def expired (e : RawEntry) (now : ℤ) : Bool := !isZero e.expiry && now > e.expiry

/-- The entry of a cgroup that is found absent. -/
def absent (e : RawEntry) (deadline : ℤ) : RawEntry :=
  if isZero e.expiry then { e with expiry := deadline } else e

/-- What an entry stands for. -/
def entry (e : RawEntry) : TtlEntry := ⟨e.pod, if isZero e.expiry then none else some e.expiry⟩

@[simp] theorem expired_entry (e : RawEntry) (now : ℤ) : e.entry.expired now = e.expired now := by
  unfold entry TtlEntry.expired expired
  cases isZero e.expiry <;> rfl

/-- A deadline is not to be the zero time. -/
theorem entry_absent (e : RawEntry) {deadline : ℤ} (h : deadline ≠ 0) :
    (e.absent deadline).entry = e.entry.absent deadline := by
  unfold entry absent TtlEntry.absent
  by_cases hz : e.expiry = 0 <;> simp [isZero, hz, h]

end RawEntry

/-- `ttlCache` as it is stored. -/
structure RawCache where
  ttl : ℤ
  items : Finmap fun _ : ℕ ↦ RawEntry

namespace RawCache

/-- `newTTLCache`. -/
def new (ttl : ℤ) : RawCache := ⟨ttl, ∅⟩

variable (c : RawCache)

/-- `get`. -/
def get (now : ℤ) (id : ℕ) : Option PodID :=
  match c.items.lookup id with
  | none => none
  | some e => if e.expired now then none else some e.pod

/-- `replace`. -/
def replace (now : ℤ) (live : Finmap fun _ : ℕ ↦ PodID) : RawCache :=
  let items := c.items.range fun e ↦ some (e.absent (now + c.ttl))
  let items := (live.range fun pod ↦ some ⟨pod, 0⟩) ∪ items
  let items := items.range fun e ↦ if e.expired now then none else some e
  { c with items }

/-- `put`. -/
def put (id : ℕ) (pod : PodID) : RawCache := { c with items := c.items.insert id ⟨pod, 0⟩ }

/-- `tombstone`. -/
def tombstone (now : ℤ) (id : ℕ) : RawCache :=
  match c.items.lookup id with
  | none => c
  | some e => { c with items := c.items.insert id (e.absent (now + c.ttl)) }

/-- `len`. -/
def len : ℕ := c.items.keys.card

/-- The cache after a call. -/
def after (x : TimedCall) : RawCache :=
  match x.call with
  | .replace live => c.replace x.time live
  | .put id pod => c.put id pod
  | .tombstone id => c.tombstone x.time id
  | .get _ => c

/-- The cache after some calls. -/
def run (calls : List TimedCall) : RawCache := calls.foldl after c

/-- What a cache stands for. -/
def cache : TtlCache := ⟨c.ttl, fun id ↦ (c.items.lookup id).map RawEntry.entry⟩

/-! ### It is the same cache -/

variable {c} {x : TimedCall} {now t : ℤ} {id : ℕ} {e : RawEntry} {calls : List TimedCall}

theorem items_cache : c.cache.items id = (c.items.lookup id).map RawEntry.entry := rfl

theorem get_cache : c.cache.get now id = c.get now id := by
  rw [TtlCache.get, get, items_cache]
  cases h : c.items.lookup id with
  | none => rfl
  | some e =>
      simp only [Option.map_some, RawEntry.expired_entry]
      rfl

theorem cache_eq {b : TtlCache} (httl : c.ttl = b.ttl)
    (h : ∀ id, (c.items.lookup id).map RawEntry.entry = b.items id) : c.cache = b := by
  obtain ⟨ttl, items⟩ := b
  obtain rfl : c.ttl = ttl := httl
  exact congrArg _ (funext h)

theorem lookup_replace_of_some {live : Finmap fun _ : ℕ ↦ PodID} {pod : PodID}
    (h : live.lookup id = some pod) : (c.replace now live).items.lookup id = some ⟨pod, 0⟩ := by
  have hlive : (live.range fun pod ↦ some (⟨pod, 0⟩ : RawEntry)).lookup id = some ⟨pod, 0⟩ := by
    rw [Finmap.lookup_range, h]
    rfl
  simp only [replace, Finmap.lookup_range]
  rw [Finmap.lookup_union_left (Finmap.mem_of_lookup_eq_some hlive), hlive]
  rfl

theorem lookup_replace_of_none {live : Finmap fun _ : ℕ ↦ PodID} (h : live.lookup id = none) :
    (c.replace now live).items.lookup id =
      ((c.items.lookup id).map fun e ↦ e.absent (now + c.ttl)).filter fun e ↦ !e.expired now := by
  have hlive : id ∉ live.range fun pod ↦ some (⟨pod, 0⟩ : RawEntry) := by
    rw [← Finmap.lookup_eq_none, Finmap.lookup_range, h]
    rfl
  simp only [replace, Finmap.lookup_range]
  rw [Finmap.lookup_union_right hlive, Finmap.lookup_range]
  cases c.items.lookup id with
  | none => rfl
  | some e =>
      simp only [Option.bind_some, Option.map_some, Option.filter_some]
      cases (e.absent (now + c.ttl)).expired now <;> rfl

theorem cache_replace {live : Finmap fun _ : ℕ ↦ PodID} (h : now + c.ttl ≠ 0) :
    (c.replace now live).cache = c.cache.replace now fun id ↦ live.lookup id := by
  refine cache_eq rfl fun id ↦ ?_
  cases hl : live.lookup id with
  | some pod =>
      rw [lookup_replace_of_some hl, TtlCache.replace_of_some hl]
      rfl
  | none =>
      rw [lookup_replace_of_none hl, TtlCache.replace_of_none hl, items_cache]
      cases c.items.lookup id with
      | none => rfl
      | some e =>
          simp only [Option.map_some, Option.filter_some]
          rw [show c.cache.ttl = c.ttl from rfl, ← e.entry_absent h, RawEntry.expired_entry]
          cases (e.absent (now + c.ttl)).expired now <;> rfl

theorem cache_put {pod : PodID} : (c.put id pod).cache = c.cache.put id pod := by
  refine cache_eq rfl fun id' ↦ ?_
  by_cases hid : id' = id
  · subst hid
    rw [TtlCache.put_self, put, Finmap.lookup_insert]
    rfl
  · rw [TtlCache.put_of_ne hid, put, Finmap.lookup_insert_of_ne _ hid]
    rfl

theorem cache_tombstone (h : now + c.ttl ≠ 0) :
    (c.tombstone now id).cache = c.cache.tombstone now id := by
  refine cache_eq (by unfold tombstone; split <;> rfl) fun id' ↦ ?_
  by_cases hid : id' = id
  · subst hid
    rw [TtlCache.tombstone_self, items_cache, tombstone]
    cases he : c.items.lookup id' with
    | none =>
        dsimp only
        rw [he]
        rfl
    | some e =>
        dsimp only
        rw [Finmap.lookup_insert]
        exact congrArg some (e.entry_absent h)
  · rw [TtlCache.tombstone_of_ne hid, items_cache, tombstone]
    split
    · rfl
    · rw [Finmap.lookup_insert_of_ne _ hid]

/-- The two caches take the same calls. -/
theorem cache_after (h : x.time + c.ttl ≠ 0) : (c.after x).cache = c.cache.after x := by
  obtain ⟨time, call⟩ := x
  cases call with
  | replace live => exact cache_replace h
  | put id pod => exact cache_put
  | tombstone id => exact cache_tombstone h
  | get id => rfl

theorem run_concat : c.run (calls ++ [x]) = (c.run calls).after x := by
  rw [run, List.foldl_append]
  rfl

theorem after_ttl : (c.after x).ttl = c.ttl := by
  obtain ⟨time, call⟩ := x
  cases call with
  | replace live => rfl
  | put id pod => rfl
  | tombstone id =>
      show (c.tombstone time id).ttl = c.ttl
      unfold tombstone
      split <;> rfl
  | get id => rfl

theorem run_ttl : (c.run calls).ttl = c.ttl := by
  induction calls using List.reverseRecOn with
  | nil => rfl
  | append_singleton calls x ih => rw [run_concat, after_ttl, ih]

theorem cache_run (h : ∀ x ∈ calls, x.time + c.ttl ≠ 0) :
    (c.run calls).cache = c.cache.run calls := by
  induction calls using List.reverseRecOn with
  | nil => rfl
  | append_singleton calls x ih =>
      have hx : x.time + (c.run calls).ttl ≠ 0 := by
        rw [run_ttl]
        exact h x (by simp)
      rw [run_concat, cache_after hx, ih fun y hy ↦ h y (List.mem_append_left _ hy),
        TtlCache.run_concat]

/-- After a `replace` every entry that is kept is found. -/
theorem isSome_get_replace (c : RawCache) (now : ℤ) (live : Finmap fun _ : ℕ ↦ PodID) (id : ℕ) :
    ((c.replace now live).get now id).isSome ↔ id ∈ (c.replace now live).items.keys := by
  have hkept : ∀ e, (c.replace now live).items.lookup id = some e → e.expired now = false := by
    intro e he
    cases hl : live.lookup id with
    | some pod =>
        rw [lookup_replace_of_some hl] at he
        obtain rfl := Option.some.inj he
        rfl
    | none =>
        rw [lookup_replace_of_none hl] at he
        simpa using (Option.filter_eq_some_iff.mp he).2
  rw [Finmap.mem_keys, ← Finmap.lookup_isSome, get]
  cases he : (c.replace now live).items.lookup id with
  | none => simp
  | some e => simp [hkept e he]

/-- The cache refines its history: unless a deadline is the zero time, a name is found exactly when
the history has it, and after a `replace` there are as many entries as names that are found. -/
theorem refines_history (ttl : ℤ) (calls : List TimedCall) (t : ℤ) (hclock : Clocked calls t)
    (hzero : ∀ x ∈ calls, x.time + ttl ≠ 0) :
    (∀ id pod, ((new ttl).run calls).get t id = some pod ↔ NamedAt ttl calls t id pod) ∧
    ∀ live, ((new ttl).run (calls ++ [⟨t, .replace live⟩])).len =
      {id | (((new ttl).run (calls ++ [⟨t, .replace live⟩])).get t id).isSome}.ncard := by
  constructor
  · intro id pod
    rw [← get_cache, cache_run hzero]
    exact TtlCache.get_run_iff ttl id hclock
  · intro live
    rw [run_concat]
    show ((((new ttl).run calls).replace t live).items.keys).card = _
    rw [← Set.ncard_coe_finset]
    refine congrArg Set.ncard (Set.ext fun id ↦ ?_)
    exact (isSome_get_replace _ t live id).symm

end RawCache

/-! ## A cgroup that comes and goes -/

/-- The name of a cgroup. -/
def briefPod : PodID := ⟨"web", "a", "app", 100⟩

/-- Cgroup 1 is put, and removed at once. -/
def briefCalls (time : ℤ) : List TimedCall := [⟨time, .put 1 briefPod⟩, ⟨time, .tombstone 1⟩]

theorem briefCalls_clocked (time : ℤ) : Clocked (briefCalls time) (time + 1) := by
  simp [Clocked, briefCalls]

/-- One nanosecond later it has no name, if there is no grace period. -/
theorem not_namedAt_briefCalls (time : ℤ) : ¬ NamedAt 0 (briefCalls time) (time + 1) 1 briefPod := by
  rintro ⟨x, after, hlast, -, hgrace⟩
  have hput : LastOf (TimedCall.Binds 1) (briefCalls time) ⟨time, .put 1 briefPod⟩
      [⟨time, .tombstone 1⟩] :=
    ⟨⟨[], rfl⟩, rfl, by simp [TimedCall.Binds, CacheCall.binds]⟩
  obtain ⟨rfl, rfl⟩ := hput.unique hlast
  have hle : time + 1 ≤ time + 0 := hgrace ⟨time, .tombstone 1⟩ rfl
  omega

/-- A clock past the zero time. -/
theorem refines_briefCalls :
    ((RawCache.new 0).run (briefCalls 1)).get 2 1 = some briefPod ↔ NamedAt 0 (briefCalls 1) 2 1 briefPod :=
  (RawCache.refines_history 0 (briefCalls 1) 2 (briefCalls_clocked 1) (by simp [briefCalls])).1 1 briefPod

/-- At the zero time the deadline is taken for that of a live cgroup, and the name is kept. -/
theorem not_refines_briefCalls : ¬ ∀ (ttl : ℤ) (calls : List TimedCall) (t : ℤ), 0 ≤ ttl →
    Clocked calls t → ∀ id pod,
      ((RawCache.new ttl).run calls).get t id = some pod ↔ NamedAt ttl calls t id pod := by
  intro h
  have hget : ((RawCache.new 0).run (briefCalls 0)).get 1 1 = some briefPod := by decide
  exact not_namedAt_briefCalls 0 ((h 0 _ 1 le_rfl (briefCalls_clocked 0) 1 _).mp hget)
