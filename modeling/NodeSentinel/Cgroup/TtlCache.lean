import NodeSentinel.Agent.Resolver

/-!
# The name cache

`ttlcache.go`: the pod identities of the cgroups on the node.  An entry is live, or counts
down from the moment its cgroup went absent; a refresh revives what it has seen and lets
everything else count down.  Times are in nanoseconds.
-/

/-- `ttlEntry`: no `expiry` while the cgroup is live, then the end of its grace period. -/
structure TtlEntry where
  pod : PodID
  expiry : Option ℤ
deriving Repr, DecidableEq

namespace TtlEntry

/-- `!e.expiry.IsZero() && now.After(e.expiry)`. -/
def expired (e : TtlEntry) (now : ℤ) : Bool :=
  match e.expiry with
  | none => false
  | some t => t < now

/-- The entry of a cgroup that is found absent: an entry that is already counting down keeps
its deadline. -/
def absent (e : TtlEntry) (deadline : ℤ) : TtlEntry :=
  match e.expiry with
  | none => { e with expiry := some deadline }
  | some _ => e

/-- An entry that is found absent counts down, and not for longer than the TTL. -/
theorem absent_expiry {e : TtlEntry} {deadline : ℤ}
    (h : ∀ u, e.expiry = some u → u ≤ deadline) : ∃ u, (e.absent deadline).expiry = some u ∧ u ≤ deadline := by
  unfold absent
  cases he : e.expiry with
  | none => exact ⟨deadline, rfl, le_rfl⟩
  | some u => exact ⟨u, he, h u he⟩

end TtlEntry

/-- `ttlCache`. -/
structure TtlCache where
  ttl : ℤ
  items : ℕ → Option TtlEntry

/-- `newTTLCache`. -/
def newTTLCache (ttl : ℤ) : TtlCache := ⟨ttl, fun _ ↦ none⟩

namespace TtlCache

variable (c : TtlCache)

/-- `get`: the pod of a cgroup that is live or within its grace period. -/
def get (now : ℤ) (id : ℕ) : Option PodID :=
  match c.items id with
  | none => none
  | some e => if e.expired now then none else some e.pod

/-- `replace`: merge a scan of the cgroups that were live. -/
def replace (now : ℤ) (live : ℕ → Option PodID) : TtlCache :=
  -- the three loops, of which each treats the entries one by one
  let counting id := (c.items id).map fun e ↦ e.absent (now + c.ttl)
  let revived id : Option TtlEntry := match live id with
    | some pod => some ⟨pod, none⟩
    | none => counting id
  { c with items := fun id ↦ (revived id).filter fun e ↦ !e.expired now }

/-- `put`: a cgroup is live. -/
def put (id : ℕ) (pod : PodID) : TtlCache :=
  { c with items := Function.update c.items id (some ⟨pod, none⟩) }

/-- `tombstone`: a cgroup is absent. -/
def tombstone (now : ℤ) (id : ℕ) : TtlCache :=
  let e := (c.items id).map fun e ↦ e.absent (now + c.ttl)
  { c with items := Function.update c.items id e }

/-! ## One entry -/

variable {c} {now : ℤ} {id : ℕ}

@[simp] theorem replace_ttl (live : ℕ → Option PodID) : (c.replace now live).ttl = c.ttl := rfl

@[simp] theorem put_ttl (pod : PodID) : (c.put id pod).ttl = c.ttl := rfl

@[simp] theorem tombstone_ttl : (c.tombstone now id).ttl = c.ttl := rfl

@[simp] theorem put_self (pod : PodID) : (c.put id pod).items id = some ⟨pod, none⟩ :=
  Function.update_self ..

theorem put_of_ne {id' : ℕ} (h : id' ≠ id) (pod : PodID) :
    (c.put id pod).items id' = c.items id' := Function.update_of_ne h ..

@[simp] theorem tombstone_self : (c.tombstone now id).items id =
    (c.items id).map fun e ↦ e.absent (now + c.ttl) := Function.update_self ..

theorem tombstone_of_ne {id' : ℕ} (h : id' ≠ id) :
    (c.tombstone now id).items id' = c.items id' := Function.update_of_ne h ..

theorem replace_of_some {live : ℕ → Option PodID} {pod : PodID} (h : live id = some pod) :
    (c.replace now live).items id = some ⟨pod, none⟩ := by
  simp [replace, h, TtlEntry.expired]

theorem replace_of_none {live : ℕ → Option PodID} (h : live id = none) :
    (c.replace now live).items id =
      ((c.items id).map fun e ↦ e.absent (now + c.ttl)).filter fun e ↦ !e.expired now := by
  simp [replace, h]

/-- A live entry resolves, and so does one before its deadline. -/
theorem get_of_le {pod : PodID} {expiry : Option ℤ} (h : c.items id = some ⟨pod, expiry⟩)
    (hle : ∀ t, expiry = some t → now ≤ t) : c.get now id = some pod := by
  cases expiry with
  | none => simp [get, h, TtlEntry.expired]
  | some t => simp [get, h, TtlEntry.expired, hle t rfl]

theorem get_of_lt (h : ∀ e, c.items id = some e → ∃ t, e.expiry = some t ∧ t < now) :
    c.get now id = none := by
  cases he : c.items id with
  | none => simp [get, he]
  | some e =>
      obtain ⟨t, ht, hlt⟩ := h e he
      simp [get, he, TtlEntry.expired, ht, hlt]

end TtlCache
