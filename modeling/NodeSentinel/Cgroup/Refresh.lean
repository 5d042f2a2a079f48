import NodeSentinel.Cgroup.TtlCache

/-!
# Refreshing the names

`resolver.go` against the node: a refresh lists the containers at one moment and replaces the
cache at a later one, while containers are put and tombstoned as they come and go.  A
container that came in between is missing from the picture and counts down although it is
live, and one that went is revived.
-/

/-- The resolver and what has happened on the node. -/
structure Naming where
  clock : ℤ
  cache : TtlCache
  /-- The picture of the refresh under way; `refreshMu` lets in one at a time. -/
  picture : Option (ℕ → Option PodID)
  /-- The containers whose cgroup was put and has not been removed. -/
  live : ℕ → Option PodID
  /-- When a cgroup was removed. -/
  removed : ℕ → Option ℤ
  /-- When a live container first missed a picture since it was last put or in one. -/
  missed : ℕ → Option ℤ

namespace Naming

/-- What happens. -/
inductive Act where
  | tick (d : ℕ)
  /-- A `cgroup_mkdir` event whose container the runtime knows. -/
  | mkdir (id : ℕ) (pod : PodID)
  /-- A `cgroup_rmdir` event. -/
  | rmdir (id : ℕ)
  /-- `scanCgroups` and `ListContainers`. -/
  | scan (picture : ℕ → Option PodID)
  /-- A refresh that gives up. -/
  | fail
  /-- `cache.replace`. -/
  | replace

/-- A resolver that has listed nothing yet. -/
def init (ttl clock : ℤ) : Naming where
  clock := clock
  cache := newTTLCache ttl
  picture := none
  live _ := none
  removed _ := none
  missed _ := none

variable (s : Naming)

/-- `Resolve`. -/
def resolve (id : ℕ) : Option PodID := s.cache.get s.clock id

/-- When a container first missed a picture, after a replace with `p`. -/
def missedAfter (p : ℕ → Option PodID) (id : ℕ) : Option ℤ :=
  match s.live id, p id with
  | some _, none => some ((s.missed id).getD s.clock)
  | _, _ => none

/-- One step; `none` where it is not its turn. -/
def step : Act → Option Naming
  | .tick d => some { s with clock := s.clock + d }
  | .mkdir id pod => some { s with
      cache := s.cache.put id pod
      live := Function.update s.live id (some pod)
      removed := Function.update s.removed id none
      missed := Function.update s.missed id none }
  | .rmdir id => some { s with
      cache := s.cache.tombstone s.clock id
      live := Function.update s.live id none
      removed := Function.update s.removed id (some s.clock)
      missed := Function.update s.missed id none }
  | .scan p =>
      match s.picture with
      | none => some { s with picture := some p }
      | some _ => none
  | .fail => some { s with picture := none }
  | .replace =>
      match s.picture with
      | none => none
      | some p => some { s with
          cache := s.cache.replace s.clock p
          picture := none
          missed := s.missedAfter p }

/-- A scan sees the containers as they are. -/
def Sees : Act → Prop
  | .scan p => (∀ id pod, s.live id = some pod → p id = some pod) ∧
      ∀ id t, s.removed id = some t → p id = none
  | _ => True

/-- The step does no harm: no container in an applied picture was removed since its scan, and
a container that came since the scan is put, or in a picture that is applied, before it has
missed them for as long as the TTL. -/
def Timely : Act → Prop
  | .tick d => ∀ id t, s.missed id = some t → s.clock + d ≤ t + s.cache.ttl
  | .replace => ∀ p, s.picture = some p →
      (∀ id pod, p id = some pod → s.removed id = none ∧ ∀ pod', s.live id = some pod' → pod' = pod) ∧
      ∀ id t, s.missedAfter p id = some t → s.clock ≤ t + s.cache.ttl
  | _ => True

/-- A step of a run. -/
def Step (s s' : Naming) : Prop := ∃ a, s.Sees a ∧ s.step a = some s'

/-- A timely step. -/
def TimelyStep (s s' : Naming) : Prop := ∃ a, s.Sees a ∧ s.Timely a ∧ s.step a = some s'

/-- A live container has its name, and a removed one loses it within the TTL. -/
structure Named : Prop where
  live : ∀ {id pod}, s.live id = some pod → s.resolve id = some pod
  removed : ∀ {id t}, s.removed id = some t → t + s.cache.ttl < s.clock → s.resolve id = none

/-! ## What the cache knows of a container -/

/-- The entries of the containers: a live one counts down only from when it missed a picture,
and a removed one counts down from its removal at the latest. -/
structure Kept : Prop where
  live : ∀ {id pod}, s.live id = some pod →
    s.cache.items id = some ⟨pod, (s.missed id).map (· + s.cache.ttl)⟩
  missed : ∀ {id t}, s.missed id = some t → (s.live id).isSome ∧ s.clock ≤ t + s.cache.ttl
  removed : ∀ {id t}, s.removed id = some t → s.live id = none ∧
    ∀ e, s.cache.items id = some e → ∃ u, e.expiry = some u ∧ u ≤ t + s.cache.ttl
  counting : ∀ {id e u}, s.cache.items id = some e → e.expiry = some u → u ≤ s.clock + s.cache.ttl

variable {s}

theorem Kept.named (h : s.Kept) : s.Named where
  live {id pod} hl := by
    refine TtlCache.get_of_le (h.live hl) fun u hu ↦ ?_
    obtain ⟨t, ht, rfl⟩ := Option.map_eq_some_iff.mp hu
    exact (h.missed ht).2
  removed {id t} hr hlt := by
    refine TtlCache.get_of_lt fun e he ↦ ?_
    obtain ⟨u, hu, hle⟩ := (h.removed hr).2 e he
    exact ⟨u, hu, hle.trans_lt hlt⟩

theorem Kept.tick (h : s.Kept) {d : ℕ} (ht : s.Timely (.tick d)) :
    ({ s with clock := s.clock + d } : Naming).Kept where
  live := h.live
  missed hm := ⟨(h.missed hm).1, ht _ _ hm⟩
  removed := h.removed
  counting he hu := by
    have := h.counting he hu
    dsimp only
    omega

theorem Kept.mkdir (h : s.Kept) (id : ℕ) (pod : PodID) : ({ s with
    cache := s.cache.put id pod
    live := Function.update s.live id (some pod)
    removed := Function.update s.removed id none
    missed := Function.update s.missed id none } : Naming).Kept := by
  constructor
  · intro id' pod' hl
    by_cases hid : id' = id
    · subst hid
      simp only [Function.update_self, Option.some.injEq] at hl
      simp [hl]
    · simp only [Function.update_of_ne hid] at hl
      simpa [Function.update_of_ne hid, TtlCache.put_of_ne hid] using h.live hl
  · intro id' t hm
    by_cases hid : id' = id
    · simp [hid] at hm
    · simp only [Function.update_of_ne hid] at hm
      simpa [Function.update_of_ne hid] using h.missed hm
  · intro id' t hr
    by_cases hid : id' = id
    · simp [hid] at hr
    · simp only [Function.update_of_ne hid] at hr
      simpa [Function.update_of_ne hid, TtlCache.put_of_ne hid] using h.removed hr
  · intro id' e u he hu
    by_cases hid : id' = id
    · subst hid
      simp only [TtlCache.put_self, Option.some.injEq] at he
      subst he
      cases hu
    · simp only [TtlCache.put_of_ne hid] at he
      exact h.counting he hu

theorem Kept.rmdir (h : s.Kept) (id : ℕ) : ({ s with
    cache := s.cache.tombstone s.clock id
    live := Function.update s.live id none
    removed := Function.update s.removed id (some s.clock)
    missed := Function.update s.missed id none } : Naming).Kept := by
  -- the entry of the container, if there is one
  have hself : ∀ e, (s.cache.tombstone s.clock id).items id = some e →
      ∃ u, e.expiry = some u ∧ u ≤ s.clock + s.cache.ttl := by
    intro e he
    rw [TtlCache.tombstone_self] at he
    obtain ⟨e, he', rfl⟩ := Option.map_eq_some_iff.mp he
    exact TtlEntry.absent_expiry fun u hu ↦ h.counting he' hu
  constructor
  · intro id' pod' hl
    by_cases hid : id' = id
    · simp [hid] at hl
    · simp only [Function.update_of_ne hid] at hl
      simpa [Function.update_of_ne hid, TtlCache.tombstone_of_ne hid] using h.live hl
  · intro id' t hm
    by_cases hid : id' = id
    · simp [hid] at hm
    · simp only [Function.update_of_ne hid] at hm
      simpa [Function.update_of_ne hid] using h.missed hm
  · intro id' t hr
    by_cases hid : id' = id
    · subst hid
      simp only [Function.update_self, Option.some.injEq] at hr
      subst hr
      exact ⟨by simp, hself⟩
    · simp only [Function.update_of_ne hid] at hr
      simpa [Function.update_of_ne hid, TtlCache.tombstone_of_ne hid] using h.removed hr
  · intro id' e u he hu
    by_cases hid : id' = id
    · subst hid
      obtain ⟨u', hu', hle⟩ := hself e he
      rw [hu] at hu'
      cases hu'
      exact hle
    · simp only [TtlCache.tombstone_of_ne hid] at he
      exact h.counting he hu

theorem Kept.replace (h : s.Kept) {p : ℕ → Option PodID} (hp : s.picture = some p)
    (ht : s.Timely .replace) : ({ s with
      cache := s.cache.replace s.clock p
      picture := none
      missed := s.missedAfter p } : Naming).Kept := by
  obtain ⟨hseen, hlate⟩ := ht p hp
  constructor
  · intro id pod hl
    dsimp only at hl ⊢
    cases hpid : p id with
    | some pod' =>
        obtain rfl := (hseen id pod' hpid).2 pod hl
        rw [TtlCache.replace_of_some hpid]
        simp [missedAfter, hl, hpid]
    | none =>
        have hle : s.clock ≤ (s.missed id).getD s.clock + s.cache.ttl :=
          hlate id _ (by simp [missedAfter, hl, hpid])
        rw [TtlCache.replace_of_none hpid, h.live hl]
        cases hm : s.missed id with
        | none => simp_all [missedAfter, TtlEntry.absent, TtlEntry.expired]
        | some t => simp_all [missedAfter, TtlEntry.absent, TtlEntry.expired]
  · intro id t hm
    refine ⟨?_, hlate id t hm⟩
    dsimp only [missedAfter] at hm
    split at hm
    · next hl _ => simp [hl]
    · cases hm
  · intro id t hr
    obtain ⟨hl, he⟩ := h.removed hr
    refine ⟨hl, fun e he' ↦ ?_⟩
    cases hpid : p id with
    | some pod' =>
        rw [(hseen id pod' hpid).1] at hr
        cases hr
    | none =>
        dsimp only at he'
        rw [TtlCache.replace_of_none hpid] at he'
        obtain ⟨he', -⟩ := Option.filter_eq_some_iff.mp he'
        obtain ⟨e, hitem, rfl⟩ := Option.map_eq_some_iff.mp he'
        obtain ⟨u, hu, hle⟩ := he e hitem
        exact ⟨u, by simp [TtlEntry.absent, hu], hle⟩
  · intro id e u he hu
    dsimp only at he ⊢
    cases hpid : p id with
    | some pod' =>
        rw [TtlCache.replace_of_some hpid] at he
        cases he
        cases hu
    | none =>
        rw [TtlCache.replace_of_none hpid] at he
        obtain ⟨he, -⟩ := Option.filter_eq_some_iff.mp he
        obtain ⟨e, hitem, rfl⟩ := Option.map_eq_some_iff.mp he
        obtain ⟨u', hu', hle⟩ := TtlEntry.absent_expiry fun u hu ↦ h.counting hitem hu
        rw [hu] at hu'
        cases hu'
        exact hle

theorem Kept.step (h : s.Kept) {a : Act} (ht : s.Timely a) {s' : Naming} (hs : s.step a = some s') :
    s'.Kept := by
  cases a with
  | tick d =>
      obtain rfl := Option.some.inj hs
      exact h.tick ht
  | mkdir id pod =>
      obtain rfl := Option.some.inj hs
      exact h.mkdir id pod
  | rmdir id =>
      obtain rfl := Option.some.inj hs
      exact h.rmdir id
  | scan p =>
      simp only [Naming.step] at hs
      split at hs
      · obtain rfl := Option.some.inj hs
        exact ⟨h.live, h.missed, h.removed, h.counting⟩
      · cases hs
  | fail =>
      obtain rfl := Option.some.inj hs
      exact ⟨h.live, h.missed, h.removed, h.counting⟩
  | replace =>
      simp only [Naming.step] at hs
      split at hs
      · cases hs
      · next p hp =>
          obtain rfl := Option.some.inj hs
          exact h.replace hp ht

theorem Kept.init (ttl clock : ℤ) : (init ttl clock).Kept :=
  ⟨nofun, nofun, nofun, nofun⟩

/-- In every run of timely steps a live container has its name at every instant, and a removed
one loses it within the TTL. -/
theorem timelyRun_named {ttl clock : ℤ} (h : Relation.ReflTransGen TimelyStep (init ttl clock) s) :
    s.Named := by
  have hkept : s.Kept := by
    induction h with
    | refl => exact Kept.init ttl clock
    | tail _ hstep ih =>
        obtain ⟨a, -, ht, hs⟩ := hstep
        exact ih.step ht hs
  exact hkept.named

/-! ## A container that comes or goes during a refresh -/

/-- A second. -/
def second : ℕ := 1000000000

/-- A container. -/
def webApp : PodID := ⟨"web", "a", "app", 100⟩

/-- A picture with one container. -/
def onlyWeb (id : ℕ) : Option PodID := if id = 1 then some webApp else none

/-- A refresh misses a container that comes during it, and the next one, in time, does not; the
container keeps its name until it goes. -/
theorem missedOnce_named : ∃ s s' : Naming, s.live 1 = some webApp ∧ s.clock = 120 * second ∧
    s.resolve 1 = some webApp ∧ s'.removed 1 = some (120 * second) ∧ s'.clock = 151 * second ∧
    s'.resolve 1 = none := by
  have h₁ : Relation.ReflTransGen TimelyStep (init (30 * second) 0) _ :=
    .single ⟨.scan fun _ ↦ none, ⟨by simp [init], by simp [init]⟩, trivial, rfl⟩
  have h₂ := h₁.tail ⟨.mkdir 1 webApp, trivial, trivial, rfl⟩
  have h₃ := h₂.tail ⟨.replace, trivial, by
    rintro p ⟨⟩
    refine ⟨by simp, fun id t hm ↦ ?_⟩
    by_cases hid : id = 1
    · subst hid
      simp [missedAfter, init] at hm
      subst hm
      simp [init, newTTLCache, second]
    · simp [missedAfter, init, hid] at hm, rfl⟩
  have h₄ := h₃.tail ⟨.tick (20 * second), trivial, by
    intro id t hm
    by_cases hid : id = 1
    · subst hid
      simp [missedAfter, init] at hm
      subst hm
      simp [init, newTTLCache, second]
    · simp [missedAfter, init, hid] at hm, rfl⟩
  have h₅ := h₄.tail ⟨.scan onlyWeb, ⟨by
    intro id pod hl
    by_cases hid : id = 1
    · subst hid
      simpa [init, onlyWeb] using hl
    · simp [init, hid] at hl, by
    intro id t hr
    by_cases hid : id = 1 <;> simp [init, hid] at hr⟩, trivial, rfl⟩
  have h₆ := h₅.tail ⟨.replace, trivial, by
    rintro p ⟨⟩
    refine ⟨fun id pod hp ↦ ?_, fun id t hm ↦ ?_⟩
    · by_cases hid : id = 1
      · subst hid
        simp [onlyWeb] at hp
        simp [init, hp]
      · simp [onlyWeb, hid] at hp
    · by_cases hid : id = 1
      · simp [missedAfter, hid, onlyWeb] at hm
      · simp [missedAfter, hid, init] at hm, rfl⟩
  have h₇ := h₆.tail ⟨.tick (100 * second), trivial, by
    intro id t hm
    by_cases hid : id = 1
    · simp [missedAfter, hid, onlyWeb] at hm
    · simp [missedAfter, hid, init] at hm, rfl⟩
  have h₈ := h₇.tail ⟨.rmdir 1, trivial, trivial, rfl⟩
  have h₉ := h₈.tail ⟨.tick (31 * second), trivial, by
    intro id t hm
    by_cases hid : id = 1
    · simp [hid] at hm
    · simp [missedAfter, hid, init] at hm, rfl⟩
  refine ⟨_, _, rfl, by simp [init, second], (timelyRun_named h₇).live rfl, by simp [init, second],
    by simp [init, second], (timelyRun_named h₉).removed rfl ?_⟩
  simp [init, newTTLCache, second]

/-- A container that comes during a refresh loses its name while it lives, and one that goes
during a refresh keeps it after the TTL. -/
theorem lateRefresh_not_named :
    (∃ s, Relation.ReflTransGen Step (init (30 * second) 0) s ∧
      s.live 1 = some webApp ∧ s.resolve 1 = none) ∧
    ∃ s, Relation.ReflTransGen Step (init (30 * second) 0) s ∧
      s.removed 1 = some 0 ∧ s.clock = 60 * second ∧ s.resolve 1 = some webApp := by
  constructor
  · -- it comes after the scan, and the next refresh is a minute away
    have h₁ : Relation.ReflTransGen Step (init (30 * second) 0) _ :=
      .single ⟨.scan fun _ ↦ none, ⟨by simp [init], by simp [init]⟩, rfl⟩
    have h₂ := h₁.tail ⟨.mkdir 1 webApp, trivial, rfl⟩
    have h₃ := h₂.tail ⟨.replace, trivial, rfl⟩
    have h₄ := h₃.tail ⟨.tick (31 * second), trivial, rfl⟩
    exact ⟨_, h₄, rfl, by rfl⟩
  · -- it goes after the scan, and the replace revives it
    have h₁ : Relation.ReflTransGen Step (init (30 * second) 0) _ :=
      .single ⟨.mkdir 1 webApp, trivial, rfl⟩
    have h₂ := h₁.tail ⟨.scan onlyWeb, ⟨by
      intro id pod hl
      by_cases hid : id = 1
      · subst hid
        simpa [init, onlyWeb] using hl
      · simp [init, hid] at hl, by
      intro id t hr
      by_cases hid : id = 1 <;> simp [init, hid] at hr⟩, rfl⟩
    have h₃ := h₂.tail ⟨.rmdir 1, trivial, rfl⟩
    have h₄ := h₃.tail ⟨.replace, trivial, rfl⟩
    have h₅ := h₄.tail ⟨.tick (60 * second), trivial, rfl⟩
    exact ⟨_, h₅, rfl, by simp [init, second], rfl⟩

end Naming
