import NodeSentinel.Controller.Summary
import NodeSentinel.Effect.System

/-!
# The view of the cluster

`controller.go`: the latest report of every node, which any number of handlers write at once, the
line that the log loop prints of them, and the snapshots that go on to the remediator.  A handler
reads the clock before it waits for the lock, and so does the log loop: what is written under the
lock may be older than what is there.

The sections under `c.mu` are atomic actions here.  What `Remediate` does is told in
`NodeSentinel.Controller.Remediate`.
-/

open Function (update)

universe u

/-- `nodeState`. -/
structure NodeState (K : Type) where
  snapshot : Snapshot K
  lastSeen : Time
deriving Repr, DecidableEq

/-- The part of a `Controller` that is fixed once it is set up. -/
structure Controller where
  staleAfter : Time
  /-- `none` is observe-only. -/
  remediator : Option Remediator

/-- `New`. -/
def newController (staleAfter : Time) : Controller := ⟨staleAfter, none⟩

/-- `WithRemediator`. -/
def Controller.withRemediator (c : Controller) (r : Remediator) : Controller :=
  { c with remediator := some r }

/-- What `logCluster` prints: the counts, and a row for every contended node. -/
structure ClusterLine (K : Type) where
  nodes : ℕ
  healthy : ℕ
  contended : ℕ
  stale : ℕ
  hot : List (String × Headline K)
deriving Repr, DecidableEq

/-- A request to `/report`, with what `Decode` makes of its body. -/
structure ReportRequest (K : Type) where
  method : String
  body : Except String (Snapshot K)

namespace Controller

variable {K : Type}

/-! ## The handlers -/

/-- The atomic actions of the handlers and of the log loop. -/
inductive Action (K : Type) where
  /-- `time.Now`. -/
  | now
  /-- The critical section of `ingest`. -/
  | setNode (name : String) (st : NodeState K)
  /-- The call of `Remediate`. -/
  | remediate (s : Snapshot K)
  /-- `logCluster`, which holds the lock from its start to its end. -/
  | logCluster (now : Time)
  /-- The critical section of `handleStatus`. -/
  | encodeNodes
  | respond (status : ℕ) (body : String)

/-- The answer to an action. -/
@[reducible] def Answer : Action K → Type
  | .now => Time
  | .setNode _ _ => Unit
  | .remediate _ => Unit
  | .logCluster _ => Unit
  | .encodeNodes => Unit
  | .respond _ _ => Unit

/-- Take one action. -/
abbrev perform (e : Action K) : Prog (Action K) Answer (Answer e) := Prog.perform e

/-- The name under which `ingest` keeps a snapshot. -/
def nodeKey (s : Snapshot K) : String := if s.nodeName = "" then "unknown" else s.nodeName

/-- `ingest`. -/
def ingest (c : Controller) (s : Snapshot K) (now : Time) : Prog (Action K) Answer Unit := do
  let name := if s.nodeName = "" then "unknown" else s.nodeName
  perform (.setNode name ⟨s, now⟩)
  if c.remediator.isSome && !s.healthy then
    perform (.remediate s)

/-- `handleReport`. -/
def handleReport (c : Controller) (r : ReportRequest K) : Prog (Action K) Answer Unit :=
  if r.method ≠ "POST" then perform (.respond 405 "POST only")
  else
    match r.body with
    | .error err => perform (.respond 400 ("bad snapshot: " ++ err))
    | .ok s => do
        let now ← perform .now
        ingest c s now
        perform (.respond 204 "")

/-- `handleStatus`. -/
def handleStatus : Prog (Action K) Answer Unit := perform .encodeNodes

/-- A tick of `LogLoop`. -/
def logTick : Prog (Action K) Answer Unit := do
  let now ← perform .now
  perform (.logCluster now)

/-! ## The cluster line -/

section Line

variable [Field K] [LinearOrder K]

/-- What a line says of a node. -/
inductive Standing (K : Type) where
  | stale
  | healthy
  | contended (detail : Headline K)
deriving Repr, DecidableEq

/-- The cases of the loop of `logCluster`. -/
def standing (c : Controller) (now : Time) (st : NodeState K) : Standing K :=
  if now - st.lastSeen > c.staleAfter then .stale
  else if st.snapshot.healthy then .healthy
  else .contended (summarize st.snapshot)

/-- The body of the loop of `logCluster`. -/
def logNode (c : Controller) (now : Time) (nodes : Finmap fun _ : String ↦ NodeState K)
    (line : ClusterLine K) (n : String) : ClusterLine K :=
  match (nodes.lookup n).map (c.standing now) with
  | none => line
  | some .stale => { line with stale := line.stale + 1 }
  | some .healthy => { line with healthy := line.healthy + 1 }
  | some (.contended detail) =>
      { line with contended := line.contended + 1, hot := line.hot ++ [(n, detail)] }

/-- `logCluster`. -/
def logCluster (c : Controller) (nodes : Finmap fun _ : String ↦ NodeState K) (now : Time) :
    ClusterLine K :=
  let names := nodes.keys.sort
  names.foldl (c.logNode now nodes) ⟨names.length, 0, 0, 0, []⟩

/-! ## The memory of the controller -/

/-- What has happened in a run, for the statements about it; no code reads it. -/
inductive Happening (K : Type) where
  | reported (name : String) (st : NodeState K)
  | remediated (s : Snapshot K)
  | logged (now : Time) (line : ClusterLine K)
  | served (nodes : Finmap fun _ : String ↦ NodeState K)
  | responded (status : ℕ) (body : String)

/-- The map under the lock, the clock, and what has happened, oldest first. -/
structure Memory (K : Type) where
  clock : Time
  nodes : Finmap fun _ : String ↦ NodeState K
  history : List (Happening K)

/-- Something has happened. -/
def Memory.add (w : Memory K) (x : Happening K) : Memory K := { w with history := w.history ++ [x] }

/-- The effect of an action. -/
def exec (c : Controller) : (e : Action K) → Memory K → Answer e × Memory K
  | .now, w => (w.clock, w)
  | .setNode name st, w =>
      ((), { w with nodes := w.nodes.insert name st }.add (.reported name st))
  | .remediate s, w => ((), w.add (.remediated s))
  | .logCluster now, w => ((), w.add (.logged now (c.logCluster w.nodes now)))
  | .encodeNodes, w => ((), w.add (.served w.nodes))
  | .respond status body, w => ((), w.add (.responded status body))

end Line

/-! ## What a handler may do -/

/-- Where a handler is. -/
inductive Stage (K : Type) where
  | idle
  /-- It has read the clock and waits for the lock. -/
  | stamped (t : Time)
  /-- It has written its snapshot, and is to hand it to the remediator. -/
  | owing (s : Snapshot K)

namespace Stage

/-- Where `ingest` is after its critical section. -/
def ingested (c : Controller) (s : Snapshot K) : Stage K :=
  if c.remediator.isSome && !s.healthy then .owing s else .idle

/-- Whether a handler may take an action. -/
def Allowed : Stage K → Action K → Prop
  | idle, .now => True
  | idle, .encodeNodes => True
  | idle, .respond _ _ => True
  | stamped t, .setNode name st => name = nodeKey st.snapshot ∧ st.lastSeen = t
  | stamped t, .logCluster now => now = t
  | owing s, .remediate s' => s' = s
  | _, _ => False

/-- Where a handler is after an action. -/
def next (c : Controller) : Stage K → (e : Action K) → Answer e → Stage K
  | _, .now, t => stamped t
  | _, .setNode _ st, _ => ingested c st.snapshot
  | _, .remediate _, _ => idle
  | _, .logCluster _, _ => idle
  | _, .encodeNodes, _ => idle
  | _, .respond _ _, _ => idle

end Stage

/-- The protocol of a handler. -/
def protocol (c : Controller) : Protocol (Action K) Answer (Stage K) where
  allowed := Stage.Allowed
  next := Stage.next c

/-- The entry points of the controller. -/
inductive Entry (K : Type) where
  | report (r : ReportRequest K)
  | status
  | tick

/-- The program of an entry point. -/
def Entry.prog (c : Controller) : Entry K → Prog (Action K) Answer Unit
  | report r => handleReport c r
  | status => handleStatus
  | tick => logTick

theorem ingest_follows {c : Controller} {s : Snapshot K} {now : Time} :
    (ingest c s now).Follows (protocol c) (.stamped now) fun _ t ↦ t = .idle := by
  refine ⟨⟨rfl, rfl⟩, fun _ ↦ ?_⟩
  change (if _ then _ else _ : Prog (Action K) Answer Unit).Follows (protocol c)
    (Stage.ingested c s) _
  unfold Stage.ingested
  split
  · exact ⟨rfl, fun _ ↦ rfl⟩
  · exact rfl

theorem Entry.follows (c : Controller) (e : Entry K) :
    (e.prog c).Follows (protocol c) .idle fun _ t ↦ t = .idle := by
  cases e with
  | report r =>
      rw [prog, handleReport]
      split_ifs with hmethod
      · exact ⟨trivial, fun _ ↦ rfl⟩
      · cases r.body with
        | error err => exact ⟨trivial, fun _ ↦ rfl⟩
        | ok s =>
            refine ⟨trivial, fun now ↦ ingest_follows.bind fun _ t ht ↦ ?_⟩
            rw [ht]
            exact ⟨trivial, fun _ ↦ rfl⟩
  | status => exact ⟨trivial, fun _ ↦ rfl⟩
  | tick => exact ⟨trivial, fun _ ↦ ⟨rfl, fun _ ↦ rfl⟩⟩

/-! ## Runs -/

section System

variable [Field K] [LinearOrder K] {ι : Type u}

/-- A state of the controller, with a handler or a tick of the log loop in each slot. -/
abbrev State (ι : Type u) (K : Type) :=
  Configuration ι (Stage K) (Action K) Answer (Memory K)

/-- The controller at its start. -/
def State.fresh (clock : Time) : State ι K := ⟨⟨clock, ∅, []⟩, fun _ ↦ .idle, fun _ ↦ .pure ⟨⟩⟩

variable [DecidableEq ι]

/-- Handlers and ticks in any number and order.  The clock moves on, but while a slot waits for the
lock with a time it has read it moves only where `pace` lets it. -/
def system (c : Controller) (pace : Time → Time → Prop) :
    System ι (Stage K) (Action K) Answer (Memory K) where
  next := Stage.next c
  exec e w r w' := c.exec e w = (r, w')
  start _ p s := (∃ e : Entry K, p = e.prog c) ∧ s = .idle
  guard _ _ _ _ := True
  env s s' := ∃ t, s.world.clock ≤ t ∧ (∀ i t₀, s.phase i = .stamped t₀ → pace t₀ t) ∧
    s' = { s with world := { s.world with clock := t } }

/-- What an action does, from the stage its slot is in. -/
inductive Trans (c : Controller) (w : Memory K) : Stage K → Memory K → Stage K → Prop
  | now : Trans c w .idle w (.stamped w.clock)
  | report (st : NodeState K) : Trans c w (.stamped st.lastSeen)
      ({ w with nodes := w.nodes.insert (nodeKey st.snapshot) st }.add
        (.reported (nodeKey st.snapshot) st)) (.ingested c st.snapshot)
  | remediate (s : Snapshot K) : Trans c w (.owing s) (w.add (.remediated s)) .idle
  | log (t : Time) : Trans c w (.stamped t) (w.add (.logged t (c.logCluster w.nodes t))) .idle
  | serve : Trans c w .idle (w.add (.served w.nodes)) .idle
  | respond (status : ℕ) (body : String) :
      Trans c w .idle (w.add (.responded status body)) .idle

theorem trans_of_exec {c : Controller} {w w' : Memory K} {s : Stage K} {e : Action K}
    {r : Answer e} (h : s.Allowed e) (hx : c.exec e w = (r, w')) :
    Trans c w s w' (s.next c e r) := by
  cases e with
  | now =>
      cases hx
      cases s with
      | idle => exact .now
      | stamped t => cases h
      | owing s => cases h
  | setNode name st =>
      cases hx
      cases s with
      | idle => cases h
      | stamped t =>
          obtain ⟨rfl, rfl⟩ := h
          exact .report st
      | owing s => cases h
  | remediate s' =>
      cases hx
      cases s with
      | idle => cases h
      | stamped t => cases h
      | owing s =>
          obtain rfl := h
          exact .remediate _
  | logCluster now =>
      cases hx
      cases s with
      | idle => cases h
      | stamped t =>
          obtain rfl := h
          exact .log _
      | owing s => cases h
  | encodeNodes =>
      cases hx
      cases s with
      | idle => exact .serve
      | stamped t => cases h
      | owing s => cases h
  | respond status body =>
      cases hx
      cases s with
      | idle => exact .respond status body
      | stamped t => cases h
      | owing s => cases h

/-- What the transitions and the clock keep holds in every run. -/
theorem invariant_run {c : Controller} {pace : Time → Time → Prop}
    {G : Memory K → (ι → Stage K) → Prop}
    (trans : ∀ {w φ i w' s}, G w φ → Trans c w (φ i) w' s → G w' (update φ i s))
    (tick : ∀ {w φ t}, G w φ → w.clock ≤ t → (∀ i t₀, φ i = .stamped t₀ → pace t₀ t) →
      G { w with clock := t } φ)
    {clock : Time} {s : State ι K} (h₀ : G ⟨clock, ∅, []⟩ fun _ ↦ .idle)
    (h : (c.system pace).Reachable (State.fresh clock) s) :
    System.Invariant (protocol c) (fun t ↦ t = .idle) G s := by
  have hfresh : System.Invariant (protocol c) (fun t ↦ t = .idle) G
      (State.fresh clock : State ι K) :=
    ⟨h₀, fun _ ↦ rfl⟩
  refine System.Invariant.reachable (S := c.system pace) ⟨rfl, ?_, ?_, ?_⟩ hfresh h
  · rintro w φ i p s hG hi ⟨⟨e, rfl⟩, rfl⟩
    refine ⟨?_, e.follows c⟩
    rwa [← hi, Function.update_eq_self]
  · intro w φ i e r w' hG hallowed _ hx
    exact trans hG (trans_of_exec hallowed hx)
  · rintro s s' hinv ⟨t, hclock, hpace, rfl⟩
    exact ⟨tick hinv.global hclock hpace, hinv.follows⟩

/-! ## Executing a run -/

/-- A step of a concrete run. -/
inductive Cmd (ι : Type u) (K : Type) where
  | call (i : ι) (e : Entry K)
  | act (i : ι)
  | tick (t : Time)

/-- Execute a command; nothing waits for the lock while the clock moves on. -/
def State.step [Fintype ι] (c : Controller) (s : State ι K) : Cmd ι K → Option (State ι K)
  | .call i e =>
      if (s.prog i).isPure then
        some { s with phase := update s.phase i .idle, prog := update s.prog i (e.prog c) }
      else none
  | .act i =>
      match s.prog i with
      | .pure _ => none
      | .act e k =>
          let x := c.exec e s.world
          some ⟨x.2, update s.phase i ((s.phase i).next c e x.1), update s.prog i (k x.1)⟩
  | .tick t =>
      if s.world.clock ≤ t ∧ ∀ i, (s.prog i).isPure then
        some { s with world := { s.world with clock := t } }
      else none

/-- A command is a step, from a state that a run leads to. -/
theorem State.step_sound [Fintype ι] {c : Controller} {pace : Time → Time → Prop}
    {s s' : State ι K} {cmd : Cmd ι K}
    (hidle : ∀ i, s.prog i = .pure ⟨⟩ → s.phase i = .idle)
    (h : s.step c cmd = some s') : (c.system pace).Step s s' := by
  cases cmd with
  | call i e =>
      rw [step] at h
      split_ifs at h with hi
      obtain rfl := Option.some.inj h
      exact .call i (Prog.eq_pure_of_isPure hi) ⟨⟨e, rfl⟩, rfl⟩
  | act i =>
      rw [step] at h
      split at h
      · cases h
      · next e k hi =>
          obtain rfl := Option.some.inj h
          exact .act i hi trivial rfl
  | tick t =>
      rw [step] at h
      split_ifs at h with ht
      obtain rfl := Option.some.inj h
      refine .env ⟨t, ht.1, fun i t₀ hi ↦ ?_, rfl⟩
      rw [hidle i (Prog.eq_pure_of_isPure (ht.2 i))] at hi
      cases hi

/-- The state a run ends in is reachable. -/
theorem reachable_of_foldlM [Fintype ι] {c : Controller} {pace : Time → Time → Prop} {clock : Time}
    {cmds : List (Cmd ι K)} {s s' : State ι K}
    (hs : (c.system pace).Reachable (State.fresh clock) s)
    (h : cmds.foldlM (State.step c) s = some s') :
    (c.system pace).Reachable (State.fresh clock) s' := by
  induction cmds generalizing s with
  | nil => exact Option.some.inj h ▸ hs
  | cons cmd cmds ih =>
      rw [List.foldlM_cons] at h
      obtain ⟨s₁, hs₁, h⟩ := Option.bind_eq_some_iff.mp h
      refine ih (hs.tail (State.step_sound (fun i hi ↦ ?_) hs₁)) h
      have hinv := invariant_run (G := fun _ _ ↦ True) (fun _ _ ↦ trivial) (fun _ _ _ ↦ trivial)
        trivial hs
      have hfollows := hinv.follows i
      rwa [hi] at hfollows

end System

end Controller
