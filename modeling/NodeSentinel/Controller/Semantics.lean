import NodeSentinel.Controller.Transition

/-!
# Runs of the controller

The controller as a system of concurrent calls: HTTP handlers that run `Remediate`,
the restore loop that runs `restoreDue`, and the start-up that runs `Recover`.
What else happens to the cluster and to the process (the clock, other actors, a
crash) is a `Move`.

A `Scenario` says which calls, moves and API failures a group of results is about.
Its invariants are proved transition by transition (`Scenario.inductive`); a concrete
run is given as a list of commands and executed (`Scenario.run`).
-/

open Function (update)

universe u

/-- A state of the controller and its cluster, with a call in flight in each slot. -/
abbrev State (ι : Type u) := Configuration ι Phase Act Resp World

/-! ## Calls -/

/-- The entry points of the remediator. -/
inductive Call where
  /-- A report arrives: `Remediate`. -/
  | report (s : Snapshot ℚ)
  /-- The restore loop ticks: `restoreDue`. -/
  | sweep
  /-- The process starts: `Recover`. -/
  | startup

namespace Call

/-- The program of a call. -/
def prog (r : Remediator) : Call → Ctl Unit
  | report s => remediate r s
  | sweep => restoreDue r
  | startup => recover r

/-- The phase a call starts in. -/
def phase (r : Remediator) : Call → Phase
  | report _ => .idle
  | sweep => .waking
  | startup => if r.stateNS = "" then .idle else .starting

/-- Every call follows the protocol. -/
theorem follows (r : Remediator) (call : Call) :
    (call.prog r).Follows (Phase.protocol r) (call.phase r) fun _ ψ ↦ ψ.Final := by
  cases call with
  | report s => exact remediate_follows
  | sweep => exact restoreDue_follows.mono fun _ _ h ↦ by simp [h, Phase.Final]
  | startup =>
      by_cases hns : r.stateNS = ""
      · simp [prog, phase, hns, recover, Phase.Final, Phase.Free]
      · simp only [prog, phase, if_neg hns]
        exact (recover_follows hns).mono fun _ _ h ↦ by simp [h, Phase.Final, Phase.Free]

end Call

/-! ## Moves -/

namespace World

variable (w : World)

/-- Somebody else deletes a pod. -/
def deletePod (ns name : String) : World :=
  { w with cluster := w.cluster.delete ns name, history := .replaced ns name :: w.history }

/-- Somebody else creates a pod. -/
def createPod (ns name : String) (h : IsDNSLabel ns ∧ IsDNSSubdomain name) (p : Pod) : World :=
  { w with cluster := w.cluster.create ns name h p, history := .replaced ns name :: w.history }

/-- Somebody else sets the CPU limit of a container. -/
def editLimit (ns name container : String) (q : Quantity) : World :=
  match w.cluster.pod ns name with
  | none => w
  | some p =>
      match p.container? container with
      | none => w
      | some c => { w with
          cluster := w.cluster.setCPULimit ns name container q
          history := .edited (w.limitChange ns name p c q) :: w.history }

/-- The process is killed: its memory is gone. -/
def reset : World :=
  { w with lastActed := fun _ ↦ none, throttled := ∅, persistMu := false, cancelled := false }

end World

/-- What happens without the controller doing it. -/
inductive Move (ι : Type u) where
  /-- The clock advances. -/
  | tick (t : Time)
  | delete (ns name : String)
  | create (ns name : String) (p : Pod)
  | edit (ns name container : String) (q : Quantity)
  /-- The process is killed and started again, slot `i` running `Recover`. -/
  | restart (i : ι)

variable {ι : Type u} [DecidableEq ι]

/-- The effect of a move; `none` where it is impossible. -/
def Move.apply (r : Remediator) (c : State ι) : Move ι → Option (State ι)
  | tick t =>
      if c.world.clock ≤ t then some { c with world := { c.world with clock := t } } else none
  | delete ns name => some { c with world := c.world.deletePod ns name }
  | create ns name p =>
      if h : IsDNSLabel ns ∧ IsDNSSubdomain name then
        if c.world.cluster.pod ns name = none then
          some { c with world := c.world.createPod ns name h p }
        else none
      else none
  | edit ns name container q => some { c with world := c.world.editLimit ns name container q }
  | restart i => some
      { world := c.world.reset
        phase := update (fun _ ↦ .idle) i (Call.startup.phase r)
        prog := update (fun _ ↦ .pure ⟨⟩) i (Call.startup.prog r) }

theorem Move.apply_tick {r : Remediator} {c c' : State ι} {t : Time}
    (h : (tick t : Move ι).apply r c = some c') :
    c.world.clock ≤ t ∧ c' = { c with world := { c.world with clock := t } } := by
  simp only [apply] at h
  split at h
  · exact ⟨‹_›, (Option.some.inj h).symm⟩
  · cases h

theorem Move.apply_create {r : Remediator} {c c' : State ι} {ns name : String} {p : Pod}
    (h : (create ns name p : Move ι).apply r c = some c') :
    c.world.cluster.pod ns name = none ∧
      ∃ hn, c' = { c with world := c.world.createPod ns name hn p } := by
  simp only [apply] at h
  split at h
  · next hn =>
      split at h
      · exact ⟨‹_›, hn, (Option.some.inj h).symm⟩
      · cases h
  · cases h

/-! ## Scenarios -/

/-- The runs a group of results is about: which API calls are served, which calls the
slots are given, which moves are made, and the condition on the steps. -/
structure Scenario (ι : Type u) where
  pol : Policy
  calls : ι → Call → Bool
  moves : State ι → Move ι → Bool
  guard : World → (ι → Phase) → ι → Act → Prop := fun _ _ _ _ ↦ True

namespace Scenario

variable (sc : Scenario ι) (r : Remediator)

/-- The runs of a scenario. -/
def system : System ι Phase Act Resp World where
  next := Phase.next r
  exec := Exec sc.pol
  start i p φ := ∃ call, sc.calls i call ∧ p = call.prog r ∧ φ = call.phase r
  guard := sc.guard
  env c c' := ∃ m, sc.moves c m ∧ m.apply r c = some c'

variable {sc r} {Q : Phase → Prop} {G : World → (ι → Phase) → Prop}

/-- An invariant of a scenario: it holds at the start of every call, and transitions and
moves preserve it. -/
theorem inductive_of
    (hQ : ∀ i call, sc.calls i call →
      (call.prog r).Follows (Phase.protocol r) (call.phase r) fun _ ψ ↦ Q ψ)
    (hR : ∀ c i, sc.moves c (.restart i) →
      Q .idle ∧ (Call.startup.prog r).Follows (Phase.protocol r) (Call.startup.phase r) fun _ ψ ↦ Q ψ)
    (call : ∀ {w φ i call}, G w φ → Q (φ i) → sc.calls i call → G w (update φ i (call.phase r)))
    (act : ∀ {w φ i e w' ψ}, G w φ → sc.guard w φ i e → Phase.Trans r sc.pol w (φ i) e w' ψ →
      G w' (update φ i ψ))
    (move : ∀ {c m c'}, G c.world c.phase → sc.moves c m → m.apply r c = some c' →
      G c'.world c'.phase) :
    System.Inductive (sc.system r) (Phase.protocol r) Q G where
  next_eq := rfl
  call := by
    rintro w φ i p s hG hφ ⟨cl, hcl, rfl, rfl⟩
    exact ⟨call hG hφ hcl, hQ i cl hcl⟩
  act hG ha hg hx := act hG hg (Phase.trans ha hx)
  env := by
    rintro c c' hc ⟨m, hm, h⟩
    refine ⟨move hc.global hm h, ?_⟩
    cases m with
    | tick t => obtain ⟨-, rfl⟩ := Move.apply_tick h; exact hc.follows
    | delete ns name => obtain rfl := Option.some.inj h; exact hc.follows
    | create ns name p => obtain ⟨-, -, rfl⟩ := Move.apply_create h; exact hc.follows
    | edit ns name ct q => obtain rfl := Option.some.inj h; exact hc.follows
    | restart i =>
        obtain rfl := Option.some.inj h
        obtain ⟨hidle, hrec⟩ := hR c i hm
        intro j
        by_cases hj : j = i
        · subst hj; simpa using hrec
        · simpa [hj] using hidle

/-- `inductive_of` for the phases any call may return in. -/
theorem inductive_final
    (call : ∀ {w φ i call}, G w φ → (φ i).Final → sc.calls i call →
      G w (update φ i (call.phase r)))
    (act : ∀ {w φ i e w' ψ}, G w φ → sc.guard w φ i e → Phase.Trans r sc.pol w (φ i) e w' ψ →
      G w' (update φ i ψ))
    (move : ∀ {c m c'}, G c.world c.phase → sc.moves c m → m.apply r c = some c' →
      G c'.world c'.phase) :
    System.Inductive (sc.system r) (Phase.protocol r) Phase.Final G :=
  inductive_of (fun _ call _ ↦ call.follows r) (fun _ _ _ ↦ ⟨trivial, Call.startup.follows r⟩)
    call act move

/-- What a step does to the world, in a state the invariant describes. -/
theorem step_cases {c c' : State ι} (hc : System.Invariant (Phase.protocol r) Q G c)
    (hs : (sc.system r).Step c c') :
    c'.world = c.world ∨ (∃ i e ψ, Phase.Trans r sc.pol c.world (c.phase i) e c'.world ψ) ∨
      ∃ m, sc.moves c m ∧ m.apply r c = some c' := by
  cases hs with
  | call => exact .inl rfl
  | @act i e k ans w hi hg hx =>
      have hf := hc.follows i
      rw [hi, Prog.follows_act] at hf
      exact .inr (.inl ⟨i, e, _, Phase.trans hf.1 hx⟩)
  | env h => exact .inr (.inr h)

end Scenario

/-- A state with no call in flight. -/
def World.quiet (w : World) : State ι := ⟨w, fun _ ↦ .idle, fun _ ↦ .pure ⟨⟩⟩

omit [DecidableEq ι] in
theorem World.invariant_quiet {w : World} {r : Remediator} {G : World → (ι → Phase) → Prop}
    (h : G w fun _ ↦ .idle) :
    System.Invariant (Phase.protocol r) Phase.Final G (w.quiet : State ι) :=
  ⟨h, fun _ ↦ trivial⟩

/-- A world in which nothing has happened yet. -/
def World.fresh (C : Cluster) : World where
  clock := 0
  cluster := C
  events := []
  configMap _ := none
  lastActed _ := none
  throttled := ∅
  persistMu := false
  cancelled := false
  history := []

theorem webNamed : IsDNSLabel "web" ∧ IsDNSSubdomain "a" := by decide +kernel

/-- A cluster of one pod, whose container has room below its limit. -/
def Cluster.web : Cluster :=
  Cluster.empty.create "web" "a" webNamed ⟨1, [⟨"app", some 100, some 200⟩], by decide⟩

/-- A remediator as `enableResizeRestore` sets it up. -/
def webRemediator : Remediator :=
  (newRemediator { resize := true }).enablePersistence "sentinel-system"

/-! ## Executing a run -/

/-- A step of a concrete run. -/
inductive Cmd (ι : Type u) where
  | call (i : ι) (call : Call)
  | act (i : ι) (ch : Choice)
  | move (m : Move ι)

/-- The snapshot that names CPU offenders by their labels, with full confidence. -/
def Snapshot.ofLabels (labels : List String) : Snapshot ℚ where
  nodeName := "node"
  healthy := false
  cgroupsSeen := 0
  runqWarnUs := 0
  minSamples := 0
  confidenceMin := 1 / 2
  maxConfidence := 1
  offenders := labels.map fun pod ↦ ⟨pod, 0, 0, 0, 0, 0, 1, .unattributed⟩
  victims := []
  ioMaxConfidence := 0
  ioOffenders := []
  ioVictims := []
  netMaxConfidence := 0
  netOffenders := []
  netVictims := []

/-- The report of the pod of `Cluster.web`. -/
def Call.web : Call := .report (.ofLabels ["web/a/app"])

namespace Cmd

/-- Slot `i` takes `n` actions; every API call is served. -/
def acts (i : ι) (n : ℕ) : List (Cmd ι) := List.replicate n (.act i {})

end Cmd

namespace Scenario

variable (sc : Scenario ι) (r : Remediator)

/-- Execute a command; `check` decides a condition that implies the scenario's own. -/
def step (check : World → (ι → Phase) → ι → Act → Bool) (c : State ι) :
    Cmd ι → Option (State ι)
  | .call i call =>
      if (c.prog i).isPure && sc.calls i call then
        some { c with
          phase := update c.phase i (call.phase r), prog := update c.prog i (call.prog r) }
      else none
  | .act i ch =>
      match c.prog i with
      | .pure _ => none
      | .act e k =>
          if sc.pol c.world ch.ok && check c.world c.phase i e then
            (exec ch e c.world).map fun (ans, w) ↦
              ⟨w, update c.phase i (Phase.next r (c.phase i) e ans), update c.prog i (k ans)⟩
          else none
  | .move m => if sc.moves c m then m.apply r c else none

/-- Execute the commands of a run. -/
def run (check : World → (ι → Phase) → ι → Act → Bool) : List (Cmd ι) → State ι → Option (State ι)
  | [], c => some c
  | cmd :: cmds, c => (sc.step r check c cmd).bind (run check cmds)

variable {sc r} {check : World → (ι → Phase) → ι → Act → Bool}

/-- A command is a step of the scenario. -/
theorem step_sound (hcheck : ∀ w φ i e, check w φ i e → sc.guard w φ i e) {c c' : State ι}
    {cmd : Cmd ι} (h : sc.step r check c cmd = some c') : (sc.system r).Step c c' := by
  cases cmd with
  | call i call =>
      simp only [step] at h
      split at h
      · next hc =>
          rw [Bool.and_eq_true] at hc
          obtain rfl := Option.some.inj h
          exact .call i (Prog.eq_pure_of_isPure hc.1) ⟨call, hc.2, rfl, rfl⟩
      · cases h
  | act i ch =>
      simp only [step] at h
      split at h
      · cases h
      · next e k hi =>
          split at h
          · next hc =>
              rw [Bool.and_eq_true] at hc
              obtain ⟨⟨ans, w⟩, hx, rfl⟩ := Option.map_eq_some_iff.mp h
              exact .act i hi (hcheck _ _ _ _ hc.2) ⟨ch, hc.1, hx⟩
          · cases h
  | move m =>
      simp only [step] at h
      split at h
      · exact .env ⟨m, ‹_›, h⟩
      · cases h

/-- The state a run ends in is reachable. -/
theorem run_sound (hcheck : ∀ w φ i e, check w φ i e → sc.guard w φ i e) {cmds : List (Cmd ι)}
    {c c' : State ι} (h : sc.run r check cmds c = some c') : (sc.system r).Reachable c c' := by
  induction cmds generalizing c with
  | nil => exact Option.some.inj h ▸ .refl
  | cons cmd cmds ih =>
      obtain ⟨d, hd, h⟩ := Option.bind_eq_some_iff.mp h
      exact .head (step_sound hcheck hd) (ih h)

/-- A run that can be executed, and a property its last state is seen to have. -/
theorem exists_reachable (sc : Scenario ι) (r : Remediator)
    (check : World → (ι → Phase) → ι → Act → Bool)
    (hcheck : ∀ w φ i e, check w φ i e → sc.guard w φ i e) (cmds : List (Cmd ι)) (c : State ι)
    (p : State ι → Prop) [DecidablePred p] (h : (sc.run r check cmds c).any fun c ↦ decide (p c)) :
    ∃ c', (sc.system r).Reachable c c' ∧ p c' := by
  cases hc : sc.run r check cmds c with
  | none => rw [hc] at h; cases h
  | some c' => exact ⟨c', run_sound hcheck hc, by simpa [hc] using h⟩

end Scenario
