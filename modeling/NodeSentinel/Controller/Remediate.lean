import NodeSentinel.Controller.Resize

/-!
# Acting on a snapshot

`Remediate` and `act` of `remediation.go`: every confident offender out of cooldown
is throttled where that is possible and announced by an Event otherwise.
-/

/-- `act`: the `/resize` tier first, the Event tier if it does not apply. -/
def act (r : Remediator) (t : Target ℚ) (s : Snapshot ℚ) : Ctl Unit := do
  let why : Why := ⟨t.resource, t.confidence, s.confidenceMin, s.nodeName⟩
  if r.cfg.dryRun then return ()
  let done ← if r.cfg.resize && t.resource == .cpu then throttle r t why else pure false
  if done then return ()
  match ← emitEvent t (.recommended t.key why) with
  | .error _ => clearCooldown t.key
  | .ok _ => return ()

/-- The reason that `act` gives. -/
def Target.why (t : Target ℚ) (s : Snapshot ℚ) : Why :=
  ⟨t.resource, t.confidence, s.confidenceMin, s.nodeName⟩

/-- The Event tier of `act`. -/
def eventTier (t : Target ℚ) (why : Why) : Ctl Unit := do
  match ← emitEvent t (.recommended t.key why) with
  | .error _ => clearCooldown t.key
  | .ok _ => return ()

theorem act_eq (r : Remediator) (t : Target ℚ) (s : Snapshot ℚ) : act r t s =
    if r.cfg.dryRun then pure ()
    else if r.cfg.resize && t.resource == .cpu then do
      if ← throttle r t (t.why s) then return ()
      eventTier t (t.why s)
    else eventTier t (t.why s) := by
  unfold act
  split
  · rfl
  · split
    · rfl
    · rfl

/-- The body of the loop of `Remediate`. -/
def remediateOne (r : Remediator) (s : Snapshot ℚ) (t : Target ℚ) : Ctl Unit := do
  if !r.allows t.ns then return ()
  if ← isThrottled t.key then return ()
  if !(← takeCooldown r t.key) then return ()
  act r t s

/-- `Remediate`: act on every confident offender of a snapshot that is out of
cooldown. -/
def remediate (r : Remediator) (s : Snapshot ℚ) : Ctl Unit :=
  (confidentTargets s r.cfg.confidenceThreshold).forM (remediateOne r s)
