import NodeSentinel.Controller.Action
import NodeSentinel.Report.Snapshot

/-!
# The remediator: configuration, targets and Events

The parts of `remediation.go` that every tier uses: the configuration with the
defaults of `NewRemediator`, the extraction of confident targets from a snapshot,
the cooldown, and the Event that announces every action.
-/

/-- `EventReason`. -/
def eventReason : String := "NoisyNeighborThrottled"

/-- `RemediationConfig`; a duration of 0 asks for the default. -/
structure RemediationConfig where
  dryRun : Bool := false
  cooldown : Time := 0
  resize : Bool := false
  restoreAfter : Time := 0
  namespaces : List String := []
  confidenceThreshold : ℚ := 0
deriving Repr

/-- The part of a `Remediator` that is fixed once it is set up. -/
structure Remediator where
  cfg : RemediationConfig
  /-- The namespaces to act in; `none` is every namespace. -/
  nsAllow : Option (List String)
  /-- The namespace of the ledger, `""` when persistence is off. -/
  stateNS : String
  cooldown_pos : 0 < cfg.cooldown
  restoreAfter_pos : 0 < cfg.restoreAfter

/-- One minute. -/
def minute : Time := 60 * 1000000000

/-- `NewRemediator`: fill in the defaults. -/
def newRemediator (cfg : RemediationConfig) : Remediator where
  cfg := { cfg with
    cooldown := if cfg.cooldown ≤ 0 then 5 * minute else cfg.cooldown
    restoreAfter := if cfg.restoreAfter ≤ 0 then 10 * minute else cfg.restoreAfter }
  nsAllow := if cfg.namespaces.length > 0 then some cfg.namespaces else none
  stateNS := ""
  cooldown_pos := by
    dsimp only
    split
    · decide
    · exact not_le.mp ‹_›
  restoreAfter_pos := by
    dsimp only
    split
    · decide
    · exact not_le.mp ‹_›

/-- `EnablePersistence`. -/
def Remediator.enablePersistence (r : Remediator) (ns : String) : Remediator :=
  { r with stateNS := ns }

/-- Whether remediation is enabled for a namespace. -/
def Remediator.allows (r : Remediator) (ns : String) : Bool :=
  match r.nsAllow with
  | none => true
  | some l => l.contains ns

/-! ## Targets -/

/-- One pod a snapshot named as a confident offender. -/
structure Target (K : Type*) where
  ns : String
  pod : String
  container : String
  resource : Resource
  confidence : K
deriving Repr, DecidableEq

/-- `t.namespace + "/" + t.pod`. -/
def Target.key {K : Type*} (t : Target K) : String := podKey t.ns t.pod

/-- `strings.SplitN` at one character. -/
def splitN (sep : Char) : ℕ → List Char → List (List Char)
  | 0, _ => []
  | 1, cs => [cs]
  | n + 2, cs =>
      match cs.dropWhile (· != sep) with
      | [] => [cs]
      | _ :: rest => cs.takeWhile (· != sep) :: splitN sep (n + 1) rest

/-- `splitPod`: the parts of a label `"namespace/pod/container"`. -/
def splitPod (label : String) : Option (String × String × String) :=
  match splitN '/' 3 label.toList with
  | [ns, pod, container] =>
      if ns = [] ∨ pod = [] ∨ container = [] then none
      else some (String.ofList ns, String.ofList pod, String.ofList container)
  | _ => none

section Targets

variable {K : Type*} [LinearOrder K] [Zero K]

/-- The closure `add` of `confidentTargets`. -/
def addTarget (gate : K) (resource : Resource) (pod : String) (conf : K) : Option (Target K) :=
  if conf < gate then none
  else (splitPod pod).map fun (ns, p, c) ↦ ⟨ns, p, c, resource, conf⟩

/-- `confidentTargets`: the pods a snapshot names with enough confidence, in the order
CPU, disk, network.  A positive `gate` overrides the snapshot's own. -/
def confidentTargets (s : Snapshot K) (gate : K) : List (Target K) :=
  let gate := if gate ≤ 0 then s.confidenceMin else gate
  s.offenders.filterMap (fun o ↦ addTarget gate .cpu o.pod o.confidence) ++
    s.ioOffenders.filterMap (fun o ↦ addTarget gate .disk o.pod o.confidence) ++
    s.netOffenders.filterMap (fun o ↦ addTarget gate .net o.pod o.confidence)

end Targets

/-! ## Cooldown and Events -/

/-- `isThrottled`. -/
def isThrottled (key : String) : Ctl Bool := perform (.isThrottled key)

/-- `takeCooldown`: the clock is read before the lock is taken. -/
def takeCooldown (r : Remediator) (key : String) : Ctl Bool := do
  let now ← perform .now
  perform (.takeCooldown key now r.cfg.cooldown)

/-- `clearCooldown`. -/
def clearCooldown (key : String) : Ctl Unit := perform (.clearCooldown key)

/-- `emitEvent`: look the pod up for its UID and attach an Event to it, or to its name
if it is gone. -/
def emitEvent (t : Target ℚ) (message : Message) : Ctl (Except ApiError Unit) := do
  let pod ← perform (.getPod t.ns t.pod)
  let uid := match pod with
    | .ok p => some p.uid
    | .error _ => none
  let now ← perform .now
  perform (.createEvent ⟨t.ns, t.pod, uid, eventReason, message, now⟩)
