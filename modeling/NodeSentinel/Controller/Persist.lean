import NodeSentinel.Controller.Remediator

/-!
# The durable throttle ledger

`persist.go`: active throttles are written to a ConfigMap in the controller's own
namespace and read back at start-up.  Read-modify-write of the ConfigMap is
serialised by `persistMu`.
-/

/-- `cmKey`: the data key of a pod, its `"/"` replaced by `"_"`. -/
def cmKey (key : String) : String := key.map fun c ↦ if c = '/' then '_' else c

/-- The persisted form of a record. -/
def ThrottleState.persisted (st : ThrottleState) : PersistedThrottle :=
  ⟨st.ns, st.pod, st.container, st.originalCPULimit, st.restoreAt⟩

/-- The text `persist` stores for a record. -/
def ThrottleState.raw (st : ThrottleState) : Raw := .marshal st.persisted

/-- `stateConfigMap`: fetch the ledger, creating an empty one if absent. -/
def stateConfigMap (r : Remediator) : Ctl (Except ApiError ConfigMap) := do
  match ← perform (.getConfigMap r.stateNS) with
  | .ok cm => return .ok cm
  | .error .notFound =>
      match ← perform (.createConfigMap r.stateNS) with
      | .error .alreadyExists => perform (.getConfigMap r.stateNS)
      | created => return created
  | .error err => return .error err

/-- `persist`: record a throttle in the ledger, best effort. -/
def persist (r : Remediator) (key : String) (st : ThrottleState) : Ctl Unit :=
  if r.stateNS = "" then return () else do
    perform .lockPersist
    match ← stateConfigMap r with
    | .error _ => perform .unlockPersist
    | .ok cm =>
        let _ ← perform (.updateConfigMap r.stateNS ⟨cm.data.insert (cmKey key) st.raw⟩)
        perform .unlockPersist

/-- `forget`: remove a throttle from the ledger after it is restored. -/
def forget (r : Remediator) (key : String) : Ctl Unit :=
  if r.stateNS = "" then return () else do
    perform .lockPersist
    match ← stateConfigMap r with
    | .error _ => perform .unlockPersist
    | .ok cm =>
        if cmKey key ∉ cm.data then perform .unlockPersist
        else
          let _ ← perform (.updateConfigMap r.stateNS ⟨cm.data.erase (cmKey key)⟩)
          perform .unlockPersist

/-- `Recover`: load the throttles a previous controller persisted. -/
def recover (r : Remediator) : Ctl Unit :=
  if r.stateNS = "" then return () else do
    match ← perform (.getConfigMap r.stateNS) with
    | .error _ => return ()
    | .ok cm => perform (.recoverThrottled cm)

/-! ## What touches the ledger -/

/-- The actions of a read-modify-write of the ledger. -/
def Act.OnLedger : Act → Prop
  | .getConfigMap _ | .createConfigMap _ | .updateConfigMap _ _ | .lockPersist | .unlockPersist => True
  | _ => False

section Issues

variable {r : Remediator} {key : String} {st : ThrottleState}

theorem stateConfigMap_issues : (stateConfigMap r).Issues Act.OnLedger := by
  refine ⟨trivial, fun ans ↦ ?_⟩
  rcases ans with (_ | _ | _) | cm
  · refine ⟨trivial, fun ans ↦ ?_⟩
    rcases ans with (_ | _ | _) | cm
    · trivial
    · exact ⟨trivial, fun _ ↦ trivial⟩
    · trivial
    · trivial
  · trivial
  · trivial
  · trivial

theorem persist_issues : (persist r key st).Issues Act.OnLedger := by
  unfold persist
  split
  · trivial
  · refine ⟨trivial, fun _ ↦ stateConfigMap_issues.bind fun ans ↦ ?_⟩
    cases ans with
    | error err => exact ⟨trivial, fun _ ↦ trivial⟩
    | ok cm => exact ⟨trivial, fun _ ↦ ⟨trivial, fun _ ↦ trivial⟩⟩

theorem forget_issues : (forget r key).Issues Act.OnLedger := by
  unfold forget
  split
  · trivial
  · refine ⟨trivial, fun _ ↦ stateConfigMap_issues.bind fun ans ↦ ?_⟩
    cases ans with
    | error err => exact ⟨trivial, fun _ ↦ trivial⟩
    | ok cm =>
        dsimp only
        split
        · exact ⟨trivial, fun _ ↦ trivial⟩
        · exact ⟨trivial, fun _ ↦ ⟨trivial, fun _ ↦ trivial⟩⟩

end Issues
