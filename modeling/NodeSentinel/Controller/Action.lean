import NodeSentinel.Controller.Cluster
import NodeSentinel.Effect.System

/-!
# The actions of the controller and their effect

Everything the remediator does to the outside is one of the actions below: a call
to the API server, a reading of the clock, or a critical section on `r.mu`.  The
critical sections under `persistMu` contain API calls, so they are not actions of
their own; locking and unlocking are.

`exec` gives the effect of an action on the world.  What the code does not decide
is in a `Choice`: whether an API call succeeds, and the order in which Go's `range`
visits a map.
-/

/-- `ns + "/" + pod`, the key of a pod in the remediator's maps. -/
def podKey (ns pod : String) : String := ns ++ "/" ++ pod

/-- `st.namespace + "/" + st.pod`. -/
def ThrottleState.key (st : ThrottleState) : String := podKey st.ns st.pod

/-- The two callers of `patchCPULimit`. -/
inductive PatchSite where
  | throttle
  | restore (st : ThrottleState)
deriving Repr, DecidableEq

/-- The atomic actions of the remediator. -/
inductive Act where
  | getPod (ns name : String)
  | patchCPULimit (site : PatchSite) (ns pod container : String) (cpu : CPUText)
  | createEvent (ev : Event)
  | getConfigMap (ns : String)
  | createConfigMap (ns : String)
  | updateConfigMap (ns : String) (cm : ConfigMap)
  | now
  | isThrottled (key : String)
  | takeCooldown (key : String) (now cooldown : Time)
  | clearCooldown (key : String)
  | setThrottled (key : String) (st : ThrottleState)
  | deleteThrottled (key : String)
  | dueThrottles (now : Time)
  | recoverThrottled (cm : ConfigMap)
  | lockPersist
  | unlockPersist

/-- The answer to an action. -/
@[reducible] def Resp : Act → Type
  | .getPod _ _ => Except ApiError Pod
  | .patchCPULimit _ _ _ _ _ => Except ApiError Unit
  | .createEvent _ => Except ApiError Unit
  | .getConfigMap _ => Except ApiError ConfigMap
  | .createConfigMap _ => Except ApiError ConfigMap
  | .updateConfigMap _ _ => Except ApiError Unit
  | .now => Time
  | .isThrottled _ => Bool
  | .takeCooldown _ _ _ => Bool
  | .clearCooldown _ => Unit
  | .setThrottled _ _ => Unit
  | .deleteThrottled _ => Unit
  | .dueThrottles _ => List ThrottleState
  | .recoverThrottled _ => Unit
  | .lockPersist => Unit
  | .unlockPersist => Unit

/-- A program of the controller. -/
abbrev Ctl := Prog Act Resp

/-- Take one action. -/
abbrev perform (e : Act) : Ctl (Resp e) := Prog.perform e

/-! ## The world -/

/-- A change of one container's CPU limit that took effect. -/
structure LimitChange where
  ns : String
  pod : String
  container : String
  uid : ℕ
  old : Option Quantity
  new : Quantity
  time : Time
deriving Repr, DecidableEq

/-- What has happened in a run, for the statements about it; no code reads it. -/
inductive Change where
  /-- A patch issued by `throttle` took effect. -/
  | throttled (x : LimitChange)
  /-- A patch issued by `restore` took effect. -/
  | restored (st : ThrottleState) (x : LimitChange)
  /-- A throttle was entered in `r.throttled`. -/
  | recorded (st : ThrottleState)
  /-- Somebody else set a limit. -/
  | edited (x : LimitChange)
  /-- Somebody else deleted or created a pod. -/
  | replaced (ns pod : String)
deriving Repr, DecidableEq

/-- The cluster, the memory of the running controller process, the clock, whether the
context of the calls in flight is cancelled, and what has happened, newest first. -/
structure World where
  clock : Time
  cluster : Cluster
  events : List Event
  configMap : String → Option ConfigMap
  lastActed : String → Option Time
  throttled : Finmap fun _ : String ↦ ThrottleState
  persistMu : Bool
  cancelled : Bool
  history : List Change

/-- What the code leaves open about an action: whether the API call is served, and the
order in which a map is ranged over. -/
structure Choice where
  ok : Bool := true
  due : List ThrottleState := []
  scan : List (Sigma fun _ : String ↦ Raw) := []

namespace PatchSite

/-- The history entry of a patch. -/
def change : PatchSite → LimitChange → Change
  | .throttle, x => .throttled x
  | .restore st, x => .restored st x

end PatchSite

namespace World

variable (w : World)

/-- `Pods(ns).Get`. -/
def getPod (ns name : String) : Except ApiError Pod :=
  match w.cluster.pod ns name with
  | none => .error .notFound
  | some p => .ok p

/-- `Pods(ns).Patch` on the `resize` subresource. -/
def patchCPULimit (site : PatchSite) (ns pod container : String) (cpu : CPUText) :
    Except ApiError Unit × World :=
  match w.cluster.pod ns pod with
  | none => (.error .notFound, w)
  | some p =>
      match p.container? container, cpu with
      | some c, some q =>
          (.ok (), { w with
            cluster := w.cluster.setCPULimit ns pod container q
            history :=
              site.change ⟨ns, pod, container, p.uid, c.cpuLimit, q, w.clock⟩ :: w.history })
      | _, _ => (.error .failed, w)

/-- `Events(ns).Create`. -/
def createEvent (ev : Event) : World := { w with events := ev :: w.events }

/-- `ConfigMaps(ns).Get` of the ledger. -/
def getConfigMap (ns : String) : Except ApiError ConfigMap :=
  match w.configMap ns with
  | none => .error .notFound
  | some cm => .ok cm

/-- `ConfigMaps(ns).Create` of an empty ledger. -/
def createConfigMap (ns : String) : Except ApiError ConfigMap × World :=
  match w.configMap ns with
  | none => (.ok ⟨∅⟩, { w with configMap := Function.update w.configMap ns (some ⟨∅⟩) })
  | some _ => (.error .alreadyExists, w)

/-- `ConfigMaps(ns).Update` of the ledger. -/
def updateConfigMap (ns : String) (cm : ConfigMap) : Except ApiError Unit × World :=
  match w.configMap ns with
  | none => (.error .notFound, w)
  | some _ => (.ok (), { w with configMap := Function.update w.configMap ns (some cm) })

/-- The critical section of `takeCooldown`. -/
def takeCooldown (key : String) (now cooldown : Time) : Bool × World :=
  match w.lastActed key with
  | some last =>
      if now - last < cooldown then (false, w)
      else (true, { w with lastActed := Function.update w.lastActed key (some now) })
  | none => (true, { w with lastActed := Function.update w.lastActed key (some now) })

/-- The records whose window has elapsed, as `restoreDue` collects them. -/
def due (now : Time) : Multiset ThrottleState :=
  (w.throttled.entries.map Sigma.snd).filter fun st ↦ st.restoreAt < now

/-- The body of the loop of `Recover`. -/
def recoverEntry (m : Finmap fun _ : String ↦ ThrottleState)
    (e : Sigma fun _ : String ↦ Raw) : Finmap fun _ : String ↦ ThrottleState :=
  match e.2.unmarshal with
  | none => m
  | some p =>
      if p.ns = "" ∨ p.pod = "" then m
      else m.insert (podKey p.ns p.pod)
        ⟨p.ns, p.pod, p.container, p.originalCPULimit, p.restoreAt⟩

end World

/-- The answer and effect of an API call: its own, or `failed` without effect. -/
def Choice.api {α : Type} (ch : Choice) (w : World) (x : Except ApiError α × World) :
    Except ApiError α × World :=
  if ch.ok then x else (.error .failed, w)

/-- The effect of an action under a choice; `none` if the choice does not fit the
action, or the action has to wait. -/
def exec (ch : Choice) : (e : Act) → World → Option (Resp e × World)
  | .getPod ns name, w => some (ch.api w (w.getPod ns name, w))
  | .patchCPULimit site ns pod c cpu, w => some (ch.api w (w.patchCPULimit site ns pod c cpu))
  | .createEvent ev, w => some (ch.api w (.ok (), w.createEvent ev))
  | .getConfigMap ns, w => some (ch.api w (w.getConfigMap ns, w))
  | .createConfigMap ns, w => some (ch.api w (w.createConfigMap ns))
  | .updateConfigMap ns cm, w => some (ch.api w (w.updateConfigMap ns cm))
  | .now, w => some (w.clock, w)
  | .isThrottled key, w => some ((w.throttled.lookup key).isSome, w)
  | .takeCooldown key now cooldown, w => some (w.takeCooldown key now cooldown)
  | .clearCooldown key, w =>
      some ((), { w with lastActed := Function.update w.lastActed key none })
  | .setThrottled key st, w =>
      some ((), { w with
        throttled := w.throttled.insert key st, history := .recorded st :: w.history })
  | .deleteThrottled key, w => some ((), { w with throttled := w.throttled.erase key })
  | .dueThrottles now, w => if (ch.due : Multiset _) = w.due now then some (ch.due, w) else none
  | .recoverThrottled cm, w =>
      if (ch.scan : Multiset _) = cm.data.entries then
        some ((), { w with throttled := ch.scan.foldl World.recoverEntry w.throttled })
      else none
  | .lockPersist, w => if w.persistMu then none else some ((), { w with persistMu := true })
  | .unlockPersist, w => some ((), { w with persistMu := false })

/-- Which API calls may be served, and which may fail, in a state of the world. -/
abbrev Policy := World → Bool → Bool

/-- Every API call is served. -/
def Policy.reliable : Policy := fun _ ok ↦ ok

/-- An API call may be served or fail. -/
def Policy.unreliable : Policy := fun _ _ ↦ true

/-- An API call is served until the context is cancelled, and fails from then on. -/
def Policy.untilCancelled : Policy := fun w ok ↦ ok != w.cancelled

@[simp] theorem Policy.reliable_iff {w : World} {ok : Bool} :
    Policy.reliable w ok ↔ ok = true := Iff.rfl

@[simp] theorem Policy.untilCancelled_true {w : World} :
    Policy.untilCancelled w true ↔ w.cancelled = false := by simp [untilCancelled]

@[simp] theorem Policy.untilCancelled_false {w : World} :
    Policy.untilCancelled w false ↔ w.cancelled = true := by simp [untilCancelled]

/-- The effect of an action under some choice a policy admits. -/
def Exec (pol : Policy) (e : Act) (w : World) (r : Resp e) (w' : World) : Prop :=
  ∃ ch : Choice, pol w ch.ok ∧ exec ch e w = some (r, w')
