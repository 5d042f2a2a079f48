import NodeSentinel.Controller.Persist

/-!
# The `/resize` tier

`resize.go`: lower a CPU offender's limit to its request, record the throttle, and
lift it after a fixed window.
-/

/-- The limit and request of the named container, where the request is set and leaves
room below the limit: what `throttle` needs to go ahead. -/
def Pod.room (p : Pod) (container : String) : Option (Quantity × Quantity) :=
  match p.container? container with
  | some ⟨_, some request, some limit⟩ => if request ≥ limit then none else some (limit, request)
  | _ => none

/-- What `Pod.room` found. -/
theorem Pod.room_eq_some {p : Pod} {name : String} {limit request : Quantity}
    (h : p.room name = some (limit, request)) :
    ∃ c, p.container? name = some c ∧ c.cpuLimit = some limit ∧ c.cpuRequest = some request ∧
      request < limit := by
  unfold room at h
  split at h
  · next n q l hc =>
      split at h
      · cases h
      · next hlt =>
          obtain ⟨rfl, rfl⟩ := Prod.mk.inj (Option.some.inj h)
          exact ⟨_, hc, rfl, rfl, not_le.mp hlt⟩
  · cases h

/-- `throttle`: `false` asks for the Event tier. -/
def throttle (r : Remediator) (t : Target ℚ) (why : Why) : Ctl Bool := do
  match ← perform (.getPod t.ns t.pod) with
  | .error _ => return false
  | .ok pod =>
      match pod.room t.container with
      | none => return false
      | some (limit, request) =>
          let newLimit := request.string
          let origLimit := limit.string
          match ← perform (.patchCPULimit .throttle t.ns t.pod t.container newLimit) with
          | .error _ => return false
          | .ok _ =>
              let now ← perform .now
              let restoreAt := now + r.cfg.restoreAfter
              let st : ThrottleState := ⟨t.ns, t.pod, t.container, origLimit, restoreAt⟩
              perform (.setThrottled t.key st)
              persist r t.key st
              let _ ← emitEvent t (.throttled t.key origLimit newLimit why restoreAt)
              return true

/-- `restore`: put the original limit back and announce it.  `true` when the throttle
is handled, because it is lifted or because the pod is gone. -/
def restore (st : ThrottleState) : Ctl Bool := do
  match ← perform (.patchCPULimit (.restore st) st.ns st.pod st.container st.originalCPULimit) with
  | .error .notFound => return true
  | .error _ => return false
  | .ok _ =>
      let t : Target ℚ := ⟨st.ns, st.pod, st.container, .cpu, 0⟩
      let _ ← emitEvent t (.restored st.key st.originalCPULimit)
      return true

/-- The body of the loop of `restoreDue`. -/
def restoreOne (r : Remediator) (st : ThrottleState) : Ctl Unit := do
  if ← restore st then
    perform (.deleteThrottled st.key)
    forget r st.key
  else return ()

/-- `restoreDue`: restore every throttle whose window has elapsed. -/
def restoreDue (r : Remediator) : Ctl Unit := do
  let now ← perform .now
  let due ← perform (.dueThrottles now)
  due.forM (restoreOne r)
