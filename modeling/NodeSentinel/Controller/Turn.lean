import NodeSentinel.Controller.Bounds

/-!
# Whose turn it is

A third protocol of the calls, about one pod at a time: a report acts on a pod after it has found
no throttle of it and has taken its cooldown, and it leaves the pod with an action done or with the
cooldown given back.  Unlike `Gate` it knows which pod each step is about, and unlike `Phase` it
does not follow what is written.
-/

/-- Where a call is, as far as the pod goes that it handles. -/
inductive Turn where
  /-- Before a target, or past one. -/
  | idle
  /-- `isThrottled` was false. -/
  | free (key : String)
  /-- `takeCooldown` was true, and nothing is done yet. -/
  | acting (key : String)
  /-- An action on the pod has succeeded. -/
  | done (key : String)
  /-- In `restoreDue`. -/
  | loop

namespace Turn

/-- Between two targets, or past the checks of one. -/
def Between : Turn → Prop
  | idle | free _ | done _ => True
  | _ => False

/-- Where a call may return. -/
def Final : Turn → Prop
  | acting _ => False
  | _ => True

/-- Whether a call may take an action. -/
def allowed (φ : Turn) : Act → Prop
  | .isThrottled _ => φ.Between
  | .takeCooldown key _ _ => φ = free key
  | .clearCooldown key => φ = acting key
  | .setThrottled key _ => φ = done key
  | .dueThrottles _ => φ = loop
  | .recoverThrottled _ => False
  | e => ∀ ns pod, e.acted? = some (ns, pod) → φ = acting (podKey ns pod)

/-- The phase after an action and its answer. -/
def next (φ : Turn) : (e : Act) → Resp e → Turn
  | .patchCPULimit .throttle ns pod _ _, .ok _ => done (podKey ns pod)
  | .createEvent ev, .ok _ =>
      match ev.message with
      | .recommended _ _ => done (podKey ev.ns ev.pod)
      | _ => φ
  | .isThrottled key, ans => if ans then idle else free key
  | .takeCooldown key _ _, ans => if ans then acting key else idle
  | .clearCooldown _, _ => idle
  | _, _ => φ

/-- The protocol. -/
def protocol : Protocol Act Resp Turn where
  allowed := allowed
  next := next

/-! ## The calls follow it -/

/-- The actions by which no pod is acted on, and that no check or record of a report is. -/
def Aside : Act → Prop
  | .isThrottled _ | .takeCooldown _ _ _ | .clearCooldown _ | .setThrottled _ _ | .dueThrottles _
  | .recoverThrottled _ => False
  | e => e.acted? = none

variable {r : Remediator} {φ : Turn} {t : Target ℚ}

/-- They are allowed at any time, and are no move. -/
theorem allowed_of_aside {e : Act} (h : Aside e) :
    protocol.allowed φ e ∧ ∀ ans, protocol.next φ e ans = φ := by
  cases e with
  | patchCPULimit site ns pod c cpu =>
      cases site with
      | throttle => cases h
      | restore st => exact ⟨nofun, fun _ ↦ rfl⟩
  | createEvent ev =>
      obtain ⟨ns, pod, uid, reason, m, time⟩ := ev
      cases m with
      | recommended => cases h
      | throttled | restored =>
          refine ⟨nofun, fun ans ↦ ?_⟩
          cases ans <;> rfl
  | isThrottled | takeCooldown | clearCooldown | setThrottled | dueThrottles | recoverThrottled =>
      exact h.elim
  | _ => exact ⟨nofun, fun _ ↦ rfl⟩

theorem aside_of_onLedger {e : Act} (h : e.OnLedger) : Aside e := by
  cases e <;> first | rfl | exact h.elim

theorem persist_follows {key : String} {st : ThrottleState} :
    (persist r key st).Follows protocol φ fun _ ψ ↦ ψ = φ :=
  persist_issues.follows fun _ h ↦ allowed_of_aside (aside_of_onLedger h)

/-- The Event that a throttle or a restore is announced by. -/
theorem emitEvent_aside {m : Message} (hm : ∀ key why, m ≠ .recommended key why) :
    (emitEvent t m).Issues Aside := by
  refine ⟨rfl, fun _ ↦ ⟨rfl, fun _ ↦ ⟨?_, fun _ ↦ trivial⟩⟩⟩
  show (match m with
    | .recommended _ _ => some (t.ns, t.pod)
    | _ => none) = none
  cases m with
  | recommended key why => exact absurd rfl (hm key why)
  | _ => rfl

/-- The Event by which a pod is acted on. -/
theorem emitEvent_follows {key : String} {why : Why} :
    (emitEvent t (.recommended key why)).Follows protocol (acting t.key) fun ans ψ ↦
      ψ = match ans with
        | .ok _ => done t.key
        | .error _ => acting t.key := by
  refine ⟨nofun, fun _ ↦ ⟨nofun, fun _ ↦ ⟨?_, fun ans ↦ ?_⟩⟩⟩
  · rintro ns pod ⟨⟩
    rfl
  · cases ans <;> rfl

theorem throttle_follows {why : Why} : (throttle r t why).Follows protocol (acting t.key)
    fun ok ψ ↦ ψ = if ok then done t.key else acting t.key := by
  refine Prog.follows_perform.mpr ⟨nofun, fun ans ↦ ?_⟩
  cases ans with
  | error err => exact rfl
  | ok pod =>
      cases hroom : pod.room t.container with
      | none => simp only [hroom]; exact rfl
      | some lr =>
          simp only [hroom]
          refine Prog.follows_perform.mpr ⟨?_, fun ans ↦ ?_⟩
          · rintro ns pod ⟨⟩
            rfl
          · cases ans with
            | error err => exact rfl
            | ok _ =>
                refine ⟨nofun, fun now ↦ ⟨rfl, fun _ ↦ persist_follows.bind fun _ ψ hψ ↦ ?_⟩⟩
                subst hψ
                refine ((emitEvent_aside (by simp)).follows fun _ h ↦ allowed_of_aside h).bind ?_
                exact fun _ ψ hψ ↦ hψ

theorem eventTier_follows {why : Why} :
    (eventTier t why).Follows protocol (acting t.key) fun _ ψ ↦ ψ.Between := by
  refine emitEvent_follows.bind fun ans ψ hψ ↦ ?_
  subst hψ
  cases ans with
  | ok u => exact trivial
  | error err => exact ⟨rfl, fun _ ↦ trivial⟩

/-- `act` leaves the pod with an action done, or with its cooldown given back. -/
theorem act_follows {s : Snapshot ℚ} (hdry : r.cfg.dryRun = false) :
    (act r t s).Follows protocol (acting t.key) fun _ ψ ↦ ψ.Between := by
  rw [act_eq, hdry, if_neg Bool.false_ne_true]
  split
  · refine throttle_follows.bind fun ok ψ hψ ↦ ?_
    subst hψ
    cases ok with
    | true => exact trivial
    | false => exact eventTier_follows
  · exact eventTier_follows

theorem remediateOne_follows {s : Snapshot ℚ} (hdry : r.cfg.dryRun = false) (hφ : φ.Between) :
    (remediateOne r s t).Follows protocol φ fun _ ψ ↦ ψ.Between := by
  unfold remediateOne
  split
  · exact hφ
  · refine ⟨hφ, fun thr ↦ ?_⟩
    cases thr with
    | true => exact trivial
    | false =>
        refine ⟨nofun, fun now ↦ ⟨rfl, fun ok ↦ ?_⟩⟩
        cases ok with
        | false => exact trivial
        | true => exact act_follows hdry

/-- `Remediate` follows it. -/
theorem remediate_follows {s : Snapshot ℚ} (hdry : r.cfg.dryRun = false) :
    (remediate r s).Follows protocol idle fun _ ψ ↦ ψ.Final := by
  have hidle : idle.Between := trivial
  refine (Prog.Follows.forM (I := fun _ (ψ : Turn) ↦ ψ.Between) ?_ hidle).mono fun _ ψ hψ ↦ ?_
  · intro t _ ψ hψ
    exact remediateOne_follows hdry hψ
  · cases ψ <;> trivial

theorem restoreOne_aside {st : ThrottleState} : (restoreOne r st).Issues Aside := by
  refine Prog.Issues.bind ?_ fun ok ↦ ?_
  · refine ⟨rfl, fun ans ↦ ?_⟩
    rcases ans with (_ | _ | _) | _
    · trivial
    · trivial
    · trivial
    · exact (emitEvent_aside (by simp)).bind fun _ ↦ trivial
  · cases ok with
    | false => trivial
    | true => exact ⟨rfl, fun _ ↦ forget_issues.mono fun _ h ↦ aside_of_onLedger h⟩

/-- `restoreDue` follows it. -/
theorem restoreDue_follows : (restoreDue r).Follows protocol loop fun _ ψ ↦ ψ.Final := by
  refine ⟨nofun, fun now ↦ ⟨rfl, fun due ↦ ?_⟩⟩
  have hrestore : ∀ st, (restoreOne r st).Follows protocol loop fun _ ψ ↦ ψ = loop :=
    fun st ↦ restoreOne_aside.follows fun _ h ↦ allowed_of_aside h
  refine (Prog.Follows.forM (I := fun _ ψ ↦ ψ = loop) ?_ rfl).mono fun _ ψ hψ ↦ hψ ▸ trivial
  rintro st - _ rfl
  exact hrestore st

/-! ## What one action changes -/

/-- One action of a call, with what it changes of the memory and of the phase. -/
inductive Trans (w : World) : Turn → (e : Act) → Resp e → World → Turn → Prop
  | stay {w' : World} (φ : Turn) (e : Act) (ans : Resp e) (h : Gate.SameMemory w w') :
      Trans w φ e ans w' φ
  /-- A check that turns the pod away. -/
  | skip {φ : Turn} (e : Act) (ans : Resp e) (h : φ.Between) : Trans w φ e ans w idle
  | check {φ : Turn} (key : String) (ans : Bool) (h : φ.Between) (hnone : w.throttled.lookup key = none) :
      Trans w φ (.isThrottled key) ans w (free key)
  | take (key : String) (now cooldown : Time) (ans : Bool) :
      Trans w (free key) (.takeCooldown key now cooldown) ans
        { w with lastActed := Function.update w.lastActed key (some now) } (acting key)
  | clear (key : String) (ans : Unit) : Trans w (acting key) (.clearCooldown key) ans
      { w with lastActed := Function.update w.lastActed key none } idle
  /-- An action succeeds. -/
  | finish {w' : World} {ns pod : String} (e : Act) (ans : Resp e) (h : Gate.SameMemory w w')
      (hacted : e.acted? = some (ns, pod)) (hserved : e.Served ans) :
      Trans w (acting (podKey ns pod)) e ans w' (done (podKey ns pod))
  | record (key : String) (st : ThrottleState) (ans : Unit) :
      Trans w (done key) (.setThrottled key st) ans
        { w with throttled := w.throttled.insert key st, history := .recorded st :: w.history } (done key)
  | drop (φ : Turn) (key : String) (ans : Unit) : Trans w φ (.deleteThrottled key) ans
      { w with throttled := w.throttled.erase key } φ

section

variable {pol : Policy} {w w' : World}

open Gate (SameMemory sameMemory_api sameMemory_patch sameMemory_createConfigMap
  sameMemory_updateConfigMap)

/-- Every action a call takes is one of the transitions. -/
theorem trans {e : Act} {ans : Resp e} (ha : allowed φ e) (hx : Exec pol e w ans w') :
    Trans w φ e ans w' (φ.next e ans) := by
  cases e with
  | getPod ns name => exact .stay _ _ _ (sameMemory_api hx (.refl w))
  | patchCPULimit site ns pod c cpu =>
      have hmem := sameMemory_api hx sameMemory_patch
      cases site with
      | throttle =>
          obtain rfl := ha ns pod rfl
          cases ans with
          | ok u => exact .finish _ _ hmem rfl (.patch ..)
          | error err => exact .stay _ _ _ hmem
      | restore st => exact .stay _ _ _ hmem
  | createEvent ev =>
      have hmem := sameMemory_api hx ⟨rfl, rfl, rfl⟩
      cases ans with
      | error err => exact .stay _ _ _ hmem
      | ok u =>
          dsimp only [next]
          split
          · next hm =>
              have hacted : (Act.createEvent ev).acted? = some (ev.ns, ev.pod) := by
                rw [Act.acted?, hm]
              obtain rfl := ha ev.ns ev.pod hacted
              exact .finish _ _ hmem hacted (.event ev)
          · exact .stay _ _ _ hmem
  | getConfigMap ns => exact .stay _ _ _ (sameMemory_api hx (.refl w))
  | createConfigMap ns => exact .stay _ _ _ (sameMemory_api hx sameMemory_createConfigMap)
  | updateConfigMap ns cm => exact .stay _ _ _ (sameMemory_api hx sameMemory_updateConfigMap)
  | now =>
      obtain ⟨-, rfl⟩ := Prod.mk.inj (exec_local hx)
      exact .stay _ _ _ (.refl w)
  | isThrottled key =>
      obtain ⟨rfl, rfl⟩ := Prod.mk.inj (exec_local hx)
      dsimp only [next]
      split
      · exact .skip _ _ ha
      · next hnone => exact .check _ _ ha (by simpa using hnone)
  | takeCooldown key now cooldown =>
      obtain rfl : φ = free key := ha
      rcases exec_takeCooldown hx with ⟨rfl, rfl⟩ | ⟨rfl, -, rfl⟩
      · exact .skip _ _ trivial
      · exact .take _ _ _ _
  | clearCooldown key =>
      obtain rfl : φ = acting key := ha
      obtain ⟨-, rfl⟩ := Prod.mk.inj (exec_local hx)
      exact .clear _ _
  | setThrottled key st =>
      obtain rfl : φ = done key := ha
      obtain ⟨-, rfl⟩ := Prod.mk.inj (exec_local hx)
      exact .record _ _ _
  | deleteThrottled key =>
      obtain ⟨-, rfl⟩ := Prod.mk.inj (exec_local hx)
      exact .drop _ _ _
  | dueThrottles now =>
      obtain ⟨-, rfl⟩ := exec_dueThrottles hx
      exact .stay _ _ _ (.refl _)
  | recoverThrottled cm => exact ha.elim
  | lockPersist =>
      obtain ⟨-, rfl⟩ := exec_lockPersist hx
      exact .stay _ _ _ ⟨rfl, rfl, rfl⟩
  | unlockPersist =>
      obtain ⟨-, rfl⟩ := Prod.mk.inj (exec_local hx)
      exact .stay _ _ _ ⟨rfl, rfl, rfl⟩

end

end Turn
