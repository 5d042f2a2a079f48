import NodeSentinel.Controller.Transition

/-!
# The limits on a call

A second protocol of the calls, about what bounds them: every action on a pod comes after the
namespace check, and what `act` does comes once after the cooldown of its pod is taken, with a
reading of the clock that is not older than the last one.  `Gate.Trans` lists what one action
changes of the memory.
-/

/-- Where a call is, as far as its limits go. -/
inductive Gate where
  /-- Before a target, or past one. -/
  | idle
  /-- `takeCooldown` has read the clock. -/
  | timed (now : Time)
  /-- The cooldown of a pod is taken, and nothing is done yet. -/
  | acting (key : String)
  /-- The action is done; its record and its Event may be left. -/
  | done
  /-- `restoreDue` has not collected the due records yet. -/
  | waking
  /-- The records that `restoreDue` has collected. -/
  | sweeping (due : List ThrottleState)

namespace Gate

/-- The phases of `restoreDue`. -/
def Loop : Gate → Prop
  | waking | sweeping _ => True
  | _ => False

/-- Whether a call may take an action in a phase. -/
def allowed (r : Remediator) (φ : Gate) : Act → Prop
  | .patchCPULimit .throttle ns pod _ _ =>
      φ = acting (podKey ns pod) ∧ r.allows ns = true ∧ r.cfg.resize = true
  | .patchCPULimit (.restore st) ns _ _ _ => ∃ due, φ = sweeping due ∧ st ∈ due ∧ ns = st.ns
  | .createEvent ev =>
      match ev.message with
      | .recommended _ _ => φ = acting (podKey ev.ns ev.pod) ∧ r.allows ev.ns = true
      | .throttled _ _ _ _ _ => φ = done ∧ r.allows ev.ns = true
      | .restored _ _ => ∃ due st, φ = sweeping due ∧ st ∈ due ∧ ev.ns = st.ns
  | .isThrottled _ => ¬ φ.Loop
  | .takeCooldown _ now cooldown => φ = timed now ∧ cooldown = r.cfg.cooldown
  | .clearCooldown key => φ = acting key
  | .setThrottled _ st => φ = done ∧ r.allows st.ns = true
  | .dueThrottles _ => φ = waking
  | .recoverThrottled _ => False
  | _ => True

/-- The phase after an Event: one that is served completes an action. -/
def announced : Gate → Except ApiError Unit → Gate
  | acting _, .ok _ => done
  | φ, _ => φ

/-- The phase after an action and its answer. -/
def next (φ : Gate) : (e : Act) → Resp e → Gate
  | .patchCPULimit .throttle _ _ _ _, ans =>
      match ans with
      | .ok _ => done
      | .error _ => φ
  | .createEvent _, ans => φ.announced ans
  | .now, t =>
      match φ with
      | idle => timed t
      | φ => φ
  | .isThrottled _, _ => idle
  | .takeCooldown key _ _, ok => if ok then acting key else idle
  | .clearCooldown _, _ => idle
  | .dueThrottles _, due => sweeping due
  | _, _ => φ

/-- The protocol. -/
def protocol (r : Remediator) : Protocol Act Resp Gate where
  allowed := allowed r
  next := next

/-! ## The calls follow it -/

variable {r : Remediator} {φ : Gate}

theorem allowed_of_onLedger {e : Act} (h : e.OnLedger) :
    (protocol r).allowed φ e ∧ ∀ ans, (protocol r).next φ e ans = φ := by
  cases e <;> first | exact ⟨trivial, fun _ ↦ rfl⟩ | exact h.elim

theorem persist_follows {key : String} {st : ThrottleState} :
    (persist r key st).Follows (protocol r) φ fun _ ψ ↦ ψ = φ :=
  persist_issues.follows fun _ h ↦ allowed_of_onLedger h

theorem forget_follows {key : String} : (forget r key).Follows (protocol r) φ fun _ ψ ↦ ψ = φ :=
  forget_issues.follows fun _ h ↦ allowed_of_onLedger h

/-- An Event on a pod, where the phase allows it. -/
theorem emitEvent_follows {t : Target ℚ} {m : Message} (hφ : φ ≠ idle)
    (h : ∀ uid now, allowed r φ (.createEvent ⟨t.ns, t.pod, uid, eventReason, m, now⟩)) :
    (emitEvent t m).Follows (protocol r) φ fun ans ψ ↦ ψ = φ.announced ans := by
  refine ⟨trivial, fun pod ↦ ⟨trivial, fun now ↦ ?_⟩⟩
  have hnow : (protocol r).next ((protocol r).next φ (.getPod t.ns t.pod) pod) .now now = φ := by
    cases φ <;> first | rfl | exact absurd rfl hφ
  rw [hnow]
  exact ⟨h _ _, fun _ ↦ rfl⟩

theorem throttle_follows {t : Target ℚ} {why : Why} (hres : r.cfg.resize = true)
    (hns : r.allows t.ns = true) : (throttle r t why).Follows (protocol r) (acting t.key)
      fun ok ψ ↦ ψ = if ok then done else acting t.key := by
  refine Prog.follows_perform.mpr ⟨trivial, fun ans ↦ ?_⟩
  cases ans with
  | error err => exact rfl
  | ok pod =>
      cases hroom : pod.room t.container with
      | none => simp only [hroom]; exact rfl
      | some lr =>
          simp only [hroom]
          refine Prog.follows_perform.mpr ⟨⟨rfl, hns, hres⟩, fun ans ↦ ?_⟩
          cases ans with
          | error err => exact rfl
          | ok _ =>
              refine ⟨trivial, fun now ↦ ⟨⟨rfl, hns⟩, fun _ ↦ persist_follows.bind fun _ ψ hψ ↦ ?_⟩⟩
              subst hψ
              refine (emitEvent_follows (φ := done) (by simp) ?_).bind fun _ ψ hψ ↦ hψ
              exact fun _ _ ↦ ⟨rfl, hns⟩

theorem eventTier_follows {t : Target ℚ} {why : Why} (hns : r.allows t.ns = true) :
    (eventTier t why).Follows (protocol r) (acting t.key) fun _ ψ ↦ ¬ ψ.Loop := by
  refine (emitEvent_follows (φ := acting t.key) (by simp) ?_).bind fun ans ψ hψ ↦ ?_
  · exact fun _ _ ↦ ⟨rfl, hns⟩
  · subst hψ
    cases ans with
    | ok u => exact id
    | error err => exact ⟨rfl, fun _ ↦ id⟩

theorem act_follows {t : Target ℚ} {s : Snapshot ℚ} (hns : r.allows t.ns = true) :
    (act r t s).Follows (protocol r) (acting t.key) fun _ ψ ↦ ¬ ψ.Loop := by
  rw [act_eq]
  split
  · exact id
  · split
    · next hif =>
        rw [Bool.and_eq_true] at hif
        refine (throttle_follows hif.1 hns).bind fun ok ψ hψ ↦ ?_
        subst hψ
        cases ok with
        | true => exact id
        | false => exact eventTier_follows hns
    · exact eventTier_follows hns

theorem remediateOne_follows {t : Target ℚ} {s : Snapshot ℚ} (hφ : ¬ φ.Loop) :
    (remediateOne r s t).Follows (protocol r) φ fun _ ψ ↦ ¬ ψ.Loop := by
  unfold remediateOne
  split
  · exact hφ
  · next hns =>
      refine ⟨hφ, fun thr ↦ ?_⟩
      cases thr with
      | true => exact id
      | false =>
          refine ⟨trivial, fun now ↦ ⟨⟨rfl, rfl⟩, fun ok ↦ ?_⟩⟩
          cases ok with
          | false => exact id
          | true => exact act_follows (by simpa using hns)

/-- `Remediate` stays within the limits. -/
theorem remediate_follows {s : Snapshot ℚ} :
    (remediate r s).Follows (protocol r) idle fun _ ψ ↦ ¬ ψ.Loop :=
  Prog.Follows.forM (I := fun _ (ψ : Gate) ↦ ¬ ψ.Loop) (fun _ _ _ h ↦ remediateOne_follows h) id

theorem restoreOne_follows {st : ThrottleState} {due : List ThrottleState} (hst : st ∈ due) :
    (restoreOne r st).Follows (protocol r) (sweeping due) fun _ ψ ↦ ψ = sweeping due := by
  refine Prog.Follows.bind (Q := fun _ ψ ↦ ψ = sweeping due) ?_ fun ok ψ hψ ↦ ?_
  · refine ⟨⟨due, rfl, hst, rfl⟩, fun ans ↦ ?_⟩
    rcases ans with (_ | _ | _) | _
    · rfl
    · rfl
    · rfl
    · have hevent := @emitEvent_follows r (sweeping due) ⟨st.ns, st.pod, st.container, .cpu, 0⟩
      exact (hevent (m := .restored st.key st.originalCPULimit) (by simp) fun _ _ ↦ ⟨due, st, rfl, hst, rfl⟩).bind
        fun _ ψ hψ ↦ hψ
  · subst hψ
    cases ok with
    | false => rfl
    | true => exact ⟨trivial, fun _ ↦ forget_follows⟩

/-- `restoreDue` stays within the limits. -/
theorem restoreDue_follows : (restoreDue r).Follows (protocol r) waking fun _ ψ ↦ ψ.Loop := by
  refine ⟨trivial, fun now ↦ ⟨rfl, fun due ↦ ?_⟩⟩
  have h : (due.forM (restoreOne r)).Follows (protocol r) (sweeping due)
      fun _ ψ ↦ (∀ st ∈ ([] : List ThrottleState), st ∈ due) ∧ ψ = sweeping due := by
    refine Prog.Follows.forM (I := fun rest ψ ↦ (∀ st ∈ rest, st ∈ due) ∧ ψ = sweeping due) ?_
      ⟨fun _ hst ↦ hst, rfl⟩
    rintro st rest ψ ⟨hrest, rfl⟩
    exact (restoreOne_follows (hrest st (by simp))).mono fun _ ψ hψ ↦
      ⟨fun st' hst' ↦ hrest st' (List.mem_cons_of_mem _ hst'), hψ⟩
  exact h.mono fun _ ψ hψ ↦ hψ.2 ▸ trivial

/-! ## What one action changes -/

/-- The memory and the clock are the same. -/
structure SameMemory (w w' : World) : Prop where
  clock : w'.clock = w.clock
  lastActed : w'.lastActed = w.lastActed
  throttled : w'.throttled = w.throttled

/-- One action of a call, with what it changes of the memory and of the phase. -/
inductive Trans (r : Remediator) (w : World) : Gate → Act → World → Gate → Prop
  | stay {w' : World} (φ : Gate) (e : Act) (h : SameMemory w w') : Trans r w φ e w' φ
  /-- A check of the next target, or a check that ends this one. -/
  | skip {φ : Gate} (e : Act) (h : ¬ φ.Loop) : Trans r w φ e w idle
  | time : Trans r w idle .now w (timed w.clock)
  | take (key : String) (now : Time)
      (h : ∀ last, w.lastActed key = some last → r.cfg.cooldown ≤ now - last) :
      Trans r w (timed now) (.takeCooldown key now r.cfg.cooldown)
        { w with lastActed := Function.update w.lastActed key (some now) } (acting key)
  | clear (key : String) : Trans r w (acting key) (.clearCooldown key)
      { w with lastActed := Function.update w.lastActed key none } idle
  /-- An action takes effect. -/
  | finish {w' : World} (key : String) (e : Act) (h : SameMemory w w') : Trans r w (acting key) e w' done
  | record (key : String) (st : ThrottleState) (h : r.allows st.ns = true) :
      Trans r w done (.setThrottled key st)
        { w with throttled := w.throttled.insert key st, history := .recorded st :: w.history } done
  | drop (φ : Gate) (key : String) : Trans r w φ (.deleteThrottled key)
      { w with throttled := w.throttled.erase key } φ
  | collect {now : Time} {due : List ThrottleState} (h : (due : Multiset _) = w.due now) :
      Trans r w waking (.dueThrottles now) w (sweeping due)

section

variable {pol : Policy} {w w' : World}

theorem SameMemory.refl (w : World) : SameMemory w w := ⟨rfl, rfl, rfl⟩

/-- An API call touches the cluster and what has happened only. -/
theorem sameMemory_api {α : Type} {x : Except ApiError α × World} {ans : Except ApiError α}
    (hx : ∃ ch : Choice, pol w ch.ok ∧ some (ch.api w x) = some (ans, w'))
    (h : SameMemory w x.2) : SameMemory w w' := by
  rcases exec_api.mp hx with ⟨-, rfl⟩ | ⟨-, -, rfl⟩
  · exact h
  · exact .refl w'

theorem sameMemory_patch {site : PatchSite} {ns pod c : String} {cpu : CPUText} :
    SameMemory w (w.patchCPULimit site ns pod c cpu).2 := by
  unfold World.patchCPULimit
  split
  · exact .refl w
  · split
    · exact ⟨rfl, rfl, rfl⟩
    · exact .refl w

theorem sameMemory_createConfigMap {ns : String} : SameMemory w (w.createConfigMap ns).2 := by
  unfold World.createConfigMap
  split
  · exact ⟨rfl, rfl, rfl⟩
  · exact .refl w

theorem sameMemory_updateConfigMap {ns : String} {cm : ConfigMap} :
    SameMemory w (w.updateConfigMap ns cm).2 := by
  unfold World.updateConfigMap
  split
  · exact .refl w
  · exact ⟨rfl, rfl, rfl⟩

/-- Every action a call takes is one of the transitions. -/
theorem trans {e : Act} {ans : Resp e} (ha : allowed r φ e) (hx : Exec pol e w ans w') :
    Trans r w φ e w' (φ.next e ans) := by
  cases e with
  | getPod ns name => exact .stay _ _ (sameMemory_api hx (.refl w))
  | patchCPULimit site ns pod c cpu =>
      have hmem := sameMemory_api hx sameMemory_patch
      cases site with
      | throttle =>
          obtain ⟨rfl, -, -⟩ := ha
          cases ans with
          | ok u => exact .finish _ _ hmem
          | error err => exact .stay _ _ hmem
      | restore st => exact .stay _ _ hmem
  | createEvent ev =>
      have hmem := sameMemory_api hx ⟨rfl, rfl, rfl⟩
      cases φ <;> cases ans <;> first | exact .stay _ _ hmem | exact .finish _ _ hmem
  | getConfigMap ns => exact .stay _ _ (sameMemory_api hx (.refl w))
  | createConfigMap ns => exact .stay _ _ (sameMemory_api hx sameMemory_createConfigMap)
  | updateConfigMap ns cm => exact .stay _ _ (sameMemory_api hx sameMemory_updateConfigMap)
  | now =>
      obtain ⟨rfl, rfl⟩ := Prod.mk.inj (exec_local hx)
      cases φ with
      | idle => exact .time
      | _ => exact .stay _ _ (.refl w)
  | isThrottled key =>
      obtain ⟨rfl, rfl⟩ := Prod.mk.inj (exec_local hx)
      exact .skip _ ha
  | takeCooldown key now cooldown =>
      obtain ⟨rfl, rfl⟩ := ha
      rcases exec_takeCooldown hx with ⟨rfl, rfl⟩ | ⟨rfl, hcd, rfl⟩
      · exact .skip _ id
      · exact .take _ _ hcd
  | clearCooldown key =>
      obtain rfl : φ = acting key := ha
      obtain ⟨-, rfl⟩ := Prod.mk.inj (exec_local hx)
      exact .clear _
  | setThrottled key st =>
      obtain ⟨rfl, hns⟩ := ha
      obtain ⟨-, rfl⟩ := Prod.mk.inj (exec_local hx)
      exact .record _ _ hns
  | deleteThrottled key =>
      obtain ⟨-, rfl⟩ := Prod.mk.inj (exec_local hx)
      exact .drop _ _
  | dueThrottles now =>
      obtain rfl : φ = waking := ha
      obtain ⟨hdue, rfl⟩ := exec_dueThrottles hx
      exact .collect hdue
  | recoverThrottled cm => exact ha.elim
  | lockPersist =>
      obtain ⟨-, rfl⟩ := exec_lockPersist hx
      exact .stay _ _ ⟨rfl, rfl, rfl⟩
  | unlockPersist =>
      obtain ⟨-, rfl⟩ := Prod.mk.inj (exec_local hx)
      exact .stay _ _ ⟨rfl, rfl, rfl⟩

end

end Gate
