import NodeSentinel.Controller.Remediate

/-!
# The protocol of a controller call

What one call of `Remediate`, `restoreDue` or `Recover` does, as an automaton over
its actions: in which order the checks, the patch, the record, the ledger section
and the Event come, and what each of them is about.  `remediate_follows`,
`restoreDue_follows` and `recover_follows` tie the automaton to the programs; the
invariants of the following files are about phases only.

The automaton is ours; it says what holds of the code at each point and nothing the
code does not do.
-/

/-- The steps of a `persist` or `forget` section. -/
inductive Stage where
  /-- The memory has changed, the lock is not taken yet. -/
  | waiting
  | locked
  /-- The ledger was not found and is to be created. -/
  | creating
  /-- Somebody else created the ledger in between. -/
  | rereading
  | loaded (cm : ConfigMap)
  | leaving
deriving DecidableEq

/-- Where a call is. -/
inductive Phase where
  | idle
  /-- `Recover` has not read the ledger yet. -/
  | starting
  /-- `isThrottled` was false. -/
  | unthrottled (key : String)
  /-- `takeCooldown` was true. -/
  | acting (key : String)
  /-- The pod was read. -/
  | read (ns name : String) (pod : Pod)
  /-- `throttle` has lowered the limit from `orig` to `request`. -/
  | lowered (ns pod container : String) (orig request : Quantity)
  /-- `throttle` is about to enter its record. -/
  | stamped (st : ThrottleState)
  /-- An action is done and its Event to be emitted. -/
  | announcing
  /-- `restoreDue` has not read the clock yet. -/
  | waking
  /-- `restoreDue` has read the clock. -/
  | sweeping (now : Time)
  /-- The due records that `restoreDue` has not come to yet. -/
  | restoring (rest : List ThrottleState)
  /-- `restore` has handled `st`: it has put the limit back, or (`lifted` false) the pod is gone. -/
  | restored (lifted : Bool) (st : ThrottleState) (rest : List ThrottleState)
  /-- The record under `key` has become `v` in memory; the ledger is to follow. -/
  | ledger (stage : Stage) (key : String) (v : Option ThrottleState) (rest : List ThrottleState)
  /-- `Recover` has read the ledger. -/
  | recovering (cm : ConfigMap)

/-- What a ledger section writes back. -/
def ConfigMap.edit (cm : ConfigMap) (key : String) : Option ThrottleState → ConfigMap
  | some st => ⟨cm.data.insert (cmKey key) st.raw⟩
  | none => ⟨cm.data.erase (cmKey key)⟩

namespace Phase

/-- Between two targets, or between two actions that carry no obligation. -/
def Free : Phase → Prop
  | idle | unthrottled _ | acting _ | read _ _ _ | announcing => True
  | _ => False

/-- Where a call may return. -/
def Final : Phase → Prop
  | restoring rest => rest = []
  | φ => φ.Free

/-- What follows a ledger section: the Event of a throttle, or the other due records. -/
def afterLedger : Option ThrottleState → List ThrottleState → Phase
  | some _, _ => announcing
  | none, rest => restoring rest

/-- Whether a call may take an action in a phase. -/
def allowed (r : Remediator) (φ : Phase) : Act → Prop
  | .getPod ns name =>
      φ = idle ∨ φ = announcing ∨ φ = acting (podKey ns name) ∨ (∃ p, φ = read ns name p) ∨
        ∃ st rest, φ = restored true st rest
  | .patchCPULimit .throttle ns pod c cpu =>
      ∃ p limit request, φ = read ns pod p ∧ p.room c = some (limit, request) ∧
        cpu = some request ∧ r.cfg.resize = true ∧ r.cfg.dryRun = false ∧ r.allows ns = true
  | .patchCPULimit (.restore st) ns pod c cpu =>
      ∃ rest, φ = restoring (st :: rest) ∧ ns = st.ns ∧ pod = st.pod ∧ c = st.container ∧
        cpu = st.originalCPULimit
  | .createEvent _ =>
      φ = announcing ∨ (∃ st rest, φ = restored true st rest) ∨
        (r.cfg.dryRun = false ∧ ((∃ key, φ = acting key) ∨ ∃ ns name p, φ = read ns name p))
  | .getConfigMap ns =>
      ns = r.stateNS ∧ (φ = starting ∨ (∃ k v rest, φ = ledger .locked k v rest) ∨
        ∃ k v rest, φ = ledger .rereading k v rest)
  | .createConfigMap ns => ns = r.stateNS ∧ ∃ k v rest, φ = ledger .creating k v rest
  | .updateConfigMap ns cm' =>
      ns = r.stateNS ∧ ∃ cm k v rest, φ = ledger (.loaded cm) k v rest ∧ cm' = cm.edit k v ∧
        (v = none → cmKey k ∈ cm.data)
  | .now =>
      φ = waking ∨ (∃ key, φ = unthrottled key) ∨ (∃ key, φ = acting key) ∨
        (∃ ns name p, φ = read ns name p) ∨ φ = announcing ∨ (∃ st rest, φ = restored true st rest) ∨
        ∃ ns pod c orig request, φ = lowered ns pod c orig request
  | .isThrottled _ => φ.Free
  | .takeCooldown key _ cooldown => φ = unthrottled key ∧ cooldown = r.cfg.cooldown
  | .clearCooldown key => φ = acting key ∨ ∃ ns name p, φ = read ns name p ∧ key = podKey ns name
  | .setThrottled key st => φ = stamped st ∧ key = st.key
  | .deleteThrottled key => ∃ l st rest, φ = restored l st rest ∧ key = st.key
  | .dueThrottles now => φ = sweeping now
  | .recoverThrottled cm => φ = recovering cm
  | .lockPersist => ∃ k v rest, φ = ledger .waiting k v rest
  | .unlockPersist =>
      ∃ k v rest, φ = ledger .leaving k v rest ∨
        ∃ cm, φ = ledger (.loaded cm) k v rest ∧ v = none ∧ cmKey k ∉ cm.data

/-- The phase after an action and its answer. -/
def next (r : Remediator) (φ : Phase) : (e : Act) → Resp e → Phase
  | .getPod ns name, ans =>
      match φ, ans with
      | acting _, .ok p => read ns name p
      | read _ _ _, .ok p => read ns name p
      | φ, _ => φ
  | .patchCPULimit _ _ _ c _, ans =>
      match φ, ans with
      | read ns name p, .ok _ =>
          match p.room c with
          | some (limit, request) => lowered ns name c limit request
          | none => φ
      | restoring (st :: rest), .ok _ => restored true st rest
      | restoring (st :: rest), .error .notFound => restored false st rest
      | restoring (_ :: rest), .error _ => restoring rest
      | φ, _ => φ
  | .createEvent _, _ => φ
  | .getConfigMap _, ans =>
      match φ, ans with
      | ledger _ k v rest, .ok cm => ledger (.loaded cm) k v rest
      | ledger .locked k v rest, .error .notFound => ledger .creating k v rest
      | ledger _ k v rest, .error _ => ledger .leaving k v rest
      | _, .ok cm => recovering cm
      | _, .error _ => idle
  | .createConfigMap _, ans =>
      match φ, ans with
      | ledger _ k v rest, .ok cm => ledger (.loaded cm) k v rest
      | ledger _ k v rest, .error .alreadyExists => ledger .rereading k v rest
      | ledger _ k v rest, .error _ => ledger .leaving k v rest
      | φ, _ => φ
  | .updateConfigMap _ _, _ =>
      match φ with
      | ledger _ k v rest => ledger .leaving k v rest
      | φ => φ
  | .now, t =>
      match φ with
      | waking => sweeping t
      | lowered ns pod c orig _ => stamped ⟨ns, pod, c, some orig, t + r.cfg.restoreAfter⟩
      | φ => φ
  | .isThrottled key, ans => if ans then idle else unthrottled key
  | .takeCooldown key _ _, ans => if ans then acting key else idle
  | .clearCooldown _, _ => φ
  | .setThrottled key st, _ =>
      if r.stateNS = "" then announcing else ledger .waiting key (some st) []
  | .deleteThrottled key, _ =>
      match φ with
      | restored _ _ rest => if r.stateNS = "" then restoring rest else ledger .waiting key none rest
      | φ => φ
  | .dueThrottles _, due => restoring due
  | .recoverThrottled _, _ => idle
  | .lockPersist, _ =>
      match φ with
      | ledger _ k v rest => ledger .locked k v rest
      | φ => φ
  | .unlockPersist, _ =>
      match φ with
      | ledger _ _ v rest => afterLedger v rest
      | φ => φ

end Phase

/-- The protocol of the calls of a remediator. -/
def Phase.protocol (r : Remediator) : Protocol Act Resp Phase where
  allowed := Phase.allowed r
  next := Phase.next r

open Phase

variable {r : Remediator} {φ : Phase}

section Follows

attribute [local simp] protocol allowed next

theorem Phase.Free.final (h : φ.Free) : φ.Final := by
  cases φ <;> simp_all [Free, Final]

theorem stateConfigMap_follows {k : String} {v : Option ThrottleState} {rest : List ThrottleState} :
    (stateConfigMap r).Follows (protocol r) (ledger .locked k v rest) fun ans ψ ↦
      match ans with
      | .ok cm => ψ = ledger (.loaded cm) k v rest
      | .error _ => ψ = ledger .leaving k v rest := by
  refine ⟨⟨rfl, .inr (.inl ⟨k, v, rest, rfl⟩)⟩, fun ans ↦ ?_⟩
  rcases ans with (_ | _ | _) | cm
  · refine ⟨⟨rfl, k, v, rest, rfl⟩, fun ans ↦ ?_⟩
    rcases ans with (_ | _ | _) | cm
    · rfl
    · refine ⟨⟨rfl, .inr (.inr ⟨k, v, rest, rfl⟩)⟩, fun ans ↦ ?_⟩
      rcases ans with (_ | _ | _) | _ <;> rfl
    · rfl
    · rfl
  · rfl
  · rfl
  · rfl

theorem persist_follows {key : String} {st : ThrottleState} (hns : r.stateNS ≠ "") :
    (persist r key st).Follows (protocol r) (ledger .waiting key (some st) []) fun _ ψ ↦
      ψ = announcing := by
  rw [persist, if_neg hns]
  refine ⟨⟨_, _, _, rfl⟩, fun _ ↦ stateConfigMap_follows.bind fun ans ψ hψ ↦ ?_⟩
  cases ans with
  | error err => exact ⟨⟨_, _, _, .inl hψ⟩, fun _ ↦ by simp [hψ, afterLedger]⟩
  | ok cm =>
      refine ⟨⟨rfl, cm, key, some st, [], hψ, rfl, nofun⟩, fun _ ↦ ⟨⟨key, some st, [], .inl ?_⟩, fun _ ↦ ?_⟩⟩
      · simp [hψ]
      · simp [hψ, afterLedger]

theorem forget_follows {key : String} {rest : List ThrottleState} (hns : r.stateNS ≠ "") :
    (forget r key).Follows (protocol r) (ledger .waiting key none rest) fun _ ψ ↦
      ψ = restoring rest := by
  rw [forget, if_neg hns]
  refine ⟨⟨_, _, _, rfl⟩, fun _ ↦ stateConfigMap_follows.bind fun ans ψ hψ ↦ ?_⟩
  cases ans with
  | error err => exact ⟨⟨_, _, _, .inl hψ⟩, fun _ ↦ by simp [hψ, afterLedger]⟩
  | ok cm =>
      dsimp only
      split
      · next hk =>
          exact ⟨⟨key, none, rest, .inr ⟨cm, hψ, rfl, hk⟩⟩, fun _ ↦ by
            simp [hψ, afterLedger]⟩
      · next hk =>
          refine ⟨⟨rfl, cm, key, none, rest, hψ, rfl, fun _ ↦ not_not.mp hk⟩, fun _ ↦
            ⟨⟨key, none, rest, .inl ?_⟩, fun _ ↦ ?_⟩⟩
          · simp [hψ]
          · simp [hψ, afterLedger]

/-- The phases in which the target `t` is being acted on and nothing is done yet. -/
def Phase.At (t : Target ℚ) (φ : Phase) : Prop := φ = acting t.key ∨ ∃ p, φ = read t.ns t.pod p

theorem Phase.At.free {t : Target ℚ} (h : At t φ) : φ.Free := by
  rcases h with rfl | ⟨_, rfl⟩ <;> trivial

theorem emitEvent_follows_announcing {t : Target ℚ} {m : Message} :
    (emitEvent t m).Follows (protocol r) announcing fun _ ψ ↦ ψ = announcing :=
  ⟨.inr (.inl rfl), fun _ ↦ ⟨by simp, fun _ ↦ ⟨.inl rfl, fun _ ↦ rfl⟩⟩⟩

theorem emitEvent_follows_restored {t : Target ℚ} {m : Message} {st : ThrottleState}
    {rest : List ThrottleState} :
    (emitEvent t m).Follows (protocol r) (restored true st rest) fun _ ψ ↦ ψ = restored true st rest :=
  ⟨.inr (.inr (.inr (.inr ⟨st, rest, rfl⟩))), fun _ ↦ ⟨by simp,
    fun _ ↦ ⟨.inr (.inl ⟨st, rest, rfl⟩), fun _ ↦ rfl⟩⟩⟩

theorem emitEvent_follows_at {t : Target ℚ} {m : Message} (hdry : r.cfg.dryRun = false)
    (hφ : At t φ) : (emitEvent t m).Follows (protocol r) φ fun _ ψ ↦ At t ψ := by
  have tail : ∀ ψ, At t ψ → ∀ ev : Time → Event,
      (perform .now >>= fun now ↦ perform (.createEvent (ev now))).Follows (protocol r) ψ
        fun _ ψ ↦ At t ψ := by
    rintro ψ (rfl | ⟨p, rfl⟩) ev
    · exact ⟨by simp, fun _ ↦ ⟨by simp [hdry],
        fun _ ↦ .inl rfl⟩⟩
    · exact ⟨by simp, fun _ ↦ ⟨by simp [hdry],
        fun _ ↦ .inr ⟨p, rfl⟩⟩⟩
  refine Prog.follows_perform.mpr ⟨?_, fun ans ↦ tail _ ?_ _⟩
  · rcases hφ with rfl | ⟨p, rfl⟩
    · exact .inr (.inr (.inl rfl))
    · exact .inr (.inr (.inr (.inl ⟨p, rfl⟩)))
  · rcases hφ with rfl | ⟨p, rfl⟩ <;> rcases ans with _ | p' <;> simp [At]

theorem throttle_follows {t : Target ℚ} {why : Why} (hres : r.cfg.resize = true)
    (hdry : r.cfg.dryRun = false) (hns : r.allows t.ns = true) :
    (throttle r t why).Follows (protocol r) (acting t.key) fun done ψ ↦
      if done then ψ = announcing else At t ψ := by
  refine Prog.follows_perform.mpr ⟨.inr (.inr (.inl rfl)), fun ans ↦ ?_⟩
  cases ans with
  | error err => exact .inl rfl
  | ok pod =>
      cases hroom : pod.room t.container with
      | none => simp only [hroom]; exact .inr ⟨pod, rfl⟩
      | some lr =>
          obtain ⟨limit, request⟩ := lr
          simp only [hroom]
          refine Prog.follows_perform.mpr
            ⟨⟨pod, limit, request, rfl, hroom, rfl, hres, hdry, hns⟩, fun ans ↦ ?_⟩
          cases ans with
          | error err => exact .inr ⟨pod, rfl⟩
          | ok _ =>
              have hlow : (protocol r).next ((protocol r).next (acting t.key) (.getPod t.ns t.pod)
                  (.ok pod)) (.patchCPULimit .throttle t.ns t.pod t.container request.string)
                  (.ok ()) = lowered t.ns t.pod t.container limit request := by
                simp [hroom]
              rw [hlow]
              refine Prog.follows_perform.mpr ⟨by simp, fun now ↦ ?_⟩
              refine Prog.follows_perform.mpr ⟨⟨rfl, rfl⟩, fun _ ↦ ?_⟩
              refine Prog.Follows.bind (Q := fun _ ψ ↦ ψ = announcing) ?_ fun _ ψ hψ ↦ ?_
              · by_cases hst : r.stateNS = ""
                · simp [persist, hst]
                · simpa [hst] using persist_follows hst
              · subst hψ
                exact emitEvent_follows_announcing.bind fun _ ψ hψ ↦ hψ

/-- What is left to do once no throttle has taken effect. -/
theorem eventTier_follows {t : Target ℚ} {why : Why} (hdry : r.cfg.dryRun = false) (hφ : At t φ) :
    (eventTier t why).Follows (protocol r) φ fun _ ψ ↦ ψ.Free := by
  refine (emitEvent_follows_at hdry hφ).bind fun ans ψ hψ ↦ ?_
  cases ans with
  | ok u => exact hψ.free
  | error err =>
      refine ⟨?_, fun _ ↦ hψ.free⟩
      rcases hψ with rfl | ⟨p, rfl⟩
      · exact .inl rfl
      · exact .inr ⟨_, _, p, rfl, rfl⟩

theorem act_follows {t : Target ℚ} {s : Snapshot ℚ} (hns : r.allows t.ns = true) :
    (act r t s).Follows (protocol r) (acting t.key) fun _ ψ ↦ ψ.Free := by
  rw [act_eq]
  split
  · trivial
  · next hdry =>
      rw [Bool.not_eq_true] at hdry
      split
      · next hif =>
          rw [Bool.and_eq_true] at hif
          refine (throttle_follows hif.1 hdry hns).bind fun done ψ hψ ↦ ?_
          cases done with
          | true => simp only [if_true] at hψ ⊢; subst hψ; trivial
          | false => exact eventTier_follows hdry hψ
      · exact eventTier_follows hdry (.inl rfl)

theorem remediateOne_follows {t : Target ℚ} {s : Snapshot ℚ} (hφ : φ.Free) :
    (remediateOne r s t).Follows (protocol r) φ fun _ ψ ↦ ψ.Free := by
  unfold remediateOne
  split
  · exact hφ
  · next hns =>
      refine ⟨hφ, fun thr ↦ ?_⟩
      cases thr with
      | true => trivial
      | false =>
          refine ⟨by simp, fun now ↦ ⟨by simp,
            fun ok ↦ ?_⟩⟩
          cases ok with
          | false => trivial
          | true => exact act_follows (by simpa using hns)

/-- `Remediate` follows the protocol. -/
theorem remediate_follows {s : Snapshot ℚ} :
    (remediate r s).Follows (protocol r) idle fun _ ψ ↦ ψ.Final :=
  (Prog.Follows.forM (I := fun _ ψ ↦ ψ.Free) (fun _ _ _ h ↦ remediateOne_follows h) trivial).mono
    fun _ _ h ↦ h.final

theorem restoreOne_follows {st : ThrottleState} {rest : List ThrottleState} :
    (restoreOne r st).Follows (protocol r) (restoring (st :: rest)) fun _ ψ ↦
      ψ = restoring rest := by
  refine Prog.Follows.bind (Q := fun done ψ ↦
    if done then ∃ l, ψ = restored l st rest else ψ = restoring rest) ?_ fun done ψ hψ ↦ ?_
  · refine ⟨⟨rest, rfl, rfl, rfl, rfl, rfl⟩, fun ans ↦ ?_⟩
    rcases ans with (_ | _ | _) | _
    · exact ⟨false, rfl⟩
    · rfl
    · rfl
    · exact emitEvent_follows_restored.bind fun _ ψ hψ ↦ ⟨true, hψ⟩
  · cases done with
    | false => exact hψ
    | true =>
        simp only [if_true] at hψ
        obtain ⟨l, rfl⟩ := hψ
        refine Prog.follows_perform.mpr ⟨⟨l, st, rest, rfl, rfl⟩, fun _ ↦ ?_⟩
        by_cases hst : r.stateNS = ""
        · simp [forget, hst]
        · simpa [hst] using forget_follows hst

/-- `restoreDue` follows the protocol; at its end no due record is left to handle. -/
theorem restoreDue_follows :
    (restoreDue r).Follows (protocol r) waking fun _ ψ ↦ ψ = restoring [] :=
  ⟨.inl rfl, fun _ ↦ ⟨rfl, fun _ ↦ Prog.Follows.forM (I := fun rest ψ ↦ ψ = restoring rest)
    (fun _ _ _ h ↦ h ▸ restoreOne_follows) rfl⟩⟩

/-- `Recover` follows the protocol. -/
theorem recover_follows (hns : r.stateNS ≠ "") :
    (recover r).Follows (protocol r) starting fun _ ψ ↦ ψ = idle := by
  rw [recover, if_neg hns]
  refine ⟨⟨rfl, .inl rfl⟩, fun ans ↦ ?_⟩
  cases ans with
  | error err => rfl
  | ok cm => exact ⟨rfl, fun _ ↦ rfl⟩

end Follows
