import NodeSentinel.Controller.Records
import NodeSentinel.Controller.Sequential

/-!
# A cancelled report

`handleReport` passes the context of the HTTP request down to every API call of
`Remediate`, those of `persist` included.  Once it is cancelled no further container is
lowered, and every container that was lowered gets its record in memory.  On the ledger
all of them are found but the one, if any, that the cancellation caught between its
patch and its ledger update: `persist` is best effort, and its failure is only logged.
-/

open Function (update)

/-- The record of the throttle `x`, to be lifted at `t`. -/
def LimitChange.record (x : LimitChange) (t : Time) : ThrottleState :=
  ⟨x.ns, x.pod, x.container, x.old, t⟩

/-- The call has made the throttle `x`, and its ledger update is still to come. -/
def Phase.Gap (x : LimitChange) (s : Phase) : Prop :=
  (∃ limit, x.old = some limit ∧ s.Holds x.ns x.pod x.container limit) ∨
    ∃ t, s.Pending (podKey x.ns x.pod) (some (x.record t))

/-- What a report knows when nothing but its own throttles changes the cluster. -/
def Phase.Reports (w : World) : Phase → Prop
  | read ns name p => w.cluster.pod ns name = some p
  | waking | starting | sweeping _ | restoring _ | restored _ _ _ | recovering _ => False
  | ledger _ _ v _ => v ≠ none
  | _ => True

/-- Every throttle of the report is recorded, or about to be. -/
structure Noted (w : World) (s : Phase) : Prop where
  reports : s.Reports w
  noted : ∀ {x}, .throttled x ∈ w.history → PodName x.ns x.pod ∧
    ((∃ t, w.throttled.lookup (podKey x.ns x.pod) = some (x.record t)) ∨
      ∃ limit, x.old = some limit ∧ s.Holds x.ns x.pod x.container limit)

namespace Noted

variable {r : Remediator} {pol : Policy} {w w' : World} {s ψ : Phase} {e : Act}

theorem move (h : Noted w s) (hT : w'.throttled = w.throttled) (hH : w'.history = w.history)
    (hψ : ψ.Reports w')
    (hh : ∀ {ns pod k limit}, s.Holds ns pod k limit → ψ.Holds ns pod k limit) : Noted w' ψ where
  reports := hψ
  noted hx := by
    obtain ⟨hn, hx'⟩ := h.noted (hH ▸ hx)
    exact ⟨hn, hx'.imp (fun ⟨t, ht⟩ ↦ ⟨t, hT ▸ ht⟩) fun ⟨l, hl, hs⟩ ↦ ⟨l, hl, hh hs⟩⟩

/-- Every transition of a report that runs alone keeps its throttles noted. -/
theorem act (h : Noted w s) (ha : s.Alone w) (hx : Phase.Trans r pol w s e w' ψ) :
    Noted w' ψ := by
  have free : ∀ {s' : Phase}, s.Free → s'.Reports w → Noted w s' := fun hf hs' ↦
    h.move rfl rfl hs' fun h' ↦ (hf.not_holds h').elim
  have hr := h.reports
  cases hx with
  | stay | clearCooldown | event => exact h.move rfl rfl hr id
  | skip _ hf => exact free hf trivial
  | unthrottled _ hf => exact free hf trivial
  | cooldown => exact h.move rfl rfl trivial fun h' ↦
      (Phase.Free.not_holds (φ := .unthrottled _) trivial h').elim
  | read hat hp =>
      refine free ?_ hp
      rcases hat with rfl | ⟨_, rfl⟩ <;> trivial
  | @lower ns name p p' c limit request _ _ _ _ hroom hp hc =>
      obtain rfl := Option.some.inj (hr.symm.trans hp)
      obtain ⟨d, hd, hlim, -⟩ := Pod.room_eq_some hroom
      obtain rfl := Option.some.inj (hd.symm.trans hc)
      refine ⟨trivial, fun {x} hx ↦ ?_⟩
      rcases List.mem_cons.mp hx with hx | hx
      · obtain rfl := Change.throttled.inj hx
        exact ⟨w.cluster.podName hp, .inr ⟨limit, hlim, .inl ⟨request, rfl⟩⟩⟩
      · obtain ⟨hn, hx'⟩ := h.noted hx
        refine ⟨hn, .inl (hx'.resolve_right ?_)⟩
        rintro ⟨l, -, hs⟩
        exact Phase.Free.not_holds (φ := .read _ _ _) trivial hs
  | stamp ns pod k orig request =>
      refine h.move rfl rfl trivial ?_
      rintro _ _ _ _ (⟨_, h'⟩ | ⟨_, h'⟩)
      · cases h'
        exact .inr ⟨_, rfl⟩
      · cases h'
  | record st =>
      refine ⟨?_, fun {x} hx ↦ ?_⟩
      · split
        · trivial
        · exact nofun
      · obtain ⟨hn, hx'⟩ := h.noted ((List.mem_cons.mp hx).resolve_left nofun)
        refine ⟨hn, .inl ?_⟩
        rcases hx' with ⟨t, ht⟩ | ⟨l, hl, ⟨_, hs⟩ | ⟨t, hs⟩⟩
        · refine ⟨t, (Finmap.lookup_insert_of_ne _ fun hk ↦ ?_).trans ht⟩
          rw [hk, show w.throttled.lookup st.key = none from ha] at ht
          cases ht
        · cases hs
        · obtain rfl := Phase.stamped.inj hs
          exact ⟨t, by rw [LimitChange.record, hl]; exact Finmap.lookup_insert _⟩
  | lock | load | miss | create | race | abandon | write | writeFails =>
      refine h.move rfl rfl hr ?_
      rintro _ _ _ _ (⟨_, h'⟩ | ⟨_, h'⟩) <;> cases h'
  | @unlock _ _ v =>
      refine h.move rfl rfl ?_ ?_
      · cases v with
        | none => exact absurd rfl hr
        | some st => trivial
      · rintro _ _ _ _ (⟨_, h'⟩ | ⟨_, h'⟩) <;> cases h'
  | sweep | collect | lift | gone | keep | drop | begin | begin_none | recover => exact hr.elim

end Noted

/-- A report whose context is live. -/
structure Serving (r : Remediator) (w : World) (φ : Unit → Phase) : Prop where
  live : w.cancelled = false
  tracked : Tracked (fun _ ↦ True) r w φ
  alone : (φ ()).Alone w
  noted : Noted w (φ ())
  fresh : ∀ {k st}, (φ ()).Pending k (some st) → (w.ledger r).lookup (cmKey k) = none

/-- A report whose context was cancelled in the world `w₁`. -/
structure Abandoned (r : Remediator) (w₁ w : World) (s : Phase) : Prop where
  dead : w.cancelled = true
  alone : s.Alone w
  keyed : w.Keyed
  noted : Noted w s
  ledger : w.ledger r = w₁.ledger r
  records : ∀ {k st}, w₁.throttled.lookup k = some st → w.throttled.lookup k = some st
  throttled : ∀ {x}, .throttled x ∈ w.history → .throttled x ∈ w₁.history

/-- One report, whose context may be cancelled. -/
def oneReport : Scenario Unit where
  pol := .untilCancelled
  calls _ _ := false
  moves _ m := match m with
    | .tick _ => true
    | _ => false

namespace Serving

variable {r : Remediator} {w w' : World} {φ : Unit → Phase} {ψ : Phase}

theorem act (h : Serving r w φ) (hns : r.stateNS ≠ "") {e : Act} {s : Phase} (hφ : φ () = s)
    (hx : Phase.Trans r .untilCancelled w s e w' ψ) : Serving r w' (update φ () ψ) := by
  have hup : update φ () ψ () = ψ := Function.update_self ..
  have ha := h.alone
  have hn := h.noted
  rw [hφ] at ha hn
  have hkeyed : w.Keyed := fun hst ↦ (h.tracked.keyed hst).2.1
  have hx' : Phase.Trans r .reliable w s e w' ψ := hx.mono fun ok hok ↦ by
    simpa [Policy.untilCancelled, h.live] using hok
  have hg : writesInOrder (fun _ ↦ True) w φ () e := by
    cases e with
    | updateConfigMap => exact fun k v hp ↦ .inl (h.alone.eq_lookup hp)
    | _ => trivial
  have hf : ∀ k st, s.Pending k (some st) → (w.ledger r).lookup (cmKey k) = none :=
    fun k st hp ↦ h.fresh (hφ ▸ hp)
  refine ⟨?_, h.tracked.act hns hφ hg hx', hup ▸ hx.alone hkeyed ha, hup ▸ hn.act ha hx, ?_⟩
  · cases hx <;> exact h.live
  · rw [hup]
    intro k st hp
    cases hx with
    | stay | clearCooldown | event => exact hf k st hp
    | record st' =>
        rw [if_neg hns, Phase.pending_ledger] at hp
        obtain ⟨-, rfl, -⟩ := hp
        have ht := h.tracked.tracks ()
        rw [hφ] at ht
        change (w.ledger r).lookup (cmKey st'.key) = none
        rw [h.tracked.lookup_ledger ht.isPodKey fun _ ↦ hφ ▸ id, ha, Option.map_none]
    | drop _ st' rest => exact hn.reports.elim
    | lock => exact hf k st ⟨by simp, hp.2⟩
    | load _ _ hs => exact hf k st ⟨by rcases hs with rfl | rfl <;> simp, hp.2⟩
    | miss => exact hf k st ⟨by simp, hp.2⟩
    | race => exact hf k st ⟨by simp, hp.2⟩
    | create _ _ hcm => rw [World.ledger_update, Finmap.lookup_empty]
    | abandon => exact absurd rfl hp.1
    | write => exact absurd rfl hp.1
    | writeFails => exact absurd rfl hp.1
    | @unlock _ _ v => cases v <;> exact hp.elim
    | _ => exact hp.elim

theorem isInductive (hns : r.stateNS ≠ "") :
    System.Inductive (oneReport.system r) (Phase.protocol r) Phase.Final (Serving r) := by
  refine Scenario.inductive_final (fun _ _ hcall ↦ nomatch hcall)
    (fun h _ hx ↦ h.act hns rfl hx) (fun {c m c'} h hm hap ↦ ?_)
  cases m with
  | tick t =>
      obtain ⟨-, rfl⟩ := Move.apply_tick hap
      exact ⟨h.live, h.tracked.tick t, h.alone.congr rfl, h.noted.move rfl rfl h.noted.reports id,
        h.fresh⟩
  | _ => cases hm

end Serving

namespace Abandoned

variable {r : Remediator} {w₁ w w' : World} {s ψ : Phase}

theorem act (h : Abandoned r w₁ w s) {e : Act}
    (hx : Phase.Trans r .untilCancelled w s e w' ψ) : Abandoned r w₁ w' ψ := by
  have hdead : Policy.untilCancelled w true = false := by simp [Policy.untilCancelled, h.dead]
  refine ⟨?_, hx.alone h.keyed h.alone, hx.keyed h.keyed, h.noted.act h.alone hx, ?_, ?_, ?_⟩
  · cases hx <;> exact h.dead
  · cases hx with
    | create _ hpol => exact absurd (hdead.symm.trans hpol) Bool.false_ne_true
    | write hpol => exact absurd (hdead.symm.trans hpol) Bool.false_ne_true
    | _ => exact h.ledger
  · cases hx with
    | record st =>
        intro k st' hk
        have hk' := h.records hk
        refine (Finmap.lookup_insert_of_ne _ fun he ↦ ?_).trans hk'
        have hnone : w.throttled.lookup st.key = none := h.alone
        rw [he, hnone] at hk'
        cases hk'
    | drop | recover => exact h.noted.reports.elim
    | _ => exact h.records
  · cases hx with
    | lower hpol => exact absurd (hdead.symm.trans hpol) Bool.false_ne_true
    | lift hpol => exact absurd (hdead.symm.trans hpol) Bool.false_ne_true
    | record st => exact fun hx ↦ h.throttled ((List.mem_cons.mp hx).resolve_left (by simp))
    | _ => exact h.throttled

theorem isInductive (r : Remediator) (w₁ : World) :
    System.Inductive (oneReport.system r) (Phase.protocol r) Phase.Final
      fun w φ ↦ Abandoned r w₁ w (φ ()) := by
  refine Scenario.inductive_final (fun _ _ hcall ↦ nomatch hcall)
    (fun {w φ i e w' ψ} h _ hx ↦ ?_) (fun {c m c'} h hm hap ↦ ?_)
  · simpa using h.act hx
  · cases m with
    | tick t =>
        obtain ⟨-, rfl⟩ := Move.apply_tick hap
        exact ⟨h.dead, h.alone.congr rfl, h.keyed, h.noted.move rfl rfl h.noted.reports id,
          h.ledger, h.records, h.throttled⟩
    | _ => cases hm

/-- What the cancellation leaves. -/
theorem ledger_entry {φ₁ : Unit → Phase} (h₁ : Serving r w₁ φ₁) (h : Abandoned r w₁ w s)
    (hs : s.Final) {x : LimitChange} (hx : .throttled x ∈ w.history) :
    ∃ t, w.throttled.lookup (podKey x.ns x.pod) = some (x.record t) ∧
      (¬ (φ₁ ()).Gap x →
        (w.ledger r).lookup (cmKey (podKey x.ns x.pod)) = some (x.record t).raw) ∧
      ((φ₁ ()).Gap x → (w.ledger r).lookup (cmKey (podKey x.ns x.pod)) = none) := by
  obtain ⟨hn, hrec⟩ := h.noted.noted hx
  obtain ⟨t, ht⟩ := hrec.resolve_right fun ⟨_, _, hh⟩ ↦ by
    rcases hh with ⟨_, rfl⟩ | ⟨_, rfl⟩ <;> exact hs
  refine ⟨t, ht, ?_⟩
  rw [h.ledger]
  -- while the container is held it has no record, so nothing is on the ledger for its pod
  have hheld : ∀ {limit}, (φ₁ ()).Holds x.ns x.pod x.container limit →
      w₁.throttled.lookup (podKey x.ns x.pod) = none ∧
        (w₁.ledger r).lookup (cmKey (podKey x.ns x.pod)) = none := by
    intro limit hh
    have ha := h₁.alone
    have hnone : w₁.throttled.lookup (podKey x.ns x.pod) = none := by
      rcases hh with ⟨_, hh⟩ | ⟨_, hh⟩ <;> rw [hh] at ha <;> exact ha
    refine ⟨hnone, ?_⟩
    rw [h₁.tracked.lookup_ledger hn.isPodKey fun v hp ↦ ?_, hnone, Option.map_none]
    rcases hh with ⟨_, hh⟩ | ⟨_, hh⟩ <;> rw [hh] at hp <;> exact hp
  obtain ⟨-, hrec₁⟩ := h₁.noted.noted (h.throttled hx)
  rcases hrec₁ with ⟨t₁, ht₁⟩ | ⟨limit, hl, hh⟩
  · obtain rfl : t₁ = t :=
      congrArg ThrottleState.restoreAt (Option.some.inj ((h.records ht₁).symm.trans ht))
    constructor
    · intro hgap
      rcases h₁.tracked.synced hn.isPodKey with hl | ⟨i, hp⟩
      · rw [hl, ht₁, Option.map_some]
      · exact (hgap (.inr ⟨t₁, ht₁ ▸ hp⟩)).elim
    · rintro (⟨limit, -, hh⟩ | ⟨t', hp⟩)
      · exact absurd ((hheld hh).1.symm.trans ht₁) nofun
      · exact h₁.fresh hp
  · exact ⟨fun hgap ↦ (hgap (.inl ⟨limit, hl, hh⟩)).elim, fun _ ↦ (hheld hh).2⟩

end Abandoned

/-! ## The result -/

/-- A report arrives. -/
def World.reporting (w : World) (r : Remediator) (s : Snapshot ℚ) : State Unit :=
  ⟨w, fun _ ↦ .idle, fun _ ↦ remediate r s⟩

/-- The context of the call in flight is cancelled. -/
def World.cancel (w : World) : World := { w with cancelled := true }

/-- When a report whose context is cancelled at some point returns, every container it
lowered is recorded; and it is on the ledger if, and only if, the cancellation did not
fall between its patch and its ledger update. -/
theorem cancelled_recorded {r : Remediator} (hns : r.stateNS ≠ "") {w : World} (hw : Agree r w)
    (hh : w.history = []) (hc : w.cancelled = false) {s : Snapshot ℚ} {c₁ c₂ : State Unit}
    (h₁ : (oneReport.system r).Reachable (w.reporting r s) c₁)
    (h₂ : (oneReport.system r).Reachable { c₁ with world := c₁.world.cancel } c₂)
    (hq : c₂.Quiet) {x : LimitChange} (hx : .throttled x ∈ c₂.world.history) :
    ∃ t, c₂.world.throttled.lookup (podKey x.ns x.pod) = some (x.record t) ∧
      (¬ (c₁.phase ()).Gap x →
        (c₂.world.ledger r).lookup (cmKey (podKey x.ns x.pod)) = some (x.record t).raw) ∧
      ((c₁.phase ()).Gap x →
        (c₂.world.ledger r).lookup (cmKey (podKey x.ns x.pod)) = none) := by
  have hserve : Serving r w fun _ ↦ .idle :=
    ⟨hc, .of_agree hw (fun _ _ ↦ trivial) fun _ ↦ rfl, trivial, ⟨trivial, by simp [hh]⟩, nofun⟩
  have hi₁ := System.Invariant.reachable (Serving.isInductive hns)
    (c := w.reporting r s) ⟨hserve, fun _ ↦ remediate_follows⟩ h₁
  have hg₁ := hi₁.global
  have habandon : Abandoned r c₁.world c₁.world.cancel (c₁.phase ()) :=
    ⟨rfl, hg₁.alone.congr rfl, fun hst ↦ (hg₁.tracked.keyed hst).2.1,
      hg₁.noted.move rfl rfl hg₁.noted.reports id, rfl, id, id⟩
  have hi₂ := System.Invariant.reachable (Abandoned.isInductive r c₁.world)
    (c := { c₁ with world := c₁.world.cancel }) ⟨habandon, hi₁.follows⟩ h₂
  exact hi₂.global.ledger_entry hg₁ (hi₂.quiet hq ()) hx

/-! ## Two cancellations -/

/-- The report of the pod of `Cluster.web`, as it arrives. -/
def webReporting : State Unit :=
  (World.fresh .web).reporting webRemediator (.ofLabels ["web/a/app"])

/-- `n` actions are taken, then the context is cancelled, and `m` more are taken, their API
calls failing. -/
def cancelRun (n m : ℕ) (p : State Unit → State Unit → Bool) : Bool :=
  (oneReport.run webRemediator (fun _ _ _ _ ↦ true) (Cmd.acts () n) webReporting).any fun c₁ ↦
    (oneReport.run webRemediator (fun _ _ _ _ ↦ true) (List.replicate m (.act () { ok := false }))
      { c₁ with world := c₁.world.cancel }).any (p c₁)

theorem exists_of_cancelRun {n m : ℕ} {p : State Unit → State Unit → Bool} (h : cancelRun n m p) :
    ∃ c₁ c₂, (oneReport.system webRemediator).Reachable webReporting c₁ ∧
      (oneReport.system webRemediator).Reachable { c₁ with world := c₁.world.cancel } c₂ ∧
      p c₁ c₂ := by
  obtain ⟨c₁, h₁, h⟩ := Scenario.exists_reachable oneReport webRemediator (fun _ _ _ _ ↦ true)
    (fun _ _ _ _ _ ↦ trivial) _ _ (fun c₁ ↦ (oneReport.run webRemediator (fun _ _ _ _ ↦ true)
      (List.replicate m (.act () { ok := false })) { c₁ with world := c₁.world.cancel }).any (p c₁))
    (by simpa [cancelRun] using h)
  obtain ⟨c₂, h₂, hp⟩ := Scenario.exists_reachable oneReport webRemediator (fun _ _ _ _ ↦ true)
    (fun _ _ _ _ _ ↦ trivial) _ _ (fun c₂ ↦ p c₁ c₂) (by simpa using h)
  exact ⟨c₁, c₂, h₁, h₂, hp⟩

/-- Cancelled after the ledger section, before the Event: the throttle is recorded and on
the ledger. -/
theorem cancelledAfterPersist_recorded :
    ∃ c₁ c₂ : State Unit, (oneReport.system webRemediator).Reachable webReporting c₁ ∧
      (oneReport.system webRemediator).Reachable { c₁ with world := c₁.world.cancel } c₂ ∧
      c₂.Quiet ∧
      ∃ t, c₂.world.throttled.lookup (podKey "web" "a") = some (webRecord t) ∧
        (c₂.world.ledger webRemediator).lookup (cmKey (podKey "web" "a")) =
          some (webRecord t).raw := by
  obtain ⟨c₁, c₂, h₁, h₂, hp⟩ := exists_of_cancelRun (n := 12) (m := 3)
    (p := fun c₁ c₂ ↦ (match c₁.phase () with | .announcing => true | _ => false) &&
      decide ((∀ i, (c₂.prog i).isPure) ∧ Change.throttled webThrottle ∈ c₂.world.history))
    (by decide +kernel)
  rw [Bool.and_eq_true, decide_eq_true_iff] at hp
  obtain ⟨hphase, hq, hx⟩ := hp
  have hgap : ¬ (c₁.phase ()).Gap webThrottle := by
    rintro (⟨_, -, ⟨_, hs⟩ | ⟨_, hs⟩⟩ | ⟨_, hs⟩)
    · rw [hs] at hphase; cases hphase
    · rw [hs] at hphase; cases hphase
    · cases hφ : c₁.phase () <;> simp_all [Phase.Pending]
  have hq := Configuration.quiet_of_isPure hq
  obtain ⟨t, ht, hl, -⟩ := cancelled_recorded (by decide) (.fresh webRemediator .web) rfl rfl
    h₁ h₂ hq hx
  exact ⟨c₁, c₂, h₁, h₂, hq, t, ht, hl hgap⟩

/-- Cancelled right after the patch: the limit is lowered, and nothing is on the ledger. -/
theorem cancelledAfterPatch_not_saved :
    ¬ ∀ c₁ c₂ : State Unit, (oneReport.system webRemediator).Reachable webReporting c₁ →
      (oneReport.system webRemediator).Reachable { c₁ with world := c₁.world.cancel } c₂ →
      c₂.Quiet → ∀ x, .throttled x ∈ c₂.world.history →
        c₂.world.throttled.lookup (podKey x.ns x.pod) ≠ none ∧
          (c₂.world.ledger webRemediator).lookup (cmKey (podKey x.ns x.pod)) ≠ none := by
  intro h
  obtain ⟨c₁, c₂, h₁, h₂, hp⟩ := exists_of_cancelRun (n := 5) (m := 8)
    (p := fun _ c₂ ↦ decide ((∀ i, (c₂.prog i).isPure) ∧
      Change.throttled webThrottle ∈ c₂.world.history ∧
      (c₂.world.ledger webRemediator).lookup (cmKey (podKey "web" "a")) = none))
    (by decide +kernel)
  obtain ⟨hq, hx, hl⟩ := of_decide_eq_true hp
  exact (h c₁ c₂ h₁ h₂ (Configuration.quiet_of_isPure hq) webThrottle hx).2 hl
