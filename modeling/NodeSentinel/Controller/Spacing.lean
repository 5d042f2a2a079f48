import NodeSentinel.Controller.Turn

/-!
# Cooldown spacing

The cooldown of a pod is taken before the action and given back when the action fails, and throttles
are recorded apart from it.  Whatever fails and however often a report names a pod, actions that
succeed are spaced by the cooldown, no pod is acted on under a throttle, and only an action that
succeeded turns a pod away.
-/

open Function (update)

/-- A state of the controller. -/
abbrev ControllerState := Configuration (Option Unit) Gate Act Resp World

/-- A step in which an action on the pod of a key succeeds. -/
def ActedOnKey (c c' : ControllerState) (key : String) : Prop :=
  ∃ ns pod, podKey ns pod = key ∧ ActedOn c c' ns pod

/-- A step in which the last action that `act` tries on the pod of a key fails. -/
def FailedOn (c c' : ControllerState) (key : String) : Prop :=
  ∃ i ev k err, c.prog i = .act (.createEvent ev) k ∧
    Exec .unreliable (.createEvent ev) c.world (.error err) c'.world ∧
    c' = ⟨c'.world, update c.phase i (Gate.next (c.phase i) (.createEvent ev) (.error err)),
      update c.prog i (k (.error err))⟩ ∧
    ∃ ns pod, (Act.createEvent ev).acted? = some (ns, pod) ∧ podKey ns pod = key

/-- A check of the report that is handled turns the pod of a key away. -/
def TurnedAway (c : ControllerState) (key : String) : Prop :=
  ∃ e k, c.prog (some ()) = .act e k ∧
    (e = .isThrottled key ∧ (c.world.throttled.lookup key).isSome ∨
      ∃ now cooldown, e = .takeCooldown key now cooldown ∧
        (c.world.takeCooldown key now cooldown).1 = false)

/-- The handling of a snapshot that starts in `c₀` has come to `c`, and no other call has started. -/
def Handling (r : Remediator) (s : Snapshot ℚ) (c₀ c : ControllerState) : Prop :=
  (policySystem none).Reachable { c₀ with
    phase := update c₀.phase (some ()) .idle
    prog := update c₀.prog (some ()) (remediate r s) } c

/-- What the cooldown guarantees from the start of the process on.  The time of an action is the one
that `takeCooldown` records. -/
structure KeepsCooldown (r : Remediator) (w : World) : Prop where
  /-- Actions that succeed on a pod are the cooldown apart. -/
  apart : ∀ c₁ c₁' c₂ c₂' key, (policySystem (some r)).Reachable (launch w) c₁ →
    ActedOnKey c₁ c₁' key → (policySystem (some r)).Reachable c₁' c₂ → ActedOnKey c₂ c₂' key →
    ∃ t₁ t₂, c₁.world.lastActed key = some t₁ ∧ t₁ ≤ c₁.world.clock ∧
      c₂.world.lastActed key = some t₂ ∧ t₂ ≤ c₂.world.clock ∧ t₁ + r.cfg.cooldown ≤ t₂
  /-- Two of one report take it at least the cooldown. -/
  once : ∀ c₀ s c₁ c₁' c₂ c₂' key, (policySystem (some r)).Reachable (launch w) c₀ →
    c₀.prog (some ()) = .pure ⟨⟩ → Handling r s c₀ c₁ → ActedOnKey c₁ c₁' key →
    (policySystem none).Reachable c₁' c₂ → ActedOnKey c₂ c₂' key →
    c₀.world.clock + r.cfg.cooldown ≤ c₂.world.clock
  /-- No action is tried while a throttle is recorded. -/
  unthrottled : ∀ c, (policySystem (some r)).Reachable (launch w) c → ∀ i e k ns pod,
    c.prog i = .act e k → e.acted? = some (ns, pod) → c.world.throttled.lookup (podKey ns pod) = none
  /-- After a failure the pod is turned away only where an action has succeeded since. -/
  unblocked : ∀ c₁ c₁' c₂ key, (policySystem (some r)).Reachable (launch w) c₁ →
    FailedOn c₁ c₁' key → (policySystem (some r)).Reachable c₁' c₂ → TurnedAway c₂ key →
    ∃ c c', (policySystem (some r)).Reachable c₁' c ∧ ActedOnKey c c' key ∧
      (policySystem (some r)).Reachable c' c₂

/-! ## What the checks of a report find -/

section

open Turn

variable {r : Remediator} {w w' : World} {φ : Option Unit → Turn} {i : Option Unit} {e : Act}
  {ans : Resp e} {ψ : Turn} {key : String}

/-- A pod that has passed the first check has no throttle on record. -/
structure Checked (w : World) (φ : Option Unit → Turn) : Prop where
  loop : φ none = .loop
  unthrottled : ∀ key, φ (some ()) = .free key ∨ φ (some ()) = .acting key →
    w.throttled.lookup key = none

/-- No action on the pod of `key` has succeeded since one has failed. -/
structure Unblocked (key : String) (w : World) (φ : Option Unit → Turn) : Prop extends Checked w φ where
  cooldown : w.lastActed key = none ∨ φ (some ()) = .acting key
  record : w.throttled.lookup key = none
  notDone : φ (some ()) ≠ .done key

theorem Turn.acting_of_acted {φ : Turn} {ns pod : String} (ha : allowed φ e)
    (h : e.acted? = some (ns, pod)) : φ = .acting (podKey ns pod) := by
  cases e with
  | patchCPULimit => exact ha ns pod h
  | createEvent => exact ha ns pod h
  | _ => cases h

/-- The restore loop only lets records go. -/
theorem Turn.Trans.of_loop (ht : Trans w .loop e ans w' ψ) : ψ = .loop ∧
    w'.lastActed = w.lastActed ∧
      (w'.throttled = w.throttled ∨ ∃ k, w'.throttled = w.throttled.erase k) := by
  cases ht with
  | stay _ _ _ hmem => exact ⟨rfl, hmem.lastActed, .inl hmem.throttled⟩
  | skip _ _ h => exact h.elim
  | check _ _ h => exact h.elim
  | drop _ k => exact ⟨rfl, rfl, .inr ⟨k, rfl⟩⟩

namespace Checked

/-- The memory is the same, or a record is gone. -/
theorem congr (h : Checked w φ)
    (ht : w'.throttled = w.throttled ∨ ∃ k, w'.throttled = w.throttled.erase k) : Checked w' φ where
  loop := h.loop
  unthrottled key hφ := by
    rcases ht with ht | ⟨k, ht⟩
    · exact ht ▸ h.unthrottled key hφ
    · rw [ht]
      exact Finmap.lookup_erase_eq_none k (h.unthrottled key hφ)

/-- A report moves on to a pod that was found without a throttle, or past one. -/
theorem move (h : Checked w φ) (hψ : ∀ key, ψ = .free key ∨ ψ = .acting key →
    w'.throttled.lookup key = none) : Checked w' (update φ (some ()) ψ) where
  loop := by simpa using h.loop
  unthrottled key hφ := hψ key (by simpa using hφ)

theorem act (h : Checked w φ) (ht : Trans w (φ i) e ans w' ψ) : Checked w' (update φ i ψ) := by
  cases i with
  | none =>
      have hloop := h.loop
      rw [hloop] at ht
      obtain ⟨rfl, -, hthrottled⟩ := ht.of_loop
      rw [← hloop, Function.update_eq_self]
      exact h.congr hthrottled
  | some u =>
      have hunthrottled := h.unthrottled
      generalize hφ : φ (some ()) = g at ht hunthrottled
      cases ht with
      | stay _ _ _ hmem =>
          rw [← hφ, Function.update_eq_self]
          exact h.congr (.inl hmem.throttled)
      | skip => exact h.move (by simp)
      | check key _ _ hnone =>
          refine h.move fun key' hkey ↦ ?_
          obtain rfl : key = key' := by simpa using hkey
          exact hnone
      | take key =>
          refine h.move fun key' hkey ↦ ?_
          obtain rfl : key = key' := by simpa using hkey
          exact hunthrottled key (.inl rfl)
      | clear => exact h.move (by simp)
      | finish => exact h.move (by simp)
      | record => exact h.move (by simp)
      | drop _ k =>
          rw [← hφ, Function.update_eq_self]
          exact h.congr (.inr ⟨k, rfl⟩)

end Checked

namespace Unblocked

theorem act (h : Unblocked key w φ) (ht : Trans w (φ i) e ans w' ψ) :
    (∃ ns pod, podKey ns pod = key ∧ e.acted? = some (ns, pod) ∧ e.Served ans) ∨
      Unblocked key w' (update φ i ψ) := by
  have hchecked := h.toChecked.act ht
  cases i with
  | none =>
      rw [h.loop] at ht
      obtain ⟨-, hlast, hthrottled⟩ := ht.of_loop
      refine .inr ⟨hchecked, by simpa [hlast] using h.cooldown, ?_, by simpa using h.notDone⟩
      rcases hthrottled with hthrottled | ⟨k, hthrottled⟩
      · rw [hthrottled, h.record]
      · rw [hthrottled]
        exact Finmap.lookup_erase_eq_none k h.record
  | some u =>
      have hcooldown := h.cooldown
      have hdone := h.notDone
      generalize hφ : φ (some ()) = g at ht hcooldown hdone
      cases ht with
      | stay _ _ _ hmem =>
          refine .inr ⟨hchecked, ?_, by rw [hmem.throttled, h.record], by simpa using hdone⟩
          rw [hmem.lastActed]
          simpa using hcooldown
      | skip _ _ hbetween =>
          refine .inr ⟨hchecked, .inl (hcooldown.resolve_right ?_), h.record, by simp⟩
          rintro rfl
          exact hbetween
      | check k _ hbetween =>
          refine .inr ⟨hchecked, .inl (hcooldown.resolve_right ?_), h.record, by simp⟩
          rintro rfl
          exact hbetween
      | take k now =>
          refine .inr ⟨hchecked, ?_, h.record, by simp⟩
          by_cases hk : key = k
          · exact .inr (by simp [hk])
          · left
            exact (Function.update_of_ne hk ..).trans (hcooldown.resolve_right (by simp))
      | clear k =>
          refine .inr ⟨hchecked, .inl ?_, h.record, by simp⟩
          by_cases hk : key = k
          · subst hk
            exact Function.update_self ..
          · have hnone := hcooldown.resolve_right (by simpa using Ne.symm hk)
            exact (Function.update_of_ne hk ..).trans hnone
      | @finish _ ns pod _ _ hmem hacted hserved =>
          by_cases hk : podKey ns pod = key
          · exact .inl ⟨ns, pod, hk, hacted, hserved⟩
          · refine .inr ⟨hchecked, .inl ?_, by rw [hmem.throttled, h.record], by simpa using hk⟩
            rw [hmem.lastActed]
            exact hcooldown.resolve_right (by simpa using hk)
      | record k st =>
          have hk : key ≠ k := by
            rintro rfl
            exact hdone rfl
          refine .inr ⟨hchecked, .inl (hcooldown.resolve_right (by simp)), ?_, by simpa using hdone⟩
          exact (Finmap.lookup_insert_of_ne _ hk).trans h.record
      | drop _ k =>
          refine .inr ⟨hchecked, by simpa using hcooldown, ?_, by simpa using hdone⟩
          exact Finmap.lookup_erase_eq_none k h.record

end Unblocked

/-! ## Runs -/

variable {G : World → (Option Unit → Turn) → Prop} {c c' : ControllerState}

/-- A call starts where the last one of its slot has returned. -/
theorem exists_start {p : Ctl Unit} {g : Gate} (hdry : r.cfg.dryRun = false) (hG : G w φ)
    (hloop : φ none = .loop) (hidle : (φ (some ())).Final → G w (update φ (some ()) .idle))
    (hQ : (φ i).Final) (hst : (policySystem (some r)).start i p g) :
    ∃ t, G w (update φ i t) ∧ p.Follows Turn.protocol t fun _ t ↦ t.Final := by
  obtain ⟨r', hr, hst⟩ := hst
  obtain rfl := Option.some.inj hr
  cases i with
  | none =>
      refine ⟨.loop, ?_, hst.1 ▸ Turn.restoreDue_follows⟩
      rwa [← hloop, Function.update_eq_self]
  | some u =>
      obtain ⟨s, rfl, -⟩ := hst
      exact ⟨.idle, hidle hQ, Turn.remediate_follows hdry⟩

/-- What the checks have found holds in every state. -/
theorem observed_checked (hdry : r.cfg.dryRun = false) {w : World}
    (h : (policySystem (some r)).Reachable (launch w) c) :
    System.Observed Turn.protocol Turn.Final Checked c := by
  refine System.Observed.reachable (S := policySystem (some r)) ?_ ?_ ?_ ?_ h
  · exact fun hG hQ hst ↦ exists_start hdry hG hG.loop (fun _ ↦ hG.move (by simp)) hQ hst
  · exact fun hG ha hx ↦ hG.act (Turn.trans ha hx)
  · rintro c c' ⟨w', hw, rfl⟩
    exact ⟨rfl, fun φ hG ↦ hG.congr (.inl hw.throttled)⟩
  · refine ⟨fun i ↦ i.elim .loop fun _ ↦ .idle, ⟨rfl, by simp⟩, fun i ↦ ?_⟩
    cases i <;> trivial

/-- A failure unblocks the pod. -/
theorem observed_unblocked (hdry : r.cfg.dryRun = false) {w : World}
    (hc : (policySystem (some r)).Reachable (launch w) c) (h : FailedOn c c' key) :
    System.Observed Turn.protocol Turn.Final (Unblocked key) c' := by
  obtain ⟨i, ev, k, err, hi, hx, hc', ns, pod, hacted, rfl⟩ := h
  obtain ⟨φ, hG, hf⟩ := observed_checked hdry hc
  have hfi := hf i
  rw [hi, Prog.follows_act] at hfi
  have ha : Turn.allowed (φ i) (.createEvent ev) := hfi.1
  have hacting := Turn.acting_of_acted ha hacted
  cases i with
  | none => cases hG.loop.symm.trans hacting
  | some u =>
      have hmem : Gate.SameMemory c.world c'.world := Gate.sameMemory_api hx ⟨rfl, rfl, rfl⟩
      have hrecord := hG.unthrottled _ (.inr hacting)
      refine ⟨φ, ⟨hG.congr (.inl hmem.throttled), .inr hacting, by rw [hmem.throttled, hrecord],
        by simp [hacting]⟩, fun j ↦ ?_⟩
      rw [hc']
      by_cases hj : j = some ()
      · subst hj
        have hk : (k (.error err)).Follows Turn.protocol (φ (some ())) fun _ t ↦ t.Final :=
          hfi.2 (.error err)
        simpa using hk
      · simpa [hj] using hf j

/-- It stays so, until an action succeeds. -/
theorem exists_actedOnKey (hdry : r.cfg.dryRun = false)
    (hc : System.Observed Turn.protocol Turn.Final (Unblocked key) c)
    (h : (policySystem (some r)).Reachable c c') :
    (∃ d d', (policySystem (some r)).Reachable c d ∧ ActedOnKey d d' key ∧
      (policySystem (some r)).Reachable d' c') ∨
    System.Observed Turn.protocol Turn.Final (Unblocked key) c' := by
  induction h with
  | refl => exact .inr hc
  | @tail d d' hr hs ih =>
      rcases ih with ⟨d₁, d₁', h₁, hacted, h₁'⟩ | ih
      · exact .inl ⟨d₁, d₁', h₁, hacted, h₁'.tail hs⟩
      refine (System.Observed.step (fun e ans ↦ ∃ ns pod, podKey ns pod = key ∧
        e.acted? = some (ns, pod) ∧ e.Served ans) ?_ ?_ ?_ ih hs).imp_left ?_
      · refine fun hG hQ hst ↦ exists_start hdry hG hG.loop (fun hfinal ↦ ?_) hQ hst
        refine ⟨hG.toChecked.move (by simp), .inl (hG.cooldown.resolve_right ?_), hG.record, by simp⟩
        intro hacting
        rw [hacting] at hfinal
        exact hfinal
      · exact fun hG ha hx ↦ hG.act (Turn.trans ha hx)
      · rintro c c' ⟨w', hw, rfl⟩
        refine ⟨rfl, fun φ hG ↦ ⟨hG.congr (.inl hw.throttled), ?_, ?_, hG.notDone⟩⟩
        · exact hw.lastActed.symm ▸ hG.cooldown
        · exact hw.throttled.symm ▸ hG.record
      · rintro ⟨i, e, k, ans, hi, hx, hd', ns, pod, hkey, hacted, hserved⟩
        exact ⟨d, d', hr, ⟨ns, pod, hkey, i, e, k, ans, hi, hx, hd', hacted, hserved⟩, .refl⟩

/-- Nobody is turned away then. -/
theorem not_turnedAway (h : System.Observed Turn.protocol Turn.Final (Unblocked key) c) :
    ¬ TurnedAway c key := by
  rintro ⟨e, k, hi, haway⟩
  obtain ⟨φ, hG, hf⟩ := h
  have hfi := hf (some ())
  rw [hi, Prog.follows_act] at hfi
  rcases haway with ⟨rfl, hrecord⟩ | ⟨now, cooldown, rfl, hrefused⟩
  · rw [hG.record] at hrecord
    cases hrecord
  · have hfree : φ (some ()) = .free key := hfi.1
    have hnone := hG.cooldown.resolve_right (by simp [hfree])
    rw [World.takeCooldown, hnone] at hrefused
    cases hrefused

/-! ## One report -/

/-- A cooldown that is taken, or about to be, is not older than `T`. -/
structure Since (T : Time) (w : World) (g : Gate) : Prop where
  clock : T ≤ w.clock
  timed : ∀ now, g = .timed now → T ≤ now
  taken : ∀ key, g = .acting key → ∀ t, w.lastActed key = some t → T ≤ t

namespace Since

variable {T : Time} {g ψ : Gate} {e : Act}

/-- A move to a phase that neither acts on a pod nor has read the clock. -/
theorem phase (h : Since T w g) (htimed : ∀ now, ψ ≠ .timed now) (hacting : ∀ key, ψ ≠ .acting key) :
    Since T w ψ :=
  ⟨h.clock, fun now hnow ↦ absurd hnow (htimed now), fun key hkey ↦ absurd hkey (hacting key)⟩

/-- Time passes, and no cooldown is touched. -/
theorem congr (h : Since T w g) (hclock : w.clock ≤ w'.clock) (hlast : w'.lastActed = w.lastActed) :
    Since T w' g :=
  ⟨h.clock.trans hclock, h.timed, hlast ▸ h.taken⟩

/-- The restore loop does not touch the cooldowns. -/
theorem sweep (h : Since T w g) {ω : Gate} (hloop : ω.Loop) (ht : Gate.Trans r w ω e w' ψ) :
    Since T w' g := by
  cases ht with
  | stay _ _ hmem => exact h.congr hmem.clock.ge hmem.lastActed
  | skip => exact h
  | drop => exact h.congr le_rfl rfl
  | collect => exact h
  | time | take | clear | finish | record => exact hloop.elim

/-- A step in the handling of a snapshot. -/
theorem report (h : Since T w g) (ht : Gate.Trans r w g e w' ψ) : Since T w' ψ := by
  cases ht with
  | stay _ _ hmem => exact h.congr hmem.clock.ge hmem.lastActed
  | skip => exact h.phase (by simp) (by simp)
  | time =>
      refine ⟨h.clock, ?_, by simp⟩
      rintro now ⟨⟩
      exact h.clock
  | take key now =>
      refine ⟨h.clock, by simp, ?_⟩
      rintro _ ⟨⟩ t ht
      obtain rfl : now = t := by simpa using ht
      exact h.timed now rfl
  | clear => exact ⟨h.clock, by simp, by simp⟩
  | finish key _ hmem =>
      have hdone : Since T w .done := h.phase (by simp) (by simp)
      exact hdone.congr hmem.clock.ge hmem.lastActed
  | record => exact h.congr le_rfl rfl
  | drop => exact h.congr le_rfl rfl
  | collect => exact h.phase (by simp) (by simp)

theorem isInductive (r : Remediator) (T : Time) :
    System.Inductive (policySystem (some r)) (Gate.protocol r) (fun _ ↦ True)
      fun w φ ↦ Kept r w φ ∧ Since T w (φ (some ())) :=
  Kept.isInductive_and (fun h ↦ h.phase (by simp) (by simp)) (fun h hloop ht ↦ h.sweep hloop ht)
    (fun _ h ht ↦ h.report ht) (fun h hw ↦ h.congr hw.clock hw.lastActed)

end Since

/-- A run in which no call starts is a run. -/
theorem reachable_of_none (h : (policySystem none).Reachable c c') :
    (policySystem (some r)).Reachable c c' := by
  refine Relation.ReflTransGen.mono ?_ c c' h
  intro c c' hs
  cases hs with
  | call i hi hst =>
      obtain ⟨r', hr, -⟩ := hst
      cases hr
  | act i hi hg hx => exact .act i hi hg hx
  | env he => exact .env he

/-- The handling of a snapshot starts from an idle slot. -/
theorem Handling.step {s : Snapshot ℚ} (hi : c.prog (some ()) = .pure ⟨⟩) :
    (policySystem (some r)).Step c { c with
      phase := update c.phase (some ()) .idle
      prog := update c.prog (some ()) (remediate r s) } :=
  .call (some ()) hi ⟨r, rfl, s, rfl, rfl⟩

end

/-! ## What the cooldown guarantees -/

/-- With the actions not dry, everything. -/
theorem keepsCooldown {r : Remediator} (hdry : r.cfg.dryRun = false) (w : World) : KeepsCooldown r w := by
  have hlaunch := Kept.of_launch r w
  constructor
  · rintro c₁ c₁' c₂ c₂' _ hc₁ ⟨ns, pod, rfl, h₁⟩ hc₂ ⟨ns', pod', hkey, h₂⟩
    exact ActedOn.apart hkey hlaunch hc₁ h₁ hc₂ h₂
  · rintro c₀ s c₁ c₁' c₂ c₂' _ hc₀ hi hc₁ ⟨ns, pod, rfl, h₁⟩ hc₂ ⟨ns', pod', hkey, h₂⟩
    have hinv₀ := hlaunch.reachable (Kept.isInductive r) hc₀
    have hstep := Handling.step (r := r) (s := s) hi
    have hstart := hinv₀.step (Kept.isInductive r) hstep
    -- from here on a cooldown is taken not before the call
    have hsince := System.Invariant.reachable (Since.isInductive r c₀.world.clock)
      ⟨⟨hstart.global, le_rfl, by simp, by simp⟩, hstart.follows⟩ (reachable_of_none hc₁)
    obtain ⟨t₁, t₂, ht₁, -, ht₂, hle₂, hle⟩ := ActedOn.apart hkey hlaunch
      ((hc₀.tail hstep).trans (reachable_of_none hc₁)) h₁ (reachable_of_none hc₂) h₂
    obtain ⟨hacting, -, -⟩ := h₁.cases ⟨hsince.global.1, hsince.follows⟩
    have hle₁ := hsince.global.2.taken _ hacting t₁ ht₁
    linarith
  · intro c hc i e k ns pod hi hacted
    obtain ⟨φ, hG, hf⟩ := observed_checked hdry hc
    have hfi := hf i
    rw [hi, Prog.follows_act] at hfi
    have ha : Turn.allowed (φ i) e := hfi.1
    have hacting := Turn.acting_of_acted ha hacted
    cases i with
    | none => cases hG.loop.symm.trans hacting
    | some u => exact hG.unthrottled _ (.inr hacting)
  · intro c₁ c₁' c₂ key hc₁ hfailed hc₂ haway
    have h := exists_actedOnKey hdry (observed_unblocked hdry hc₁ hfailed) hc₂
    exact h.resolve_right fun h ↦ not_turnedAway h haway

/-- The minute between the Events of the alert policy. -/
theorem alertRemediator_keepsCooldown : ∃ c₁ c₁' c₂ c₂' t₁ t₂, ActedOnKey c₁ c₁' "web/a" ∧
    ActedOnKey c₂ c₂' "web/a" ∧ c₁.world.lastActed "web/a" = some t₁ ∧
    c₂.world.lastActed "web/a" = some t₂ ∧ t₁ + minute ≤ t₂ := by
  obtain ⟨c₁, c₁', c₂, c₂', hc₁, h₁, hc₂, h₂⟩ := alertRemediator_acts
  have hkeeps : KeepsCooldown alertRemediator (.fresh .web) := keepsCooldown rfl _
  have h₁' : ActedOnKey c₁ c₁' "web/a" := ⟨"web", "a", rfl, h₁⟩
  have h₂' : ActedOnKey c₂ c₂' "web/a" := ⟨"web", "a", rfl, h₂⟩
  obtain ⟨t₁, t₂, ht₁, -, ht₂, -, hle⟩ := hkeeps.apart c₁ c₁' c₂ c₂' _ hc₁ h₁' hc₂ h₂'
  exact ⟨c₁, c₁', c₂, c₂', t₁, t₂, h₁', h₂', ht₁, ht₂, hle⟩

/-! ## Two actions of one report

The clock is read for every target, so that a call that takes longer than the cooldown may act
twice on a pod.
-/

/-- Whether a call is about to emit an Event by which it acts on a pod. -/
def Ctl.actsByEvent (ns pod : String) : Ctl Unit → Bool
  | .act (.createEvent ev) _ => decide ((Act.createEvent ev).acted? = some (ns, pod))
  | _ => false

theorem Ctl.actsByEvent_eq_true {ns pod : String} {p : Ctl Unit} (h : p.actsByEvent ns pod = true) :
    ∃ ev k, p = .act (.createEvent ev) k ∧ (Act.createEvent ev).acted? = some (ns, pod) := by
  unfold actsByEvent at h
  split at h
  · next ev k => exact ⟨ev, k, rfl, of_decide_eq_true h⟩
  · cases h

/-- A remediator with the shortest cooldown. -/
def hastyRemediator : Remediator := newRemediator { cooldown := 1 }

/-- The snapshot that names a pod twice. -/
def twiceReport : Snapshot ℚ := .ofLabels ["web/a/app", "web/a/app"]

/-- The first Event, and a nanosecond later the second one. -/
theorem hastyRemediator_actions :
    (((remediate hastyRemediator twiceReport).actions 5 (launch (.fresh .web)).world).any fun x ↦
      x.1.actsByEvent "web" "a") ∧
    (((remediate hastyRemediator twiceReport).actions 6 (launch (.fresh .web)).world).all fun x ↦
      x.2.clock ≤ 1 && ((x.1.actions 5 { x.2 with clock := 1 }).any fun y ↦ y.1.actsByEvent "web" "a")) := by
  decide +kernel

/-- A call may act twice on a pod. -/
theorem hastyRemediator_actedOn_twice : ¬ ∀ (r : Remediator) (w : World), r.cfg.dryRun = false →
    ∀ c₀ s c₁ c₁' c₂ c₂' key, (policySystem (some r)).Reachable (launch w) c₀ →
      c₀.prog (some ()) = .pure ⟨⟩ → Handling r s c₀ c₁ → ActedOnKey c₁ c₁' key →
      (policySystem none).Reachable c₁' c₂ → ¬ ActedOnKey c₂ c₂' key := by
  intro h
  obtain ⟨hfirst, hsecond⟩ := hastyRemediator_actions
  obtain ⟨⟨p, w₁⟩, hrun, hevent⟩ := (Option.any_eq_true _ _).mp hfirst
  obtain ⟨ev, k, rfl, hacted⟩ := Ctl.actsByEvent_eq_true hevent
  obtain ⟨c₁, c₁', hc₁, h₁, hprog, hw⟩ := Ctl.exists_actedOn none
    (c := { launch (.fresh .web) with
      phase := update (launch (.fresh .web)).phase (some ()) .idle
      prog := update (launch (.fresh .web)).prog (some ()) (remediate hastyRemediator twiceReport) })
    (by simp) hrun hacted
  rw [hw, Option.all_some, Bool.and_eq_true, decide_eq_true_eq] at hsecond
  obtain ⟨⟨p, w₂⟩, hrun, hevent⟩ := (Option.any_eq_true _ _).mp hsecond.2
  obtain ⟨ev', k', rfl, hacted'⟩ := Ctl.actsByEvent_eq_true hevent
  obtain ⟨c₂, c₂', hc₂, h₂, -, -⟩ := Ctl.exists_actedOn none
    (c := { c₁' with world := { c₁'.world with clock := 1 } }) hprog hrun hacted'
  exact h hastyRemediator (.fresh .web) rfl (launch (.fresh .web)) twiceReport c₁ c₁' c₂ c₂' "web/a"
    .refl rfl hc₁ ⟨"web", "a", rfl, h₁⟩ ((reachable_tick none c₁' hsecond.1).trans hc₂)
    ⟨"web", "a", rfl, h₂⟩
