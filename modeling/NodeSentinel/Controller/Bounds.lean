import NodeSentinel.Controller.Gate
import NodeSentinel.Controller.Policy
import NodeSentinel.Controller.Semantics

/-!
# A policy bounds its controller

The controller that a policy configures: snapshots are handled one at a time, the restore loop
sweeps beside them, and API calls may fail.  Every action it issues is within what the policy
says, and two successful ones on a pod are its cooldown apart.  The time of an action is the
one that `takeCooldown` records.
-/

open Function (update)

/-! ## The controller -/

/-- Somebody else acts, and time passes: the memory of the controller is its own. -/
structure World.Outside (w w' : World) : Prop where
  clock : w.clock ≤ w'.clock
  lastActed : w'.lastActed = w.lastActed
  throttled : w'.throttled = w.throttled
  persistMu : w'.persistMu = w.persistMu

/-- The controller, which has a remediator or observes only.  Slot `some ()` handles the
snapshots, slot `none` is the restore loop. -/
def policySystem (rem : Option Remediator) : System (Option Unit) Gate Act Resp World where
  next := Gate.next
  exec := Exec .unreliable
  start i p φ := ∃ r, rem = some r ∧
    match i with
    | none => p = restoreDue r ∧ φ = .waking
    | some _ => ∃ s, p = remediate r s ∧ φ = .idle
  guard _ _ _ _ := True
  env c c' := ∃ w', c.world.Outside w' ∧ c' = { c with world := w' }

/-- A process that has just started. -/
def launch (w : World) : Configuration (Option Unit) Gate Act Resp World where
  world := w.reset
  phase i := i.elim .waking fun _ ↦ .idle
  prog _ := .pure ⟨⟩

namespace Act

/-- The pod an action is on. -/
def pod? : Act → Option (String × String)
  | patchCPULimit _ ns pod _ _ => some (ns, pod)
  | createEvent ev => some (ev.ns, ev.pod)
  | _ => none

/-- The pod that `act` acts on with an action: a throttle, or the Event where that does not
apply. -/
def acted? : Act → Option (String × String)
  | patchCPULimit .throttle ns pod _ _ => some (ns, pod)
  | createEvent ev =>
      match ev.message with
      | .recommended _ _ => some (ev.ns, ev.pod)
      | _ => none
  | _ => none

/-- The answer of an API call on a pod that is served. -/
inductive Served : (e : Act) → Resp e → Prop
  | patch (site : PatchSite) (ns pod container : String) (cpu : CPUText) :
      Served (.patchCPULimit site ns pod container cpu) (.ok ())
  | event (ev : Event) : Served (.createEvent ev) (.ok ())

/-- An action within what a policy says. -/
structure Bounded (obj : Unstructured) (e : Act) : Prop where
  mode : obj.mode = .string modeAlert ∨ obj.mode = .string modeEnforce
  throttle : ∀ ns pod container cpu, e = patchCPULimit .throttle ns pod container cpu →
    obj.mode = .string modeEnforce ∧ obj.resize ≠ .bool false
  namespaces : ∀ items, obj.namespaces = .array items → items ≠ [] →
    ∀ ns pod, e.pod? = some (ns, pod) → .string ns ∈ items

end Act

/-- A step in which an action on a pod succeeds. -/
def ActedOn (c c' : Configuration (Option Unit) Gate Act Resp World) (ns pod : String) : Prop :=
  ∃ i e k ans, c.prog i = .act e k ∧ Exec .unreliable e c.world ans c'.world ∧
    c' = ⟨c'.world, update c.phase i (Gate.next (c.phase i) e ans), update c.prog i (k ans)⟩ ∧
    e.acted? = some (ns, pod) ∧ e.Served ans

/-! ## What the controller keeps -/

section

open Gate

/-- Records are of namespaces that are enabled, and a cooldown that is taken is on record. -/
structure Kept (r : Remediator) (w : World) (φ : Option Unit → Gate) : Prop where
  loop : (φ none).Loop
  records : ∀ {k st}, w.throttled.lookup k = some st → r.allows st.ns = true
  swept : ∀ {i due}, φ i = sweeping due → ∀ st ∈ due, r.allows st.ns = true
  timed : ∀ {now}, φ (some ()) = timed now → now ≤ w.clock
  taken : ∀ {key}, φ (some ()) = acting key → ∃ t, w.lastActed key = some t ∧ t ≤ w.clock

/-- Since an action at `t₁`, the pod was not taken again, or it was taken after the cooldown;
and where its time is cleared, the cooldown has passed. -/
def Spaced (r : Remediator) (key : String) (t₁ : Time) (w : World) (g : Gate) : Prop :=
  (w.lastActed key = some t₁ ∧ g ≠ acting key) ∨
  (∃ t, w.lastActed key = some t ∧ t₁ + r.cfg.cooldown ≤ t) ∨
  (w.lastActed key = none ∧ t₁ + r.cfg.cooldown ≤ w.clock ∧
    ∀ now, g = timed now → t₁ + r.cfg.cooldown ≤ now)

variable {r : Remediator} {w w' : World} {φ : Option Unit → Gate} {e : Act} {g ψ : Gate}
  {key : String} {t₁ : Time}

namespace Kept

theorem same (h : Kept r w φ) (hmem : SameMemory w w') : Kept r w' φ where
  loop := h.loop
  records hk := h.records (hmem.throttled ▸ hk)
  swept := h.swept
  timed hg := hmem.clock ▸ h.timed hg
  taken hg := hmem.clock ▸ hmem.lastActed ▸ h.taken hg

theorem erase (h : Kept r w φ) (k : String) : Kept r { w with throttled := w.throttled.erase k } φ := by
  refine ⟨h.loop, fun hk ↦ ?_, h.swept, h.timed, h.taken⟩
  exact h.records (Finmap.lookup_erase_eq_some_iff.mp hk).2

/-- The due records are of namespaces that are enabled. -/
theorem due (h : Kept r w φ) {now : Time} {due : List ThrottleState} (hdue : (due : Multiset _) = w.due now)
    {st : ThrottleState} (hst : st ∈ due) : r.allows st.ns = true := by
  obtain ⟨⟨k, hk⟩, -⟩ := World.mem_due.mp (hdue ▸ Multiset.mem_coe.mpr hst)
  exact h.records hk

/-- Time passes. -/
theorem outside (h : Kept r w φ) (hw : w.Outside w') : Kept r w' φ where
  loop := h.loop
  records hk := h.records (hw.throttled ▸ hk)
  swept := h.swept
  timed hg := (h.timed hg).trans hw.clock
  taken hg := by
    obtain ⟨t, ht, hle⟩ := h.taken hg
    exact ⟨t, hw.lastActed ▸ ht, hle.trans hw.clock⟩

/-- The restore loop moves to another phase of its own. -/
theorem sweepPhase (h : Kept r w φ) (hψ : ψ.Loop)
    (hdue : ∀ due, ψ = sweeping due → ∀ st ∈ due, r.allows st.ns = true) : Kept r w (update φ none ψ) where
  loop := by simpa using hψ
  records := h.records
  swept {i due} hi := by
    cases i with
    | none => exact hdue due (by simpa using hi)
    | some _ => exact h.swept (by simpa using hi)
  timed hg := h.timed (by simpa using hg)
  taken hg := h.taken (by simpa using hg)

/-- The handling of snapshots moves to another phase. -/
theorem reportPhase (h : Kept r w φ) (hdue : ∀ due, ψ = sweeping due → ∀ st ∈ due, r.allows st.ns = true)
    (htimed : ∀ now, ψ = .timed now → now ≤ w.clock)
    (htaken : ∀ key, ψ = acting key → ∃ t, w.lastActed key = some t ∧ t ≤ w.clock) :
    Kept r w (update φ (some ()) ψ) where
  loop := by simpa using h.loop
  records := h.records
  swept {i due} hi := by
    cases i with
    | none => exact h.swept (by simpa using hi)
    | some _ => exact hdue due (by simpa using hi)
  timed {now} hg := htimed now (by simpa using hg)
  taken {key} hg := htaken key (by simpa using hg)

/-- While no target is handled, the cooldowns may be anything. -/
theorem cooldowns (h : Kept r w φ) (l : String → Option Time) :
    Kept r { w with lastActed := l } (update φ (some ()) idle) := by
  refine ⟨by simpa using h.loop, h.records, fun {i due} hi ↦ ?_, by simp, by simp⟩
  cases i with
  | none => exact h.swept (by simpa using hi)
  | some _ => simp at hi

/-- A step of the restore loop. -/
theorem sweep (h : Kept r w φ) (ht : Trans r w (φ none) e w' ψ) : Kept r w' (update φ none ψ) := by
  have hloop := h.loop
  generalize hφ : φ none = g at ht hloop
  cases ht with
  | stay _ _ hmem =>
      rw [← hφ, Function.update_eq_self]
      exact h.same hmem
  | skip _ hnot => exact absurd hloop hnot
  | drop _ k =>
      rw [← hφ, Function.update_eq_self]
      exact h.erase k
  | collect hdue =>
      refine h.sweepPhase trivial ?_
      rintro _ ⟨⟩ st hst
      exact h.due hdue hst
  | time | take | clear | finish | record => exact hloop.elim

/-- A step in the handling of a snapshot. -/
theorem report (h : Kept r w φ) (ht : Trans r w (φ (some ())) e w' ψ) : Kept r w' (update φ (some ()) ψ) := by
  generalize hφ : φ (some ()) = g at ht
  cases ht with
  | stay _ _ hmem =>
      rw [← hφ, Function.update_eq_self]
      exact h.same hmem
  | skip => exact h.reportPhase (by simp) (by simp) (by simp)
  | time =>
      refine h.reportPhase (by simp) ?_ (by simp)
      rintro now ⟨⟩
      exact le_rfl
  | take key now =>
      have hw := h.cooldowns (update w.lastActed key (some now))
      rw [← Function.update_idem (f := φ) (v := idle)]
      refine hw.reportPhase (by simp) (by simp) ?_
      rintro _ ⟨⟩
      exact ⟨now, by simp, h.timed hφ⟩
  | clear key => exact h.cooldowns _
  | finish key e hmem => exact (h.same hmem).reportPhase (by simp) (by simp) (by simp)
  | record k st hst =>
      rw [← hφ, Function.update_eq_self]
      refine ⟨h.loop, fun hk ↦ ?_, h.swept, h.timed, h.taken⟩
      rcases Finmap.lookup_insert_eq_some hk with ⟨-, rfl⟩ | ⟨-, hk⟩
      · exact hst
      · exact h.records hk
  | drop _ k =>
      rw [← hφ, Function.update_eq_self]
      exact h.erase k
  | collect hdue =>
      refine h.reportPhase ?_ (by simp) (by simp)
      rintro _ ⟨⟩ st hst
      exact h.due hdue hst

end Kept

/-! ## The cooldown -/

namespace Spaced

/-- A move to a phase that neither acts on the pod nor has read the clock. -/
theorem phase (h : Spaced r key t₁ w g) (hacting : ψ ≠ acting key) (htimed : ∀ now, ψ ≠ timed now) :
    Spaced r key t₁ w ψ := by
  rcases h with ⟨hlast, -⟩ | hlast | ⟨hlast, hle, -⟩
  · exact .inl ⟨hlast, hacting⟩
  · exact .inr (.inl hlast)
  · exact .inr (.inr ⟨hlast, hle, fun now hnow ↦ absurd hnow (htimed now)⟩)

/-- Time passes, and the cooldown of the pod is not touched. -/
theorem congr (h : Spaced r key t₁ w g) (hclock : w.clock ≤ w'.clock)
    (hlast : w'.lastActed key = w.lastActed key) : Spaced r key t₁ w' g := by
  unfold Spaced
  rw [hlast]
  rcases h with h | h | ⟨h, hle, hnow⟩
  · exact .inl h
  · exact .inr (.inl h)
  · exact .inr (.inr ⟨h, hle.trans hclock, hnow⟩)

/-- The restore loop does not touch the cooldowns. -/
theorem sweep (h : Spaced r key t₁ w g) {ω : Gate} (hloop : ω.Loop) (ht : Trans r w ω e w' ψ) :
    Spaced r key t₁ w' g := by
  cases ht with
  | stay _ _ hmem => exact h.congr hmem.clock.ge (congrFun hmem.lastActed key)
  | skip => exact h
  | drop => exact h.congr le_rfl rfl
  | collect => exact h
  | time | take | clear | finish | record => exact hloop.elim

/-- A cooldown is taken. -/
theorem take (h : Spaced r key t₁ w (.timed now)) (k : String)
    (hcd : ∀ last, w.lastActed k = some last → r.cfg.cooldown ≤ now - last) :
    Spaced r key t₁ { w with lastActed := update w.lastActed k (some now) } (acting k) := by
  by_cases hk : k = key
  · subst hk
    refine .inr (.inl ⟨now, by simp, ?_⟩)
    rcases h with ⟨hlast, -⟩ | ⟨t, hlast, hle⟩ | ⟨-, -, hnow⟩
    · have := hcd t₁ hlast
      linarith
    · have hpos := r.cooldown_pos
      have := hcd t hlast
      linarith
    · exact hnow now rfl
  · have hother : Spaced r key t₁ w (acting k) := h.phase (by simpa using hk) (by simp)
    exact hother.congr le_rfl (Function.update_of_ne (Ne.symm hk) ..)

/-- A cooldown is given back, by a call whose Event failed. -/
theorem clear (h : Spaced r key t₁ w (acting k))
    (htaken : ∃ t, w.lastActed k = some t ∧ t ≤ w.clock) :
    Spaced r key t₁ { w with lastActed := update w.lastActed k none } idle := by
  by_cases hk : k = key
  · subst hk
    obtain ⟨t, ht, hle⟩ := htaken
    rcases h with ⟨-, hne⟩ | ⟨t', hlast, hle'⟩ | ⟨hlast, -⟩
    · exact absurd rfl hne
    · obtain rfl := Option.some.inj (ht.symm.trans hlast)
      exact .inr (.inr ⟨by simp, hle'.trans hle, by simp⟩)
    · cases ht.symm.trans hlast
  · have hother : Spaced r key t₁ w idle := h.phase (by simp) (by simp)
    exact hother.congr le_rfl (Function.update_of_ne (Ne.symm hk) ..)

/-- A step in the handling of a snapshot. -/
theorem report (h : Spaced r key t₁ w (φ (some ()))) (hkept : Kept r w φ)
    (ht : Trans r w (φ (some ())) e w' ψ) : Spaced r key t₁ w' ψ := by
  generalize hφ : φ (some ()) = g at ht h
  cases ht with
  | stay _ _ hmem => exact h.congr hmem.clock.ge (congrFun hmem.lastActed key)
  | skip => exact h.phase (by simp) (by simp)
  | time =>
      rcases h with ⟨hlast, -⟩ | hlast | ⟨hlast, hle, -⟩
      · exact .inl ⟨hlast, by simp⟩
      · exact .inr (.inl hlast)
      · refine .inr (.inr ⟨hlast, hle, ?_⟩)
        rintro now ⟨⟩
        exact hle
  | take k now hcd => exact h.take k hcd
  | clear k => exact h.clear (hkept.taken hφ)
  | finish k _ hmem =>
      have hdone : Spaced r key t₁ w done := h.phase (by simp) (by simp)
      exact hdone.congr hmem.clock.ge (congrFun hmem.lastActed key)
  | record => exact h.congr le_rfl rfl
  | drop => exact h.congr le_rfl rfl
  | collect => exact h.phase (by simp) (by simp)

end Spaced

/-! ## Runs -/

/-- The obligations of an invariant of the controller. -/
theorem policySystem_inductive {G : World → (Option Unit → Gate) → Prop}
    (hwake : ∀ {w φ}, G w φ → G w (update φ none waking))
    (hidle : ∀ {w φ}, G w φ → G w (update φ (some ()) idle))
    (hact : ∀ {w φ i e w' ψ}, G w φ → Trans r w (φ i) e w' ψ → G w' (update φ i ψ))
    (hout : ∀ {w w' φ}, G w φ → w.Outside w' → G w' φ) :
    System.Inductive (policySystem (some r)) (Gate.protocol r) (fun _ ↦ True) G where
  next_eq := rfl
  call := by
    rintro w φ i p s hG - ⟨r', hr, hstart⟩
    obtain rfl := Option.some.inj hr
    cases i with
    | none =>
        obtain ⟨rfl, rfl⟩ := hstart
        exact ⟨hwake hG, restoreDue_follows.mono fun _ _ _ ↦ trivial⟩
    | some _ =>
        obtain ⟨s, rfl, rfl⟩ := hstart
        exact ⟨hidle hG, remediate_follows.mono fun _ _ _ ↦ trivial⟩
  act hG ha _ hx := hact hG (Gate.trans ha hx)
  env := by
    rintro c c' hc ⟨w', hw, rfl⟩
    exact ⟨hout hc.global hw, hc.follows⟩

theorem Kept.isInductive (r : Remediator) :
    System.Inductive (policySystem (some r)) (Gate.protocol r) (fun _ ↦ True) (Kept r) :=
  policySystem_inductive (fun h ↦ h.sweepPhase trivial (by simp))
    (fun h ↦ h.reportPhase (by simp) (by simp) (by simp))
    (fun {_ _ i _ _ _} h ht ↦ by
      cases i with
      | none => exact h.sweep ht
      | some _ => exact h.report ht)
    (fun h hw ↦ h.outside hw)

/-- What is kept, and `J` of the world and of the phase in the handling of snapshots. -/
theorem Kept.isInductive_and {J : World → Gate → Prop} (hidle : ∀ {w g}, J w g → J w idle)
    (hsweep : ∀ {w g ω e w' ψ}, J w g → ω.Loop → Trans r w ω e w' ψ → J w' g)
    (hreport : ∀ {w φ e w' ψ}, Kept r w φ → J w (φ (some ())) → Trans r w (φ (some ())) e w' ψ → J w' ψ)
    (hout : ∀ {w w' g}, J w g → w.Outside w' → J w' g) :
    System.Inductive (policySystem (some r)) (Gate.protocol r) (fun _ ↦ True)
      fun w φ ↦ Kept r w φ ∧ J w (φ (some ())) :=
  policySystem_inductive
    (fun h ↦ ⟨h.1.sweepPhase trivial (by simp), by simpa using h.2⟩)
    (fun h ↦ ⟨h.1.reportPhase (by simp) (by simp) (by simp), by simpa using hidle h.2⟩)
    (fun {_ _ i _ _ _} h ht ↦ by
      cases i with
      | none => exact ⟨h.1.sweep ht, by simpa using hsweep h.2 h.1.loop ht⟩
      | some _ => exact ⟨h.1.report ht, by simpa using hreport h.1 h.2 ht⟩)
    (fun h hw ↦ ⟨h.1.outside hw, hout h.2 hw⟩)

theorem Spaced.isInductive (r : Remediator) (key : String) (t₁ : Time) :
    System.Inductive (policySystem (some r)) (Gate.protocol r) (fun _ ↦ True)
      fun w φ ↦ Kept r w φ ∧ Spaced r key t₁ w (φ (some ())) :=
  Kept.isInductive_and (fun h ↦ h.phase (by simp) (by simp)) (fun h hloop ht ↦ h.sweep hloop ht)
    (fun hkept h ht ↦ h.report hkept ht) (fun h hw ↦ h.congr hw.clock (congrFun hw.lastActed key))

/-- What the controller issues is within its policy. -/
theorem Gate.allowed.bounded {obj : Unstructured} {k : Gate} (hobj : Configured obj r)
    (hdue : ∀ due, k = sweeping due → ∀ st ∈ due, r.allows st.ns = true) (ha : allowed r k e) :
    e.Bounded obj := by
  have hns : ∀ {ns pod}, e.pod? = some (ns, pod) → r.allows ns = true := by
    intro ns pod he
    cases e with
    | patchCPULimit site ns' pod' c cpu =>
        obtain ⟨rfl, rfl⟩ := Prod.mk.inj (Option.some.inj he)
        cases site with
        | throttle => exact ha.2.1
        | restore st =>
            obtain ⟨due, hk, hst, rfl⟩ := ha
            exact hdue due hk st hst
    | createEvent ev =>
        obtain ⟨rfl, rfl⟩ := Prod.mk.inj (Option.some.inj he)
        dsimp only [allowed] at ha
        split at ha
        · exact ha.2
        · exact ha.2
        · obtain ⟨due, st, hk, hst, hns⟩ := ha
          exact hns ▸ hdue due hk st hst
    | _ => cases he
  refine ⟨hobj.mode, ?_, fun items hitems hne ns pod he ↦ hobj.namespaces items hitems hne ns (hns he)⟩
  rintro ns pod c cpu rfl
  exact hobj.resize ha.2.2

theorem Kept.of_launch (r : Remediator) (w : World) :
    System.Invariant (Gate.protocol r) (fun _ ↦ True) (Kept r) (launch w) where
  global := by
    refine ⟨trivial, by simp [launch, World.reset], fun {i due} hi ↦ ?_, ?_, ?_⟩
    · cases i <;> cases hi
    · rintro now ⟨⟩
    · rintro key ⟨⟩
  follows _ := trivial

/-- An action on a pod that succeeds is taken in its phase, and completes it. -/
theorem ActedOn.cases {c c' : Configuration (Option Unit) Gate Act Resp World} {ns pod : String}
    (h : ActedOn c c' ns pod) (hc : System.Invariant (Gate.protocol r) (fun _ ↦ True) (Kept r) c) :
    c.phase (some ()) = acting (podKey ns pod) ∧ c'.phase (some ()) = done ∧
      SameMemory c.world c'.world := by
  obtain ⟨i, e, k, ans, hi, hx, hc', hacted, hserved⟩ := h
  have hallowed : allowed r (c.phase i) e := by
    have hf := hc.follows i
    rw [hi, Prog.follows_act] at hf
    exact hf.1
  have hphase : c.phase i = acting (podKey ns pod) ∧ Gate.next (acting (podKey ns pod)) e ans = done ∧
      SameMemory c.world c'.world := by
    cases hserved with
    | patch site ns' pod' container cpu =>
        cases site with
        | throttle =>
            obtain ⟨rfl, rfl⟩ := Prod.mk.inj (Option.some.inj hacted)
            exact ⟨hallowed.1, rfl, sameMemory_api hx sameMemory_patch⟩
        | restore st => cases hacted
    | event ev =>
        dsimp only [Act.acted?, allowed] at hacted hallowed
        split at hacted
        · next hm =>
            obtain ⟨rfl, rfl⟩ := Prod.mk.inj (Option.some.inj hacted)
            rw [hm] at hallowed
            exact ⟨hallowed.1, rfl, sameMemory_api hx ⟨rfl, rfl, rfl⟩⟩
        · cases hacted
  obtain ⟨hacting, hdone, hmem⟩ := hphase
  cases i with
  | none =>
      have hloop := hc.global.loop
      rw [hacting] at hloop
      exact hloop.elim
  | some _ =>
      refine ⟨hacting, ?_, hmem⟩
      rw [hc', hacting]
      simpa using hdone

theorem ActedOn.step {c c' : Configuration (Option Unit) Gate Act Resp World} {ns pod : String}
    (h : ActedOn c c' ns pod) : (policySystem (some r)).Step c c' := by
  obtain ⟨i, e, k, ans, hi, hx, hc', -⟩ := h
  rw [hc']
  exact .act i hi trivial hx

/-- Two actions that succeed on a pod are the cooldown of the remediator apart. -/
theorem ActedOn.apart {c₀ c₁ c₁' c₂ c₂' : Configuration (Option Unit) Gate Act Resp World}
    {ns pod ns' pod' : String} (hkey : podKey ns' pod' = podKey ns pod)
    (h₀ : System.Invariant (Gate.protocol r) (fun _ ↦ True) (Kept r) c₀)
    (hc₁ : (policySystem (some r)).Reachable c₀ c₁) (h₁ : ActedOn c₁ c₁' ns pod)
    (hc₂ : (policySystem (some r)).Reachable c₁' c₂) (h₂ : ActedOn c₂ c₂' ns' pod') :
    ∃ t₁ t₂, c₁.world.lastActed (podKey ns pod) = some t₁ ∧ t₁ ≤ c₁.world.clock ∧
      c₂.world.lastActed (podKey ns pod) = some t₂ ∧ t₂ ≤ c₂.world.clock ∧ t₁ + r.cfg.cooldown ≤ t₂ := by
  have hinv₁ := h₀.reachable (Kept.isInductive r) hc₁
  have hinv₁' := hinv₁.step (Kept.isInductive r) h₁.step
  obtain ⟨hacting₁, hdone, hmem⟩ := h₁.cases hinv₁
  obtain ⟨t₁, ht₁, hle₁⟩ := hinv₁.global.taken hacting₁
  -- from here on the pod is spaced
  have hspaced : Spaced r (podKey ns pod) t₁ c₁'.world (c₁'.phase (some ())) :=
    .inl ⟨by rw [hmem.lastActed, ht₁], by simp [hdone]⟩
  have hinv₂ := System.Invariant.reachable (Spaced.isInductive r (podKey ns pod) t₁)
    ⟨⟨hinv₁'.global, hspaced⟩, hinv₁'.follows⟩ hc₂
  obtain ⟨hkept₂, hspaced₂⟩ := hinv₂.global
  obtain ⟨hacting₂, -, -⟩ := h₂.cases ⟨hkept₂, hinv₂.follows⟩
  rw [hkey] at hacting₂
  obtain ⟨t₂, ht₂, hle₂⟩ := hkept₂.taken hacting₂
  refine ⟨t₁, t₂, ht₁, hle₁, ht₂, hle₂, ?_⟩
  rcases hspaced₂ with ⟨-, hne⟩ | ⟨t, ht, hle⟩ | ⟨hnone, -⟩
  · exact absurd hacting₂ hne
  · obtain rfl := Option.some.inj (ht₂.symm.trans ht)
    exact hle
  · cases ht₂.symm.trans hnone

/-- With nothing to start, nothing is issued. -/
theorem observeOnly {w : World} {c : Configuration (Option Unit) Gate Act Resp World}
    (h : (policySystem none).Reachable (launch w) c) : ∀ i, c.prog i = .pure ⟨⟩ := by
  induction h with
  | refl => exact fun _ ↦ rfl
  | tail _ hstep ih =>
      cases hstep with
      | call _ _ hstart =>
          obtain ⟨r, hr, -⟩ := hstart
          cases hr
      | act j hj => cases (ih j).symm.trans hj
      | env henv =>
          obtain ⟨w', -, rfl⟩ := henv
          exact ih

/-- A policy bounds everything its controller does. -/
theorem policy_bounds {obj : Unstructured} (hobj : obj.Admitted) (stateNS : String) (w : World) :
    (∀ c, (policySystem (configureFromPolicy obj stateNS)).Reachable (launch w) c →
      ∀ i e k, c.prog i = .act e k → e.Bounded obj) ∧
    ∀ c₁ c₁' c₂ c₂' ns pod,
      (policySystem (configureFromPolicy obj stateNS)).Reachable (launch w) c₁ → ActedOn c₁ c₁' ns pod →
      (policySystem (configureFromPolicy obj stateNS)).Reachable c₁' c₂ → ActedOn c₂ c₂' ns pod →
      ∃ t₁ t₂, c₁.world.lastActed (podKey ns pod) = some t₁ ∧ t₁ ≤ c₁.world.clock ∧
        c₂.world.lastActed (podKey ns pod) = some t₂ ∧ t₂ ≤ c₂.world.clock ∧ t₁ + obj.cooldown ≤ t₂ := by
  cases hrem : configureFromPolicy obj stateNS with
  | none =>
      constructor
      · intro c hc i e k hi
        cases (observeOnly hc i).symm.trans hi
      · rintro c₁ c₁' c₂ c₂' ns pod hc ⟨i, e, k, ans, hi, -⟩
        cases (observeOnly hc i).symm.trans hi
  | some r =>
      have hconf := configured hobj hrem
      have hlaunch := Kept.of_launch r w
      constructor
      · intro c hc i e k hi
        have hinv := hlaunch.reachable (Kept.isInductive r) hc
        have hf := hinv.follows i
        rw [hi, Prog.follows_act] at hf
        exact Gate.allowed.bounded hconf (fun due hdue ↦ hinv.global.swept hdue) hf.1
      · intro c₁ c₁' c₂ c₂' ns pod hc₁ h₁ hc₂ h₂
        rw [← hconf.cooldown]
        exact ActedOn.apart rfl hlaunch hc₁ h₁ hc₂ h₂

/-! ## Two Events of one policy -/

/-- Take actions of a call, with every API call served. -/
def Ctl.actions : ℕ → Ctl Unit → World → Option (Ctl Unit × World)
  | 0, p, w => some (p, w)
  | n + 1, .act e k, w => (exec {} e w).bind fun x ↦ actions n (k x.1) x.2
  | _ + 1, .pure _, _ => none

/-- Whether a call ends with an Event by which it acts on a pod, and is about to emit it. -/
def Ctl.endsWithEvent (ns pod : String) : Ctl Unit → Bool
  | .act (.createEvent ev) k =>
      decide ((Act.createEvent ev).acted? = some (ns, pod)) && (k (.ok ())).isPure
  | _ => false

theorem Ctl.runs_actions {n : ℕ} {p p' : Ctl Unit} (h : p.actions n w = some (p', w')) :
    System.Runs (Exec .unreliable) p w p' w' := by
  induction n generalizing p w with
  | zero =>
      obtain ⟨rfl, rfl⟩ := Prod.mk.inj (Option.some.inj h)
      exact .refl _ _
  | succ n ih =>
      cases p with
      | pure a => cases h
      | act e k =>
          obtain ⟨⟨ans, w₁⟩, hx, h⟩ := Option.bind_eq_some_iff.mp h
          exact .act ⟨{}, rfl, hx⟩ (ih h)

/-- One action more. -/
theorem Ctl.actions_succ {n : ℕ} {p : Ctl Unit} {k : Resp e → Ctl Unit} {ans : Resp e} {w₁ : World}
    (h : p.actions n w = some (.act e k, w')) (hx : exec {} e w' = some (ans, w₁)) :
    p.actions (n + 1) w = some (k ans, w₁) := by
  induction n generalizing p w with
  | zero =>
      obtain ⟨rfl, rfl⟩ := Prod.mk.inj (Option.some.inj h)
      simp [actions, hx]
  | succ n ih =>
      cases p with
      | pure a => cases h
      | act e' k' =>
          obtain ⟨x, hx', h⟩ := Option.bind_eq_some_iff.mp h
          rw [actions, hx']
          exact ih h

theorem Ctl.endsWithEvent_eq_true {ns pod : String} {p : Ctl Unit} (h : p.endsWithEvent ns pod = true) :
    ∃ ev k, p = .act (.createEvent ev) k ∧ (Act.createEvent ev).acted? = some (ns, pod) ∧
      k (.ok ()) = .pure ⟨⟩ := by
  unfold endsWithEvent at h
  split at h
  · next ev k =>
      rw [Bool.and_eq_true, decide_eq_true_eq] at h
      exact ⟨ev, k, rfl, h.1, Prog.eq_pure_of_isPure h.2⟩
  · cases h

/-- A call that is about to emit an Event by which it acts on a pod does so. -/
theorem Ctl.exists_actedOn (rem : Option Remediator)
    {c : Configuration (Option Unit) Gate Act Resp World} {p : Ctl Unit} {n : ℕ} {ns pod : String}
    {ev : Event} {k : Except ApiError Unit → Ctl Unit} {w₁ : World} (hi : c.prog (some ()) = p)
    (hrun : p.actions n c.world = some (.act (.createEvent ev) k, w₁))
    (hacted : (Act.createEvent ev).acted? = some (ns, pod)) :
    ∃ c₁ c₁', (policySystem rem).Reachable c c₁ ∧ ActedOn c₁ c₁' ns pod ∧
      c₁'.prog (some ()) = k (.ok ()) ∧ p.actions (n + 1) c.world = some (k (.ok ()), c₁'.world) := by
  have hx : exec {} (.createEvent ev) w₁ = some (.ok (), w₁.createEvent ev) := rfl
  obtain ⟨φ₁, hreach⟩ := System.Reachable.runs (S := policySystem rem) (fun _ _ _ _ ↦ trivial) hi
    (Ctl.runs_actions hrun)
  refine ⟨_, ⟨w₁.createEvent ev, _, _⟩, hreach, ⟨some (), _, k, Except.ok (), by simp, ⟨{}, rfl, hx⟩,
    rfl, hacted, .event ev⟩, by simp, ?_⟩
  exact Ctl.actions_succ hrun hx

/-- A snapshot leads to an Event on a pod, as its execution shows. -/
theorem exists_actedOn {c : Configuration (Option Unit) Gate Act Resp World} {s : Snapshot ℚ} {n : ℕ}
    (ns pod : String) (hi : c.prog (some ()) = .pure ⟨⟩)
    (h : ((remediate r s).actions n c.world).any fun x ↦ x.1.endsWithEvent ns pod) :
    ∃ c₁ c₁', (policySystem (some r)).Reachable c c₁ ∧ ActedOn c₁ c₁' ns pod ∧
      c₁'.prog (some ()) = .pure ⟨⟩ ∧ (remediate r s).actions (n + 1) c.world = some (.pure ⟨⟩, c₁'.world) := by
  obtain ⟨⟨p, w₁⟩, hrun, hend⟩ := (Option.any_eq_true _ _).mp h
  obtain ⟨ev, k, rfl, hacted, hk⟩ := Ctl.endsWithEvent_eq_true hend
  obtain ⟨c₁, c₁', hreach, h₁, hprog, hw⟩ := Ctl.exists_actedOn (some r)
    (c := { c with
      phase := update c.phase (some ()) .idle
      prog := update c.prog (some ()) (remediate r s) }) (by simp) hrun hacted
  rw [hk] at hprog hw
  exact ⟨c₁, c₁', .head (.call (some ()) hi ⟨r, rfl, s, rfl, rfl⟩) hreach, h₁, hprog, hw⟩

/-- Time passes. -/
theorem reachable_tick (rem : Option Remediator) (c : Configuration (Option Unit) Gate Act Resp World)
    {t : Time} (ht : c.world.clock ≤ t) :
    (policySystem rem).Reachable c { c with world := { c.world with clock := t } } :=
  .single (.env ⟨{ c.world with clock := t }, ⟨ht, rfl, rfl, rfl⟩, rfl⟩)

/-- An alert policy for one namespace, with a cooldown of a minute. -/
def alertPolicy : Unstructured := .object [
  ("metadata", .object [("name", .string "default")]),
  ("spec", .object [
    ("mode", .string "alert"),
    ("remediation", .object [("cooldown", .string "1m"), ("namespaces", .array [.string "web"])])])]

theorem alertPolicy_admitted : alertPolicy.Admitted where
  object := ⟨_, rfl⟩
  spec := .inr ⟨_, rfl⟩
  mode := .inr ⟨"alert", by simp, rfl⟩
  priority := .inl rfl
  attribution := .inl rfl
  confidenceThreshold := .inl rfl
  remediation := .inr ⟨_, rfl⟩
  resize := .inl rfl
  cooldown := .inr ⟨"1m", rfl⟩
  restoreAfter := .inl rfl
  namespaces := .inr ⟨_, rfl, by simp [Unstructured.IsString]⟩
  status := .inl rfl

theorem parseDuration_oneMinute : parseDuration "1m" = some minute := by
  have hterm : durationTerm ['1', 'm'] = some (60000000000, []) := by decide +kernel
  have hsum : durationSum 0 ['1', 'm'] = some 60000000000 := by simp [durationSum_of_some hterm]
  have htext : "1m".toList = ['1', 'm'] := rfl
  simp [parseDuration, htext, hsum, minute]

/-- Its remediator. -/
def alertRemediator : Remediator := newRemediator { cooldown := minute, namespaces := ["web"] }

theorem configureFromPolicy_alertPolicy (ns : String) :
    configureFromPolicy alertPolicy ns = some alertRemediator := by
  have hminute : (Unstructured.string "1m").toDuration = minute := by
    simp [Unstructured.toDuration, parseDuration_oneMinute]
  have hconf : configureFromPolicy alertPolicy ns =
      some (newRemediator { cooldown := (Unstructured.string "1m").toDuration, namespaces := ["web"] }) := rfl
  rw [hconf, hminute]
  rfl

/-- The snapshot that names one pod of the namespace. -/
def webReport : Snapshot ℚ := .ofLabels ["web/a/app"]

/-- The first Event, and a minute later the second one. -/
theorem alertRemediator_actions :
    (((remediate alertRemediator webReport).actions 5 (launch (.fresh .web)).world).any fun x ↦
      x.1.endsWithEvent "web" "a") ∧
    (((remediate alertRemediator webReport).actions 6 (launch (.fresh .web)).world).all fun x ↦
      x.2.clock ≤ minute && (((remediate alertRemediator webReport).actions 5
        { x.2 with clock := minute }).any fun y ↦ y.1.endsWithEvent "web" "a")) := by
  decide +kernel

/-- The two Events are steps of a run. -/
theorem alertRemediator_acts : ∃ c₁ c₁' c₂ c₂',
    (policySystem (some alertRemediator)).Reachable (launch (.fresh .web)) c₁ ∧ ActedOn c₁ c₁' "web" "a" ∧
    (policySystem (some alertRemediator)).Reachable c₁' c₂ ∧ ActedOn c₂ c₂' "web" "a" := by
  obtain ⟨hfirst, hsecond⟩ := alertRemediator_actions
  obtain ⟨c₁, c₁', hc₁, h₁, hi, hw⟩ := exists_actedOn "web" "a" rfl hfirst
  rw [hw, Option.all_some, Bool.and_eq_true, decide_eq_true_eq] at hsecond
  have hc := reachable_tick (some alertRemediator) c₁' hsecond.1
  obtain ⟨c₂, c₂', hc₂, h₂, -, -⟩ := exists_actedOn (c := { c₁' with world := { c₁'.world with clock := minute } })
    "web" "a" hi hsecond.2
  exact ⟨c₁, c₁', c₂, c₂', hc₁, h₁, hc.trans hc₂, h₂⟩

theorem alertPolicy_bounds : ∃ c₁ c₁' c₂ c₂' t₁ t₂, ActedOn c₁ c₁' "web" "a" ∧
    ActedOn c₂ c₂' "web" "a" ∧ c₁.world.lastActed (podKey "web" "a") = some t₁ ∧
    c₂.world.lastActed (podKey "web" "a") = some t₂ ∧ t₁ + alertPolicy.cooldown ≤ t₂ := by
  obtain ⟨c₁, c₁', c₂, c₂', hc₁, h₁, hc₂, h₂⟩ := alertRemediator_acts
  rw [← configureFromPolicy_alertPolicy "sentinel-system"] at hc₁ hc₂
  obtain ⟨t₁, t₂, ht₁, -, ht₂, -, hle⟩ := (policy_bounds alertPolicy_admitted "sentinel-system" (.fresh .web)).2
    c₁ c₁' c₂ c₂' "web" "a" hc₁ h₁ hc₂ h₂
  exact ⟨c₁, c₁', c₂, c₂', t₁, t₂, h₁, h₂, ht₁, ht₂, hle⟩

end
