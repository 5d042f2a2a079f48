import NodeSentinel.Effect.Protocol

/-!
# Systems of concurrent programs

A system runs one program in every slot `i : ι` over a shared world.  A slot whose
program has returned is idle and may be given a new call; the slots in between
take their actions in any order; everything else that happens to the world, and to
the programs (a crash), is a step of the environment.  With `ι = Unit` calls run
one at a time, with `ι` infinite any number of them is in flight at once.

Next to its program each slot carries the phase an observer is in
(`NodeSentinel.Effect.Protocol`).  The phase is history: no step depends on it,
except that a system may be restricted to the runs whose steps meet a `guard`.
-/

universe u v w x y z

open Function (update)

/-- The state of a system: the world, and in each slot the program still to run and
the phase of its observer. -/
structure Configuration (ι : Type z) (σ : Type x) (E : Type u) (R : E → Type v) (W : Type y) where
  world : W
  phase : ι → σ
  prog : ι → Prog E R PUnit.{1}

/-- No program is in flight. -/
def Configuration.Quiet {ι : Type z} {σ : Type x} {E : Type u} {R : E → Type v} {W : Type y}
    (c : Configuration ι σ E R W) : Prop := ∀ i, c.prog i = .pure ⟨⟩

theorem Configuration.quiet_of_isPure {ι : Type z} {σ : Type x} {E : Type u} {R : E → Type v}
    {W : Type y} {c : Configuration ι σ E R W} (h : ∀ i, (c.prog i).isPure) : c.Quiet :=
  fun i ↦ Prog.eq_pure_of_isPure (h i)

/-- What can happen in a system. -/
structure System (ι : Type z) (σ : Type x) (E : Type u) (R : E → Type v) (W : Type y) where
  /-- The observer of a slot. -/
  next : σ → (e : E) → R e → σ
  /-- The effect of an action on the world, with the answer it gives. -/
  exec : (e : E) → W → R e → W → Prop
  /-- The calls an idle slot may be given, with the phase they start in. -/
  start : ι → Prog E R PUnit.{1} → σ → Prop
  /-- The condition on the state before a slot takes an action. -/
  guard : W → (ι → σ) → ι → E → Prop
  /-- Everything the slots do not do themselves. -/
  env : Configuration ι σ E R W → Configuration ι σ E R W → Prop

namespace System

variable {ι : Type z} {σ : Type x} {E : Type u} {R : E → Type v} {W : Type y}
variable [DecidableEq ι] (S : System ι σ E R W)

/-- One step of a system. -/
inductive Step : Configuration ι σ E R W → Configuration ι σ E R W → Prop
  /-- An idle slot is given a call. -/
  | call {c : Configuration ι σ E R W} (i : ι) {p : Prog E R PUnit} {s : σ}
      (hi : c.prog i = .pure ⟨⟩) (h : S.start i p s) :
      Step c { c with phase := update c.phase i s, prog := update c.prog i p }
  /-- The program of a slot takes its next action. -/
  | act {c : Configuration ι σ E R W} (i : ι) {e : E} {k : R e → Prog E R PUnit} {r : R e} {w : W}
      (hi : c.prog i = .act e k) (hg : S.guard c.world c.phase i e) (h : S.exec e c.world r w) :
      Step c ⟨w, update c.phase i (S.next (c.phase i) e r), update c.prog i (k r)⟩
  /-- The environment moves. -/
  | env {c c' : Configuration ι σ E R W} (h : S.env c c') : Step c c'

/-- A state some finite run leads to. -/
def Reachable (c c' : Configuration ι σ E R W) : Prop := Relation.ReflTransGen S.Step c c'

/-- Some actions of a program, taken with nothing in between. -/
inductive Runs {α : Type*} (exec : (e : E) → W → R e → W → Prop) :
    Prog E R α → W → Prog E R α → W → Prop
  | refl (p : Prog E R α) (w : W) : Runs exec p w p w
  | act {e : E} {k : R e → Prog E R α} {r : R e} {w w₁ w' : W} {p' : Prog E R α}
      (h : exec e w r w₁) (hk : Runs exec (k r) w₁ p' w') : Runs exec (.act e k) w p' w'

/-- The state of the world, and of the observers, that `G` describes; every program is
at a point its protocol allows. -/
structure Invariant (P : Protocol E R σ) (Q : σ → Prop) (G : W → (ι → σ) → Prop)
    (c : Configuration ι σ E R W) : Prop where
  global : G c.world c.phase
  follows : ∀ i, (c.prog i).Follows P (c.phase i) fun _ t ↦ Q t

variable {S} {P : Protocol E R σ} {Q : σ → Prop} {G : W → (ι → σ) → Prop}

/-- The obligations of an invariant: what a call starts with, what an allowed action
preserves, what the environment preserves. -/
structure Inductive (S : System ι σ E R W) (P : Protocol E R σ) (Q : σ → Prop)
    (G : W → (ι → σ) → Prop) : Prop where
  next_eq : P.next = S.next
  call : ∀ {w φ i p s}, G w φ → Q (φ i) → S.start i p s →
    G w (update φ i s) ∧ p.Follows P s fun _ t ↦ Q t
  act : ∀ {w φ i e r w'}, G w φ → P.allowed (φ i) e → S.guard w φ i e → S.exec e w r w' →
    G w' (update φ i (S.next (φ i) e r))
  env : ∀ {c c'}, Invariant P Q G c → S.env c c' → Invariant P Q G c'

section Runs

variable {α β : Type w} {exec : (e : E) → W → R e → W → Prop} {w w' : W}

/-- A program that has returned takes no action. -/
theorem runs_pure {a b : α} : Runs exec (.pure a) w (.pure b) w' ↔ a = b ∧ w' = w := by
  constructor
  · intro h
    cases h
    exact ⟨rfl, rfl⟩
  · rintro ⟨rfl, rfl⟩
    exact .refl _ _

/-- A program that starts with an action and runs to its end. -/
theorem runs_act {e : E} {k : R e → Prog E R α} {b : α} :
    Runs exec (.act e k) w (.pure b) w' ↔
      ∃ r w₁, exec e w r w₁ ∧ Runs exec (k r) w₁ (.pure b) w' := by
  constructor
  · intro h
    cases h with
    | act hx hk => exact ⟨_, _, hx, hk⟩
  · rintro ⟨r, w₁, hx, hk⟩
    exact .act hx hk

/-- A sequence runs to its end through the end of its first part. -/
theorem runs_bind {p : Prog E R α} {f : α → Prog E R β} {b : β} :
    Runs exec (p >>= f) w (.pure b) w' ↔
      ∃ a w₁, Runs exec p w (.pure a) w₁ ∧ Runs exec (f a) w₁ (.pure b) w' := by
  induction p generalizing w with
  | pure a =>
      rw [Prog.pure_bind]
      constructor
      · intro h
        exact ⟨a, w, .refl _ _, h⟩
      · rintro ⟨a', w₁, ha, h⟩
        obtain ⟨rfl, rfl⟩ := runs_pure.mp ha
        exact h
  | act e k ih =>
      rw [Prog.act_bind, runs_act]
      constructor
      · rintro ⟨r, w₁, hx, hk⟩
        obtain ⟨a, w₂, hp, hf⟩ := (ih r).mp hk
        exact ⟨a, w₂, .act hx hp, hf⟩
      · rintro ⟨a, w₂, hp, hf⟩
        obtain ⟨r, w₁, hx, hk⟩ := runs_act.mp hp
        exact ⟨r, w₁, hx, (ih r).mpr ⟨a, w₂, hk, hf⟩⟩

end Runs

/-- The actions of a program are those of its first part. -/
theorem Runs.bind {α β : Type w} {exec : (e : E) → W → R e → W → Prop} {p p' : Prog E R α}
    {w w' : W} (h : Runs exec p w p' w') (f : α → Prog E R β) :
    Runs exec (p >>= f) w (p' >>= f) w' := by
  induction h with
  | refl => exact .refl _ _
  | act hx _ ih => exact .act hx ih

/-- What the actions preserve that a program may take holds wherever a run of it has come to. -/
theorem Runs.follows {α : Type w} {exec : (e : E) → W → R e → W → Prop} {p p' : Prog E R α}
    {w w' : W} {Q : α → σ → Prop} {I : σ → W → Prop} {s : σ} (h : Runs exec p w p' w')
    (hact : ∀ {s e w r w'}, I s w → P.allowed s e → exec e w r w' → I (P.next s e r) w')
    (hf : p.Follows P s Q) (hI : I s w) : ∃ t, I t w' ∧ p'.Follows P t Q := by
  induction h generalizing s with
  | refl => exact ⟨s, hI, hf⟩
  | act hx _ ih => exact ih (hf.2 _) (hact hI hf.1 hx)

/-- Where no step is guarded, a slot may take its actions with nothing in between. -/
theorem Reachable.runs (hg : ∀ w φ i e, S.guard w φ i e) {c : Configuration ι σ E R W} {i : ι}
    {p p' : Prog E R PUnit} {w' : W} (hp : c.prog i = p) (h : Runs S.exec p c.world p' w') :
    ∃ φ, S.Reachable c ⟨w', φ, update c.prog i p'⟩ := by
  generalize hw : c.world = w at h
  induction h generalizing c with
  | refl => exact ⟨c.phase, by rw [← hp, ← hw, Function.update_eq_self]; exact .refl⟩
  | @act e k r _ w₁ _ _ hx _ ih =>
      subst hw
      obtain ⟨φ, hr⟩ := ih (c := ⟨w₁, update c.phase i (S.next (c.phase i) e r),
        update c.prog i (k r)⟩) (by simp) rfl
      rw [Function.update_idem] at hr
      exact ⟨φ, .head (.act i hp (hg _ _ _ _) hx) hr⟩

/-- An idle slot is given a call and takes its actions with nothing in between. -/
theorem Reachable.call_runs (hg : ∀ w φ i e, S.guard w φ i e) {c : Configuration ι σ E R W} {i : ι}
    {p p' : Prog E R PUnit} {s : σ} {w' : W} (hi : c.prog i = .pure ⟨⟩) (h : S.start i p s)
    (hx : Runs S.exec p c.world p' w') : ∃ φ, S.Reachable c ⟨w', φ, update c.prog i p'⟩ := by
  obtain ⟨φ, hr⟩ := runs hg (c := { c with phase := update c.phase i s, prog := update c.prog i p })
    (i := i) (by simp) hx
  rw [Function.update_idem] at hr
  exact ⟨φ, .head (.call i hi h) hr⟩

/-- One step preserves an inductive invariant. -/
theorem Invariant.step (h : Inductive S P Q G) {c c' : Configuration ι σ E R W}
    (hc : Invariant P Q G c) (hs : S.Step c c') : Invariant P Q G c' := by
  cases hs with
  | call i hi hst =>
      have hQ : Q (c.phase i) := by simpa [hi] using hc.follows i
      obtain ⟨hG, hp⟩ := h.call hc.global hQ hst
      refine ⟨hG, fun j ↦ ?_⟩
      by_cases hj : j = i
      · subst hj; simpa using hp
      · simpa [hj] using hc.follows j
  | @act i e k r w hi hg hx =>
      have hf := hc.follows i
      rw [hi, Prog.follows_act, h.next_eq] at hf
      refine ⟨h.act hc.global hf.1 hg hx, fun j ↦ ?_⟩
      by_cases hj : j = i
      · subst hj; simpa using hf.2 r
      · simpa [hj] using hc.follows j
  | env he => exact h.env hc he

/-- An inductive invariant holds in every state a run leads to. -/
theorem Invariant.reachable (h : Inductive S P Q G) {c c' : Configuration ι σ E R W}
    (hc : Invariant P Q G c) (hr : S.Reachable c c') : Invariant P Q G c' := by
  induction hr with
  | refl => exact hc
  | tail _ hs ih => exact ih.step h hs

omit [DecidableEq ι] in
/-- In a quiet state every observer is in a final phase. -/
theorem Invariant.quiet {c : Configuration ι σ E R W} (hc : Invariant P Q G c) (hq : c.Quiet) (i : ι) :
    Q (c.phase i) := by
  simpa [hq i] using hc.follows i

/-! ## Other observers

The phase that a system carries is one observer of its programs.  Another one may watch them as
well: `Observed` says that some phases of it fit the programs and the world.
-/

section Observed

universe t

variable {τ : Type t} {P : Protocol E R τ} {Q : τ → Prop} {G : W → (ι → τ) → Prop}

/-- An observer can be in phases that `G` describes. -/
def Observed (P : Protocol E R τ) (Q : τ → Prop) (G : W → (ι → τ) → Prop)
    (c : Configuration ι σ E R W) : Prop :=
  ∃ φ, G c.world φ ∧ ∀ i, (c.prog i).Follows P (φ i) fun _ t ↦ Q t

/-- One step keeps what an observer knows, or it is an action that the observer does not expect. -/
theorem Observed.step (bad : (e : E) → R e → Prop)
    (hcall : ∀ {w φ i p s}, G w φ → Q (φ i) → S.start i p s →
      ∃ t, G w (update φ i t) ∧ p.Follows P t fun _ t ↦ Q t)
    (hact : ∀ {w φ i e r w'}, G w φ → P.allowed (φ i) e → S.exec e w r w' →
      bad e r ∨ G w' (update φ i (P.next (φ i) e r)))
    (henv : ∀ {c c'}, S.env c c' → c'.prog = c.prog ∧ ∀ φ, G c.world φ → G c'.world φ)
    {c c' : Configuration ι σ E R W} (h : Observed P Q G c) (hs : S.Step c c') :
    (∃ i e k r, c.prog i = .act e k ∧ S.exec e c.world r c'.world ∧
      c' = ⟨c'.world, update c.phase i (S.next (c.phase i) e r), update c.prog i (k r)⟩ ∧ bad e r) ∨
    Observed P Q G c' := by
  obtain ⟨φ, hG, hf⟩ := h
  cases hs with
  | call i hi hst =>
      have hQ : Q (φ i) := by simpa [hi] using hf i
      obtain ⟨t, hG, hp⟩ := hcall hG hQ hst
      refine .inr ⟨_, hG, fun j ↦ ?_⟩
      by_cases hj : j = i
      · subst hj
        simpa using hp
      · simpa [hj] using hf j
  | @act i e k r w hi _ hx =>
      have hfi := hf i
      rw [hi, Prog.follows_act] at hfi
      refine (hact hG hfi.1 hx).imp (fun hb ↦ ⟨i, e, k, r, hi, hx, rfl, hb⟩) fun hG ↦
        ⟨_, hG, fun j ↦ ?_⟩
      by_cases hj : j = i
      · subst hj
        simpa using hfi.2 r
      · simpa [hj] using hf j
  | env he =>
      obtain ⟨hprog, hG'⟩ := henv he
      exact .inr ⟨φ, hG' φ hG, fun j ↦ by rw [hprog]; exact hf j⟩

/-- What an observer knows holds in every state a run leads to. -/
theorem Observed.reachable
    (hcall : ∀ {w φ i p s}, G w φ → Q (φ i) → S.start i p s →
      ∃ t, G w (update φ i t) ∧ p.Follows P t fun _ t ↦ Q t)
    (hact : ∀ {w φ i e r w'}, G w φ → P.allowed (φ i) e → S.exec e w r w' →
      G w' (update φ i (P.next (φ i) e r)))
    (henv : ∀ {c c'}, S.env c c' → c'.prog = c.prog ∧ ∀ φ, G c.world φ → G c'.world φ)
    {c c' : Configuration ι σ E R W} (h : Observed P Q G c) (hr : S.Reachable c c') :
    Observed P Q G c' := by
  induction hr with
  | refl => exact h
  | tail _ hs ih =>
      have hstep := ih.step (fun _ _ ↦ False) (fun hG hQ hst ↦ hcall hG hQ hst)
        (fun hG ha hx ↦ .inr (hact hG ha hx)) (fun he ↦ henv he) hs
      exact hstep.resolve_left fun ⟨_, _, _, _, _, _, _, hbad⟩ ↦ hbad

end Observed

end System
