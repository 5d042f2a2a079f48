import NodeSentinel.Effect.Prog

/-!
# Protocols

A protocol is an automaton over the actions of a program: in each phase it allows
some actions, and the answer to an action decides the next phase.  `Follows` says
that a program only issues what the protocol allows, whatever the answers are.

The phase is what an observer knows about a computation from the actions and
answers seen so far.  A program is checked against its protocol once, by walking
over its text; invariants of a system are then proved about phases, action by
action, and no longer mention the program.
-/

universe u v w x

/-- An automaton over the actions of a program. -/
structure Protocol (E : Type u) (R : E → Type v) (σ : Type x) where
  /-- Whether an action may be issued in a phase. -/
  allowed : σ → E → Prop
  /-- The phase after an action and its answer. -/
  next : σ → (e : E) → R e → σ

namespace Prog

variable {E : Type u} {R : E → Type v} {σ : Type x} {α β : Type w}

/-- From phase `s`, every action of the program is allowed by `P`, and the program
returns only values and phases in `Q`. -/
def Follows (P : Protocol E R σ) : σ → Prog E R α → (α → σ → Prop) → Prop
  | s, .pure a, Q => Q a s
  | s, .act e k, Q => P.allowed s e ∧ ∀ r, Follows P (P.next s e r) (k r) Q

variable {P : Protocol E R σ} {s : σ}

@[simp] theorem follows_pure {a : α} {Q : α → σ → Prop} :
    Follows P s (.pure a) Q ↔ Q a s := Iff.rfl

@[simp] theorem follows_act {e : E} {k : R e → Prog E R α} {Q : α → σ → Prop} :
    Follows P s (.act e k) Q ↔ P.allowed s e ∧ ∀ r, Follows P (P.next s e r) (k r) Q :=
  Iff.rfl

/-- A program that starts with an action. -/
theorem follows_perform {R : E → Type w} {P : Protocol E R σ} {e : E} {f : R e → Prog E R β}
    {Q : β → σ → Prop} : Follows P s (perform e >>= f) Q ↔
      P.allowed s e ∧ ∀ r, Follows P (P.next s e r) (f r) Q := Iff.rfl

/-- The postcondition may be weakened. -/
theorem Follows.mono {p : Prog E R α} {Q Q' : α → σ → Prop}
    (h : Follows P s p Q) (hQ : ∀ a t, Q a t → Q' a t) : Follows P s p Q' := by
  induction p generalizing s with
  | pure a => exact hQ a s h
  | act e k ih => exact ⟨h.1, fun r ↦ ih r (h.2 r)⟩

/-- Sequencing: the second program starts in a phase the first one may end in. -/
theorem Follows.bind {p : Prog E R α} {f : α → Prog E R β} {Q : α → σ → Prop}
    {Q' : β → σ → Prop} (h : Follows P s p Q) (hf : ∀ a t, Q a t → Follows P t (f a) Q') :
    Follows P s (p >>= f) Q' := by
  induction p generalizing s with
  | pure a => exact hf a s h
  | act e k ih => exact ⟨h.1, fun r ↦ ih r (h.2 r)⟩

/-- A loop over a list: `I` is what holds of the phase when the given elements are
still to come. -/
theorem Follows.forM {xs : List β} {f : β → Prog E R PUnit.{w + 1}}
    {I : List β → σ → Prop}
    (h : ∀ y ys t, I (y :: ys) t → Follows P t (f y) fun _ t' ↦ I ys t')
    (hs : I xs s) : Follows P s (xs.forM f) fun _ t ↦ I [] t := by
  induction xs generalizing s with
  | nil => exact hs
  | cons y ys ih => exact (h y ys s hs).bind fun _ t ht ↦ ih ht

/-! ## What a program may issue at all -/

/-- Every action the program may come to is in `A`. -/
def Issues (A : E → Prop) : Prog E R α → Prop
  | .pure _ => True
  | .act e k => A e ∧ ∀ r, (k r).Issues A

variable {A B : E → Prop}

theorem Issues.mono {p : Prog E R α} (h : p.Issues A) (hAB : ∀ e, A e → B e) : p.Issues B := by
  induction p with
  | pure a => trivial
  | act e k ih => exact ⟨hAB e h.1, fun r ↦ ih r (h.2 r)⟩

theorem Issues.bind {p : Prog E R α} {f : α → Prog E R β} (h : p.Issues A)
    (hf : ∀ a, (f a).Issues A) : (p >>= f).Issues A := by
  induction p with
  | pure a => exact hf a
  | act e k ih => exact ⟨h.1, fun r ↦ ih r (h.2 r)⟩

/-- A program follows a protocol in a phase that allows all it may issue and does not change. -/
theorem Issues.follows {p : Prog E R α} (h : p.Issues A)
    (hA : ∀ e, A e → P.allowed s e ∧ ∀ r, P.next s e r = s) : p.Follows P s fun _ t ↦ t = s := by
  induction p with
  | pure a => exact rfl
  | act e k ih =>
      refine ⟨(hA e h.1).1, fun r ↦ ?_⟩
      rw [(hA e h.1).2 r]
      exact ih r (h.2 r)

end Prog
