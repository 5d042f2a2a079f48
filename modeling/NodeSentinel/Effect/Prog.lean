import Mathlib

/-!
# Programs over a signature of atomic actions

`Prog E R α` is a finite computation that issues atomic actions `e : E`, waits for
an answer `r : R e` after each of them and finally returns an `α`.  The actions
are left uninterpreted: the same program is later run alone, run in a pool of
concurrent programs, killed half way, or checked against a protocol, without
being written a second time.

A program is an inductive tree, so it issues finitely many actions whatever the
answers are: a loop over a list is the list's own recursion.
-/

universe u v w

/-- A computation that issues actions from `E` and returns a value of type `α`. -/
inductive Prog (E : Type u) (R : E → Type v) (α : Type w) : Type (max u v w) where
  /-- Return `a` without issuing anything. -/
  | pure (a : α)
  /-- Issue `e` and continue with its answer. -/
  | act (e : E) (k : R e → Prog E R α)

namespace Prog

variable {E : Type u} {R : E → Type v} {α β : Type w}

/-- Run `p`, then the program `f` gives for its result. -/
def bind : Prog E R α → (α → Prog E R β) → Prog E R β
  | .pure a, f => f a
  | .act e k, f => .act e fun r ↦ (k r).bind f

instance instMonad : Monad (Prog E R) where
  pure := .pure
  bind := bind

/-- The program that issues one action and returns its answer. -/
def perform {R : E → Type w} (e : E) : Prog E R (R e) := .act e .pure

@[simp] theorem pure_eq (a : α) : (Pure.pure a : Prog E R α) = .pure a := rfl

@[simp] theorem pure_bind (a : α) (f : α → Prog E R β) : (Prog.pure a >>= f) = f a := rfl

@[simp] theorem act_bind (e : E) (k : R e → Prog E R α) (f : α → Prog E R β) :
    (Prog.act e k >>= f) = .act e fun r ↦ k r >>= f := rfl

@[simp] theorem perform_bind {R : E → Type w} (e : E) (f : R e → Prog E R β) :
    (perform e >>= f) = .act e f := rfl

/-- Whether a program has returned. -/
def isPure : Prog E R α → Bool
  | .pure _ => true
  | .act _ _ => false

theorem eq_pure_of_isPure {p : Prog E R PUnit.{w + 1}} (h : p.isPure) : p = .pure ⟨⟩ := by
  cases p with
  | pure => rfl
  | act => cases h

end Prog
