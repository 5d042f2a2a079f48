import NodeSentinel.Effect.Prog

/-!
# Runs and what is seen of them

A program is run to its end by a function that serves its actions.  A `View` is what somebody sees
of the world.  A program is *hidden* from it when running the program changes nothing that is seen,
and two programs are *alike* to it when, from worlds that look the same, they return the same and
lead to worlds that look the same.  Two loops are alike as soon as the elements that are not hidden
are the same: the others may be any, in any order and served in any way.

A program that is composed of blocks is hidden when its blocks are, and alike to itself when its
blocks are: either way the program is walked over once.
-/

universe u v w y z

namespace Prog

variable {E : Type u} {R : E → Type v} {W : Type y} {V : Type z} {α β : Type w}

/-- Run a program to its end. -/
def run (exec : (e : E) → W → Option (R e × W)) : Prog E R α → W → Option (α × W)
  | .pure a, w => some (a, w)
  | .act e k, w => (exec e w).bind fun x ↦ run exec (k x.1) x.2

theorem bind_assoc {γ : Type w} (p : Prog E R α) (f : α → Prog E R β) (g : β → Prog E R γ) :
    p >>= f >>= g = p >>= fun a ↦ f a >>= g := by
  induction p with
  | pure a => rfl
  | act e k ih =>
      rw [act_bind, act_bind, act_bind]
      congr 1
      funext r
      exact ih r

section

variable {exec : (e : E) → W → Option (R e × W)} {w : W}

@[simp] theorem run_pure (a : α) : run exec (.pure a) w = some (a, w) := rfl

/-- The first action is served. -/
theorem run_act {e : E} {k : R e → Prog E R α} {r : R e} {w₁ : W} (h : exec e w = some (r, w₁)) :
    run exec (.act e k) w = run exec (k r) w₁ := by rw [run, h, Option.bind_some]

/-- A sequence runs through the end of its first part. -/
theorem run_bind (p : Prog E R α) (f : α → Prog E R β) :
    run exec (p >>= f) w = (run exec p w).bind fun x ↦ run exec (f x.1) x.2 := by
  induction p generalizing w with
  | pure a => rfl
  | act e k ih =>
      rw [act_bind, run, run, Option.bind_assoc]
      congr 1
      funext x
      exact ih x.1

end

/-- What is seen of the worlds that a program may be run in. -/
structure View (W : Type y) (V : Type z) where
  /-- The worlds that a program may be run in. -/
  valid : W → Prop
  /-- What is seen of them. -/
  see : W → V

/-- Running the program changes nothing that is seen, and returns a value in `Q`. -/
def Hidden (exec : (e : E) → W → Option (R e × W)) (S : View W V) (p : Prog E R α)
    (Q : α → Prop) : Prop :=
  ∀ w, S.valid w → ∃ a w', p.run exec w = some (a, w') ∧ Q a ∧ S.valid w' ∧ S.see w' = S.see w

/-- From worlds that look the same, the programs return the same value, which is in `Q`, and lead to
worlds that look the same. -/
def Alike (exec₁ exec₂ : (e : E) → W → Option (R e × W)) (S : View W V) (p₁ p₂ : Prog E R α)
    (Q : α → Prop) : Prop :=
  ∀ w₁ w₂, S.valid w₁ → S.valid w₂ → S.see w₁ = S.see w₂ → ∃ a w₁' w₂',
    p₁.run exec₁ w₁ = some (a, w₁') ∧ p₂.run exec₂ w₂ = some (a, w₂') ∧ Q a ∧
      S.valid w₁' ∧ S.valid w₂' ∧ S.see w₁' = S.see w₂'

variable {exec exec₁ exec₂ : (e : E) → W → Option (R e × W)} {S : View W V} {p p₁ p₂ : Prog E R α}
  {f f₁ f₂ : α → Prog E R β} {P : α → Prop} {Q : β → Prop}

/-! ## Rules -/

theorem Hidden.pure {a : α} (h : P a) : Hidden exec S (.pure a) P :=
  fun w hw ↦ ⟨a, w, rfl, h, hw, rfl⟩

theorem Hidden.bind (hp : Hidden exec S p P) (hf : ∀ a, P a → Hidden exec S (f a) Q) :
    Hidden exec S (p >>= f) Q := by
  intro w hw
  obtain ⟨a, w₁, hrun, ha, hw₁, hsee₁⟩ := hp w hw
  obtain ⟨b, w₂, hrun', hb, hw₂, hsee₂⟩ := hf a ha w₁ hw₁
  refine ⟨b, w₂, ?_, hb, hw₂, hsee₂.trans hsee₁⟩
  rw [run_bind, hrun]
  exact hrun'

theorem Alike.pure {a : α} (h : P a) : Alike exec₁ exec₂ S (.pure a) (.pure a) P :=
  fun w₁ w₂ hw₁ hw₂ hsee ↦ ⟨a, w₁, w₂, rfl, rfl, h, hw₁, hw₂, hsee⟩

theorem Alike.bind (hp : Alike exec₁ exec₂ S p₁ p₂ P)
    (hf : ∀ a, P a → Alike exec₁ exec₂ S (f₁ a) (f₂ a) Q) :
    Alike exec₁ exec₂ S (p₁ >>= f₁) (p₂ >>= f₂) Q := by
  intro w₁ w₂ hw₁ hw₂ hsee
  obtain ⟨a, w₁', w₂', hrun₁, hrun₂, ha, hw₁', hw₂', hsee'⟩ := hp w₁ w₂ hw₁ hw₂ hsee
  obtain ⟨b, w₁'', w₂'', hrun₁', hrun₂', hb, hfinal⟩ := hf a ha w₁' w₂' hw₁' hw₂' hsee'
  refine ⟨b, w₁'', w₂'', ?_, ?_, hb, hfinal⟩
  · rw [run_bind, hrun₁]
    exact hrun₁'
  · rw [run_bind, hrun₂]
    exact hrun₂'

theorem Alike.symm (h : Alike exec₁ exec₂ S p₁ p₂ P) : Alike exec₂ exec₁ S p₂ p₁ P := by
  intro w₂ w₁ hw₂ hw₁ hsee
  obtain ⟨a, w₁', w₂', hrun₁, hrun₂, ha, hw₁', hw₂', hsee'⟩ := h w₁ w₂ hw₁ hw₂ hsee.symm
  exact ⟨a, w₂', w₁', hrun₂, hrun₁, ha, hw₂', hw₁', hsee'.symm⟩

/-- What is hidden may come first on one side. -/
theorem Alike.hidden_bind {p : Prog E R α} {q₁ q₂ : Prog E R β} (hp : Hidden exec₁ S p P)
    (h : Alike exec₁ exec₂ S q₁ q₂ Q) : Alike exec₁ exec₂ S (p >>= fun _ ↦ q₁) q₂ Q := by
  intro w₁ w₂ hw₁ hw₂ hsee
  obtain ⟨a, w₁', hrun, -, hw₁', hsee'⟩ := hp w₁ hw₁
  obtain ⟨b, v₁, v₂, hrun₁, hrun₂, hfinal⟩ := h w₁' w₂ hw₁' hw₂ (hsee'.trans hsee)
  refine ⟨b, v₁, v₂, ?_, hrun₂, hfinal⟩
  rw [run_bind, hrun]
  exact hrun₁

/-- Two loops are alike if the elements of `q` are the same, and alike, and the others are hidden. -/
theorem Alike.forM {τ : Type w} {g₁ g₂ : τ → Prog E R PUnit.{w + 1}} {q : τ → Bool} {l₁ l₂ : List τ}
    (hown : ∀ t, q t → Alike exec₁ exec₂ S (g₁ t) (g₂ t) fun _ ↦ True)
    (hidden₁ : ∀ t, ¬ q t → Hidden exec₁ S (g₁ t) fun _ ↦ True)
    (hidden₂ : ∀ t, ¬ q t → Hidden exec₂ S (g₂ t) fun _ ↦ True)
    (h : l₁.filter q = l₂.filter q) :
    Alike exec₁ exec₂ S (l₁.forM g₁) (l₂.forM g₂) fun _ ↦ True := by
  induction l₁ generalizing l₂ with
  | nil =>
      induction l₂ with
      | nil => exact .pure trivial
      | cons t l₂ ih =>
          have ht : ¬ q t := fun ht ↦ by simp [ht] at h
          rw [List.filter_cons_of_neg ht] at h
          exact ((ih h).symm.hidden_bind (hidden₂ t ht)).symm
  | cons t l₁ ih =>
      by_cases ht : q t
      · induction l₂ with
        | nil => simp [ht] at h
        | cons t' l₂ ih₂ =>
            by_cases ht' : q t'
            · rw [List.filter_cons_of_pos ht, List.filter_cons_of_pos ht'] at h
              obtain ⟨rfl, htail⟩ := List.cons_eq_cons.mp h
              exact (hown t ht).bind fun _ _ ↦ ih htail
            · rw [List.filter_cons_of_neg ht'] at h
              exact ((ih₂ h).symm.hidden_bind (hidden₂ t' ht')).symm
      · rw [List.filter_cons_of_neg ht] at h
        exact (ih h).hidden_bind (hidden₁ t ht)

/-! ## Programs of blocks -/

/-- A program that is composed of blocks in `B`, each with what it returns. -/
inductive ComposedOf (B : ⦃α : Type w⦄ → Prog E R α → (α → Prop) → Prop) :
    {α : Type w} → Prog E R α → Prop
  | pure {α : Type w} (a : α) : ComposedOf B (.pure a)
  | bind {α β : Type w} {p : Prog E R α} {f : α → Prog E R β} {P : α → Prop} (hp : B p P)
      (hf : ∀ a, P a → ComposedOf B (f a)) : ComposedOf B (p >>= f)

namespace ComposedOf

variable {B : ⦃α : Type w⦄ → Prog E R α → (α → Prop) → Prop}

/-- Programs of blocks in sequence. -/
theorem seq (hp : ComposedOf B p) (hf : ∀ a, ComposedOf B (f a)) : ComposedOf B (p >>= f) := by
  induction hp with
  | pure a => exact hf a
  | bind hb _ ih =>
      rw [bind_assoc]
      exact .bind hb fun a ha ↦ ih a ha hf

theorem hidden (hB : ∀ ⦃α : Type w⦄ {p : Prog E R α} {P : α → Prop}, B p P → Hidden exec S p P)
    (h : ComposedOf B p) : Hidden exec S p fun _ ↦ True := by
  induction h with
  | pure a => exact .pure trivial
  | bind hp _ ih => exact (hB hp).bind ih

theorem alike (hB : ∀ ⦃α : Type w⦄ {p : Prog E R α} {P : α → Prop}, B p P → Alike exec₁ exec₂ S p p P)
    (h : ComposedOf B p) : Alike exec₁ exec₂ S p p fun _ ↦ True := by
  induction h with
  | pure a => exact .pure trivial
  | bind hp _ ih => exact (hB hp).bind ih

end ComposedOf

end Prog
