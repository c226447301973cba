/-
Statements that can fail.

`perform` is what a statement does to the state and what it answers, with
`δ` what it draws: the time, fresh ids. A choice decides on each call
whether the statement goes through, fails and does nothing, or goes
through while its answer is lost on the way.
-/
import Mathlib.Tactic.Common

namespace Lumix.Statement

variable {Q : Type} {A : Q → Type} {ε δ σ : Type}

/-- What becomes of a statement: it runs, it fails, or it runs and its
answer is lost. -/
inductive Choice (δ : Type)
  | go (draw : δ)
  | fail
  | lose (draw : δ)

/-- A statement as chosen. -/
def exec (perform : δ → σ → (q : Q) → σ × Except ε (A q)) (lost : ε)
    (q : Q) (c : Choice δ) (s : σ) : σ × Except ε (A q) :=
  match c with
  | .go draw => perform draw s q
  | .fail => (s, .error lost)
  | .lose draw => ((perform draw s q).1, .error lost)

/-- The statement is executed, whether its answer arrives or not. -/
def Executed (P : δ → Prop) : Choice δ → Prop
  | .go draw => P draw
  | .fail => True
  | .lose draw => P draw

instance (P : δ → Prop) [DecidablePred P] (c : Choice δ) :
    Decidable (Executed P c) := by
  unfold Executed
  split <;> infer_instance

variable {perform : δ → σ → (q : Q) → σ × Except ε (A q)} {lost : ε}
  {q : Q} {c : Choice δ} {s : σ}

/-- What an executed statement does, the choice does. -/
theorem exec_keeps {P : δ → Prop} {R : σ → Prop} (hc : Executed P c)
    (hfail : R s) (h : ∀ draw, P draw → R (perform draw s q).1) :
    R (exec perform lost q c s).1 := by
  cases c with
  | go draw => exact h draw hc
  | fail => exact hfail
  | lose draw => exact h draw hc

/-- An answer comes from a statement that went through. -/
theorem exec_answered {a : A q} (h : (exec perform lost q c s).2 = .ok a) :
    ∃ draw, c = .go draw ∧ perform draw s q
      = ((exec perform lost q c s).1, .ok a) := by
  cases c with
  | go draw => exact ⟨draw, rfl, Prod.ext rfl h⟩
  | fail => cases h
  | lose draw => cases h

end Lumix.Statement
