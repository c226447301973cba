/-
A program run alone.

`solo` answers each call of a program in turn and hands the state on, to
the end. It takes apart like the program: `solo_bind` and
`solo_tryCatch` say how the pieces follow each other, `solo_keeps` is
the rule for what none of a program's calls disturbs.
-/
import Lumix.Lib.Program

namespace Lumix.Prog

variable {Q : Type} {A : Q → Type} {ε α β σ : Type}

/-- A program that runs by itself. -/
def solo (exec : (q : Q) → σ → σ × Except ε (A q)) :
    Prog A ε α → σ → σ × Except ε α
  | .pure a, s => (s, .ok a)
  | .throw e, s => (s, .error e)
  | .call q k, s => (k (exec q s).2).solo exec (exec q s).1

/-- Go on from where a program has returned. -/
def andThen : σ × Except ε α → (α → σ → σ × Except ε β) →
    σ × Except ε β
  | (s, .ok a), f => f a s
  | (s, .error e), _ => (s, .error e)

/-- Go on from where a program has thrown. -/
def orElse : σ × Except ε α → (ε → σ → σ × Except ε α) →
    σ × Except ε α
  | (s, .ok a), _ => (s, .ok a)
  | (s, .error e), f => f e s

@[simp]
theorem andThen_ok (s : σ) (a : α) (f : α → σ → σ × Except ε β) :
    andThen (s, .ok a) f = f a s := rfl

@[simp]
theorem andThen_error (s : σ) (e : ε) (f : α → σ → σ × Except ε β) :
    andThen (s, .error e) f = (s, .error e) := rfl

@[simp]
theorem orElse_ok (s : σ) (a : α) (f : ε → σ → σ × Except ε α) :
    orElse (s, .ok a) f = (s, .ok a) := rfl

@[simp]
theorem orElse_error (s : σ) (e : ε) (f : ε → σ → σ × Except ε α) :
    orElse (s, .error e) f = f e s := rfl

variable (exec : (q : Q) → σ → σ × Except ε (A q))

@[simp]
theorem solo_pure (a : α) (s : σ) :
    solo exec (Pure.pure a : Prog A ε α) s = (s, .ok a) := rfl

@[simp]
theorem solo_throw (e : ε) (s : σ) :
    solo exec (MonadExcept.throw e : Prog A ε α) s = (s, .error e) := rfl

/-- A call runs. -/
@[simp]
theorem solo_query (q : Q) (s : σ) : solo exec (query q) s = exec q s := by
  show solo exec _ (exec q s).1 = exec q s
  cases h : (exec q s).2 with
  | ok a => exact Prod.ext rfl h.symm
  | error e => exact Prod.ext rfl h.symm

/-- One program after another. -/
@[simp]
theorem solo_bind (p : Prog A ε α) (f : α → Prog A ε β) (s : σ) :
    solo exec (p >>= f) s
      = andThen (solo exec p s) fun a s' => solo exec (f a) s' := by
  induction p generalizing s with
  | pure a => rfl
  | throw e => rfl
  | call q k ih => exact ih (exec q s).2 (exec q s).1

/-- A handler runs where its program throws. -/
@[simp]
theorem solo_tryCatch (p : Prog A ε α) (h : ε → Prog A ε α) (s : σ) :
    solo exec (tryCatch p h) s
      = orElse (solo exec p s) fun e s' => solo exec (h e) s' := by
  induction p generalizing s with
  | pure a => rfl
  | throw e => rfl
  | call q k ih => exact ih (exec q s).2 (exec q s).1

variable {exec}

/-- What no call of the program disturbs. -/
theorem solo_keeps {I : σ → Prop} {P : Q → Prop}
    (hcall : ∀ q s, P q → I s → I (exec q s).1) {p : Prog A ε α}
    (hp : p.Uses P) {s : σ} (hs : I s) : I (solo exec p s).1 := by
  induction p generalizing s with
  | pure a => exact hs
  | throw e => exact hs
  | call q k ih => exact ih _ (hp.2 _) (hcall q s hp.1 hs)

/-- A result that is mapped changes no state. -/
theorem andThen_pure (r : σ × Except ε α) (f : α → β) :
    (andThen r fun a s => (s, .ok (f a))).1 = r.1 := by
  obtain ⟨s, e | a⟩ := r
  · rfl
  · rfl

/-- Both programs have returned. -/
theorem andThen_eq_ok {r : σ × Except ε α} {f : α → σ → σ × Except ε β}
    {b : β} (h : (andThen r f).2 = .ok b) :
    ∃ a, r.2 = .ok a ∧ (f a r.1).2 = .ok b := by
  obtain ⟨s, e | a⟩ := r
  · cases h
  · exact ⟨a, rfl, h⟩

/-- The calls of either branch. -/
theorem Uses.ite {P : Q → Prop} {c : Prop} [Decidable c]
    {p q : Prog A ε α} (hp : p.Uses P) (hq : q.Uses P) :
    (if c then p else q).Uses P := by
  by_cases h : c
  · rw [if_pos h]
    exact hp
  · rw [if_neg h]
    exact hq

/-- The rule for a sequence: it stops where its first program throws,
or goes on from where that one has returned. -/
theorem solo_bind_of {K : σ × Except ε β → Prop} {p : Prog A ε α}
    {f : α → Prog A ε β} {s : σ}
    (hthrow : ∀ e, (solo exec p s).2 = .error e →
      K ((solo exec p s).1, .error e))
    (hreturn : ∀ a, (solo exec p s).2 = .ok a →
      K (solo exec (f a) (solo exec p s).1)) :
    K (solo exec (p >>= f) s) := by
  rw [solo_bind]
  cases hr : solo exec p s with
  | mk s' r =>
      rw [hr] at hthrow hreturn
      cases r with
      | ok a => exact hreturn a rfl
      | error e => exact hthrow e rfl

/-- What both programs keep. -/
theorem solo_bind_keeps {I : σ → Prop} {p : Prog A ε α}
    {f : α → Prog A ε β} {s : σ} (hp : I (solo exec p s).1)
    (hf : ∀ a, (solo exec p s).2 = .ok a →
      I (solo exec (f a) (solo exec p s).1).1) :
    I (solo exec (p >>= f) s).1 :=
  solo_bind_of (K := fun r => I r.1) (fun _ _ => hp) hf

/-- What program and handler keep. -/
theorem solo_tryCatch_keeps {I : σ → Prop} {p : Prog A ε α}
    {h : ε → Prog A ε α} {s : σ} (hp : I (solo exec p s).1)
    (hh : ∀ e, (solo exec p s).2 = .error e →
      I (solo exec (h e) (solo exec p s).1).1) :
    I (solo exec (tryCatch p h) s).1 := by
  rw [solo_tryCatch]
  cases hr : solo exec p s with
  | mk s' r =>
      rw [hr] at hp hh
      cases r with
      | ok a => exact hp
      | error e => exact hh e rfl

end Lumix.Prog
