/-
Guarded computations: programs that either return a value or abort with
a reason, and whose abort undoes everything they did. A contract call
is such a program; so is any transaction that is all or nothing.

The monad is `Except`. What this file adds is the reasoning vocabulary:
one inversion lemma per combinator, for success and for a given abort,
all tagged for `simp`, so that a long straight-line program is taken
apart into the list of conditions it checked instead of being unfolded
branch by branch.
-/
import Mathlib.Data.List.Forall2
import Mathlib.Logic.Basic
import Mathlib.Tactic.Common

namespace Lumix.Exec

universe u v

variable {ε : Type u} {α β : Type v}

-- ======================================================= combinators

/-- Abort with `e` when the condition holds, the shape of every
`if cond { panic }` guard. -/
def panicIf (c : Prop) [Decidable c] (e : ε) : Except ε Unit :=
  if c then .error e else .ok ()

/-- The value of an option, or the abort `e`: `unwrap_or_else(panic)`. -/
def orPanic (e : ε) : Option α → Except ε α
  | some a => .ok a
  | none => .error e

-- ========================================================= inversion

/-- A program returns `b` exactly when its head returns and the rest
returns `b` from there. -/
@[simp]
theorem bind_eq_ok {head : Except ε α} {rest : α → Except ε β} {b : β} :
    (head >>= rest) = .ok b ↔ ∃ a, head = .ok a ∧ rest a = .ok b := by
  cases head with
  | ok a => exact ⟨fun h => ⟨a, rfl, h⟩, fun ⟨_, rfl, h⟩ => h⟩
  | error e => exact ⟨fun h => (by cases h), fun ⟨_, h, _⟩ => (by cases h)⟩

/-- A program aborts with `e` exactly when its head does, or when the
head returns and the rest aborts with `e`. -/
theorem bind_eq_error {head : Except ε α} {rest : α → Except ε β}
    {e : ε} :
    (head >>= rest) = .error e
      ↔ head = .error e ∨ ∃ a, head = .ok a ∧ rest a = .error e := by
  cases head with
  | ok a => simp [bind, Except.bind]
  | error e' => simp [bind, Except.bind]

/-- Success is one value. -/
@[simp]
theorem pure_eq_ok {a b : α} :
    (pure a : Except ε α) = .ok b ↔ a = b := by
  simp [pure, Except.pure]

/-- It is no failure. -/
@[simp]
theorem pure_eq_error {a : α} {e : ε} :
    (pure a : Except ε α) = .error e ↔ False := by
  simp [pure, Except.pure]

/-- A map that succeeds. -/
@[simp]
theorem map_eq_ok {f : α → β} {x : Except ε α} {b : β} :
    (f <$> x) = .ok b ↔ ∃ a, x = .ok a ∧ f a = b := by
  cases x <;> simp [Functor.map, Except.map]

/-- A check that passes, -/
@[simp]
theorem panicIf_eq_ok {c : Prop} [Decidable c] {e : ε} {u : Unit} :
    panicIf c e = .ok u ↔ ¬c := by
  unfold panicIf
  by_cases h : c <;> simp [h]

/-- and one that does not. -/
@[simp]
theorem panicIf_eq_error {c : Prop} [Decidable c] {e e' : ε} :
    panicIf c e = .error e' ↔ c ∧ e = e' := by
  unfold panicIf
  by_cases h : c <;> simp [h]

/-- A value that is there, -/
@[simp]
theorem orPanic_eq_ok {e : ε} {o : Option α} {a : α} :
    orPanic e o = .ok a ↔ o = some a := by
  cases o <;> simp [orPanic]

/-- and one that is not. -/
@[simp]
theorem orPanic_eq_error {e e' : ε} {o : Option α} :
    orPanic e o = .error e' ↔ o = none ∧ e = e' := by
  cases o <;> simp [orPanic]

/-- A list is worked through to its end. -/
theorem mapM_eq_ok {f : α → Except ε β} {xs : List α} {ys : List β} :
    xs.mapM f = .ok ys ↔ List.Forall₂ (fun x y => f x = .ok y) xs ys := by
  induction xs generalizing ys with
  | nil =>
      rw [List.mapM_nil, pure_eq_ok, List.forall₂_nil_left_iff]
      exact eq_comm
  | cons x xs ih =>
      rw [List.mapM_cons, List.forall₂_cons_left_iff]
      simp only [bind_eq_ok, pure_eq_ok, ih]
      constructor
      · intro h
        obtain ⟨y, hy, ys', hys', rfl⟩ := h
        exact ⟨y, ys', hy, hys', rfl⟩
      · intro h
        obtain ⟨y, ys', hy, hys', rfl⟩ := h
        exact ⟨y, hy, ys', hys', rfl⟩

/-- A program does not abort with `e` if neither its head does nor, from
whatever the head returns, its rest. -/
theorem bind_ne_error {head : Except ε α} {rest : α → Except ε β} {e : ε}
    (hhead : head ≠ .error e)
    (hrest : ∀ a, head = .ok a → rest a ≠ .error e) :
    (head >>= rest) ≠ .error e := by
  rw [Ne, bind_eq_error]
  rintro (h | ⟨a, ha, h⟩)
  · exact hhead h
  · exact hrest a ha h

/-- A guarded loop: what every pass keeps holds at the end, and where a
pass aborts the reason says what it says of any pass. -/
theorem foldlM_cases {f : β → α → Except ε β} (P : β → Prop)
    (Q : ε → Prop)
    {xs : List α} {b : β} (hb : P b)
    (hok : ∀ x ∈ xs, ∀ b b', P b → f b x = .ok b' → P b')
    (herror : ∀ x ∈ xs, ∀ b e, P b → f b x = .error e → Q e) :
    (∀ b', xs.foldlM f b = .ok b' → P b')
      ∧ ∀ e, xs.foldlM f b = .error e → Q e := by
  induction xs generalizing b with
  | nil =>
      refine ⟨fun b' h => ?_, fun e h => ?_⟩
      · rw [List.foldlM_nil, pure_eq_ok] at h
        exact h ▸ hb
      · rw [List.foldlM_nil, pure_eq_error] at h
        exact h.elim
  | cons x xs ih =>
      have hrest : ∀ b', P b' → _ := fun b' hb' =>
        ih (b := b') hb'
          (fun y hy => hok y (List.mem_cons_of_mem _ hy))
          (fun y hy => herror y (List.mem_cons_of_mem _ hy))
      have hx := List.mem_cons_self (a := x) (l := xs)
      refine ⟨fun b' h => ?_, fun e h => ?_⟩
      · rw [List.foldlM_cons, bind_eq_ok] at h
        obtain ⟨b₁, hb₁, h⟩ := h
        exact (hrest b₁ (hok x hx b b₁ hb hb₁)).1 b' h
      · rw [List.foldlM_cons, bind_eq_error] at h
        rcases h with h | ⟨b₁, hb₁, h⟩
        · exact herror x hx b e hb h
        · exact (hrest b₁ (hok x hx b b₁ hb hb₁)).2 e h

/-- A fold each step of which returns `g` where `Q` holds, and nothing
elsewhere, returns the fold of `g` exactly when `Q` holds before each
step. -/
theorem foldlM_eq_ok {σ : Type v} {f : σ → α → Except ε σ} {g : σ → α → σ}
    {Q : σ → α → Prop}
    (hstep : ∀ s a t, f s a = .ok t ↔ Q s a ∧ t = g s a)
    {xs : List α} {s t : σ} :
    xs.foldlM f s = .ok t
      ↔ (∀ before a after, xs = before ++ a :: after →
          Q (before.foldl g s) a)
        ∧ t = xs.foldl g s := by
  induction xs generalizing s with
  | nil => simp [pure, Except.pure, eq_comm]
  | cons x xs ih =>
      rw [List.foldlM_cons, bind_eq_ok]
      constructor
      · rintro ⟨u, hu, hrest⟩
        obtain ⟨hQ, rfl⟩ := (hstep s x u).mp hu
        obtain ⟨hall, ht⟩ := ih.mp hrest
        refine ⟨?_, ht⟩
        intro before a after hsplit
        cases before with
        | nil =>
            obtain ⟨rfl, -⟩ := List.cons.inj hsplit
            exact hQ
        | cons b before =>
            obtain ⟨rfl, hxs⟩ := List.cons.inj hsplit
            exact hall before a after hxs
      · rintro ⟨hall, ht⟩
        refine ⟨g s x, (hstep s x _).mpr ⟨hall [] x xs rfl, rfl⟩, ?_⟩
        refine ih.mpr ⟨?_, ht⟩
        intro before a after hsplit
        exact hall (x :: before) a after (by rw [hsplit]; rfl)

/-- Where not every pass of a loop goes well, there is a first that does
not. -/
theorem exists_first_not {p : α → Prop} {xs : List α}
    (h : ¬∀ x ∈ xs, p x) :
    ∃ pre x post, xs = pre ++ x :: post ∧ (∀ y ∈ pre, p y) ∧ ¬p x := by
  induction xs with
  | nil => exact absurd (fun x hx => by cases hx) h
  | cons x xs ih =>
      by_cases hx : p x
      · obtain ⟨pre, y, post, rfl, hpre, hy⟩ :=
          ih fun hxs => h (List.forall_mem_cons.mpr ⟨hx, hxs⟩)
        exact ⟨x :: pre, y, post, rfl,
          List.forall_mem_cons.mpr ⟨hx, hpre⟩, hy⟩
      · exact ⟨[], x, xs, rfl, fun y hy => (by cases hy), hx⟩

-- ========================================================= agreement

/-- Two programs return together, and then related values; what they
abort with may differ. -/
structure Agree {β : Type v} (R : α → β → Prop) (x : Except ε α)
    (y : Except ε β) : Prop where
  left : ∀ a, x = .ok a → ∃ b, y = .ok b ∧ R a b
  right : ∀ b, y = .ok b → ∃ a, x = .ok a ∧ R a b

/-- Two successes agree on related values. -/
theorem Agree.pure {β : Type v} {R : α → β → Prop} {a : α} {b : β}
    (h : R a b) : Agree R (.ok a : Except ε α) (.ok b) where
  left := by
    rintro _ ⟨⟩
    exact ⟨b, rfl, h⟩
  right := by
    rintro _ ⟨⟩
    exact ⟨a, rfl, h⟩

/-- Steps that agree, after steps that agree. -/
theorem Agree.bind {β γ δ : Type v} {R : α → β → Prop}
    {S : γ → δ → Prop} {x : Except ε α} {y : Except ε β}
    {f : α → Except ε γ} {g : β → Except ε δ} (h : Agree R x y)
    (hfg : ∀ a b, R a b → Agree S (f a) (g b)) :
    Agree S (x >>= f) (y >>= g) where
  left := by
    intro c hc
    obtain ⟨a, hx, hf⟩ := bind_eq_ok.mp hc
    obtain ⟨b, hy, hR⟩ := h.left a hx
    obtain ⟨d, hg, hS⟩ := (hfg a b hR).left c hf
    exact ⟨d, bind_eq_ok.mpr ⟨b, hy, hg⟩, hS⟩
  right := by
    intro d hd
    obtain ⟨b, hy, hg⟩ := bind_eq_ok.mp hd
    obtain ⟨a, hx, hR⟩ := h.right b hy
    obtain ⟨c, hf, hS⟩ := (hfg a b hR).right d hg
    exact ⟨c, bind_eq_ok.mpr ⟨a, hx, hf⟩, hS⟩

/-- Success, as the boolean a concrete run is evaluated to. -/
theorem exists_ok_of_isOk {x : Except ε α} (h : x.isOk = true) :
    ∃ a, x = .ok a := by
  cases x with
  | error e => cases h
  | ok a => exact ⟨a, rfl⟩

end Lumix.Exec
