/-
Tallies: the total weight of the members of a list that meet a
condition. A ledger that keeps one number for many hidden items is
sound when that number bounds a tally of the items, and every lemma
such an argument needs is here: appending items adds their tallies,
a stricter condition lowers a tally, and an item that drops out lowers
it by at least the item's weight.
-/
import Mathlib.Algebra.GroupWithZero.Nat
import Mathlib.Algebra.Order.BigOperators.Group.List
import Mathlib.Tactic.Common

namespace Lumix.Tally

variable {α : Type*} (f : α → ℕ)

/-- The total weight `f` of the items of `xs` that meet `p`. -/
def tally (p : α → Prop) [DecidablePred p] (xs : List α) : ℕ :=
  (xs.map fun x => if p x then f x else 0).sum

variable {f} {p q : α → Prop} [DecidablePred p] [DecidablePred q]

@[simp]
theorem tally_nil : tally f p [] = 0 := rfl

@[simp]
theorem tally_cons (x : α) (xs : List α) :
    tally f p (x :: xs)
      = (if p x then f x else 0) + tally f p xs := by
  simp [tally]

/-- One list after another. -/
theorem tally_append (xs ys : List α) :
    tally f p (xs ++ ys) = tally f p xs + tally f p ys := by
  simp [tally]

/-- A stricter condition tallies no more. -/
theorem tally_mono (h : ∀ x, q x → p x) (xs : List α) :
    tally f q xs ≤ tally f p xs := by
  induction xs with
  | nil => exact le_refl _
  | cons x xs ih =>
      rw [tally_cons, tally_cons]
      by_cases hq : q x
      · rw [if_pos hq, if_pos (h x hq)]
        omega
      · rw [if_neg hq]
        omega

/-- An item that dropped out takes its weight with it. -/
theorem tally_drop (h : ∀ x, q x → p x) {y : α} {xs : List α}
    (hy : y ∈ xs) (hp : p y) (hq : ¬q y) :
    tally f q xs + f y ≤ tally f p xs := by
  induction xs with
  | nil => cases hy
  | cons x xs ih =>
      rw [tally_cons, tally_cons]
      rcases List.mem_cons.mp hy with rfl | hy
      · rw [if_neg hq, if_pos hp]
        have hrest := tally_mono (f := f) h xs
        omega
      · have hrest := ih hy
        by_cases hx : q x
        · rw [if_pos hx, if_pos (h x hx)]
          omega
        · rw [if_neg hx]
          omega

/-- One item that meets the condition weighs no more than the tally. -/
theorem weight_le_tally {y : α} {xs : List α} (hy : y ∈ xs) (hp : p y) :
    f y ≤ tally f p xs := by
  have hdrop := tally_drop (f := f) (q := fun _ => False)
    (fun _ h => h.elim) hy hp id
  omega

end Lumix.Tally
