/-
Hash chains.

A chain folds a list into one value, item by item, with a function `f`
that nothing is known of. Two chains with one value are of one list, or
else two different inputs of `f` among those that were hashed have one
value, or one of them has the value the chains start from
(`chain_binds`).
-/
import Mathlib.Data.List.Induction

namespace Lumix.HashChain

variable {α β : Type*} (f : α → β → α) (z : α)

/-- What a list hashes to, element by element. -/
def chain (xs : List β) : α := xs.foldl f z

/-- The inputs of `f` on the way. -/
def inputs : α → List β → List (α × β)
  | _, [] => []
  | a, x :: xs => (a, x) :: inputs (f a x) xs

/-- Two different inputs with one value. -/
def Collides (ps qs : List (α × β)) : Prop :=
  ∃ p ∈ ps, ∃ q ∈ qs, p ≠ q ∧ f p.1 p.2 = f q.1 q.2

/-- An input whose value is `z`. -/
def Hits (ps : List (α × β)) : Prop := ∃ p ∈ ps, f p.1 p.2 = z

@[simp]
theorem chain_nil : chain f z [] = z := rfl

theorem chain_concat (xs : List β) (x : β) :
    chain f z (xs ++ [x]) = f (chain f z xs) x := by
  rw [chain, List.foldl_append]
  rfl

/-- The inputs of a longer list. -/
theorem inputs_append (xs ys : List β) :
    inputs f z (xs ++ ys) = inputs f z xs ++ inputs f (chain f z xs) ys := by
  induction xs generalizing z with
  | nil => rfl
  | cons x xs ih =>
      rw [List.cons_append, inputs, ih]
      rfl

theorem inputs_concat (xs : List β) (x : β) :
    inputs f z (xs ++ [x]) = inputs f z xs ++ [(chain f z xs, x)] :=
  inputs_append f z xs [x]

/-- The last element's input is its own. -/
theorem last_input (xs : List β) (x : β) :
    (chain f z xs, x) ∈ inputs f z (xs ++ [x]) := by
  rw [inputs_concat]
  exact List.mem_append_right _ (List.mem_singleton_self _)

variable {f z}

/-- A collision is one in larger sets. -/
theorem Collides.mono {ps ps' qs qs' : List (α × β)} (h : Collides f ps qs)
    (hp : ps ⊆ ps') (hq : qs ⊆ qs') : Collides f ps' qs' := by
  obtain ⟨p, hmem, q, hmem', hne, heq⟩ := h
  exact ⟨p, hp hmem, q, hq hmem', hne, heq⟩

/-- So is a hit. -/
theorem Hits.mono {ps ps' : List (α × β)} (h : Hits f z ps)
    (hp : ps ⊆ ps') : Hits f z ps' := by
  obtain ⟨p, hmem, heq⟩ := h
  exact ⟨p, hp hmem, heq⟩

/-- A prefix has fewer inputs. -/
theorem inputs_subset {xs ys : List β} (h : xs <+: ys) :
    inputs f z xs ⊆ inputs f z ys := by
  obtain ⟨rest, rfl⟩ := h
  rw [inputs_append]
  exact List.subset_append_left _ _

/-- The items are read off from the end: at the last ones the chains
agree in their inputs, or there they collide. -/
theorem chain_binds {xs ys : List β} (h : chain f z xs = chain f z ys) :
    xs = ys ∨ Collides f (inputs f z xs) (inputs f z ys)
      ∨ Hits f z (inputs f z xs) ∨ Hits f z (inputs f z ys) := by
  induction xs using List.reverseRecOn generalizing ys with
  | nil =>
      cases ys using List.reverseRecOn with
      | nil => exact .inl rfl
      | append_singleton ys y =>
          rw [chain_nil, chain_concat] at h
          exact .inr (.inr (.inr ⟨_, last_input f z ys y, h.symm⟩))
  | append_singleton xs x ih =>
      cases ys using List.reverseRecOn with
      | nil =>
          rw [chain_nil, chain_concat] at h
          exact .inr (.inr (.inl ⟨_, last_input f z xs x, h⟩))
      | append_singleton ys y =>
          rw [chain_concat, chain_concat] at h
          have hxs : inputs f z xs ⊆ inputs f z (xs ++ [x]) :=
            inputs_subset (List.prefix_append xs [x])
          have hys : inputs f z ys ⊆ inputs f z (ys ++ [y]) :=
            inputs_subset (List.prefix_append ys [y])
          by_cases hsame : (chain f z xs, x) = (chain f z ys, y)
          · obtain ⟨hchain, rfl⟩ := Prod.mk.inj hsame
            rcases ih hchain with rfl | hcollides | hhits | hhits
            · exact .inl rfl
            · exact .inr (.inl (hcollides.mono hxs hys))
            · exact .inr (.inr (.inl (hhits.mono hxs)))
            · exact .inr (.inr (.inr (hhits.mono hys)))
          · exact .inr (.inl ⟨_, last_input f z xs x, _,
              last_input f z ys y, hsame, h⟩)

end Lumix.HashChain
