/-
Tables with a constraint on which rows may stand side by side.

`Clash` says which two rows violate the constraint: that they agree in a
key, or in one of several unique columns. A table carries the proof that
no two of its rows clash, so the row a unique column finds is the only
one (`eq_of_clash`). A statement inserts a row, rewrites rows in place or
deletes some; each has one lemma on the rows it leaves.
-/
import Mathlib.Data.List.Pairwise
import Mathlib.Tactic.Common

namespace Lumix

/-- The rows of a table, no two of which clash. -/
structure Table (α : Type) (Clash : α → α → Prop) where
  rows : List α
  apart : rows.Pairwise fun a b => ¬Clash a b

namespace Table

variable {α : Type} {Clash : α → α → Prop}

/-- No rows. -/
def empty : Table α Clash where
  rows := []
  apart := .nil

/-- Rewrite rows in place, where no new clash can come of it. -/
def map (t : Table α Clash) (f : α → α)
    (hf : ∀ a b, Clash (f a) (f b) → Clash a b) : Table α Clash where
  rows := t.rows.map f
  apart := List.pairwise_map.mpr
    (t.apart.imp fun {a b} hne h => hne (hf a b h))

/-- Keep the rows that satisfy `p`. -/
def filter (t : Table α Clash) (p : α → Bool) : Table α Clash where
  rows := t.rows.filter p
  apart := t.apart.filter p

@[simp]
theorem rows_map (t : Table α Clash) (f : α → α)
    (hf : ∀ a b, Clash (f a) (f b) → Clash a b) :
    (t.map f hf).rows = t.rows.map f := rfl

@[simp]
theorem rows_filter (t : Table α Clash) (p : α → Bool) :
    (t.filter p).rows = t.rows.filter p := rfl

/-- No two rows clash. -/
theorem eq_of_clash [Std.Symm Clash] (t : Table α Clash) {a b : α}
    (ha : a ∈ t.rows) (hb : b ∈ t.rows) (h : Clash a b) : a = b := by
  have : Std.Symm fun a b => ¬Clash a b :=
    ⟨fun a b hne hba => hne (Std.Symm.symm b a hba)⟩
  by_contra hne
  exact t.apart.forall ha hb hne h

-- ============================================================ inserting

variable [DecidableRel Clash]

/-- A new row, unless it violates the constraint. -/
def insert (t : Table α Clash) (row : α) : Option (Table α Clash) :=
  if h : ∀ r ∈ t.rows, ¬Clash r row then
    some
      { rows := t.rows ++ [row]
        apart := List.pairwise_append.mpr
          ⟨t.apart, List.pairwise_singleton .., fun r hr _ hb =>
            (List.mem_singleton.mp hb) ▸ h r hr⟩ }
  else
    none

/-- `on conflict do nothing` -/
def insertOrIgnore (t : Table α Clash) (row : α) : Table α Clash :=
  (t.insert row).getD t

/-- A row that clashes is refused, -/
theorem insert_of_clash {t : Table α Clash} {r row : α} (hr : r ∈ t.rows)
    (h : Clash r row) : t.insert row = none :=
  dif_neg fun hall => hall r hr h

/-- Everything an insertion can do. -/
theorem insert_eq_some {t t' : Table α Clash} {row : α}
    (h : t.insert row = some t') :
    (∀ r ∈ t.rows, ¬Clash r row) ∧ t'.rows = t.rows ++ [row] := by
  unfold insert at h
  split at h
  · rename_i hall
    injection h with h
    exact ⟨hall, h ▸ rfl⟩
  · cases h

/-- and no other. -/
theorem insert_eq_none {t : Table α Clash} {row : α} :
    t.insert row = none ↔ ∃ r ∈ t.rows, Clash r row := by
  constructor
  · intro h
    by_contra hno
    push Not at hno
    rw [insert, dif_pos hno] at h
    cases h
  · intro h
    obtain ⟨r, hr, hclash⟩ := h
    exact insert_of_clash hr hclash

/-- It is ignored, if that is asked for. -/
theorem rows_insertOrIgnore (t : Table α Clash) (row : α) :
    (t.insertOrIgnore row).rows
      = if ∀ r ∈ t.rows, ¬Clash r row then t.rows ++ [row] else t.rows := by
  unfold insertOrIgnore insert
  by_cases h : ∀ r ∈ t.rows, ¬Clash r row
  · rw [dif_pos h, if_pos h]
    rfl
  · rw [dif_neg h, if_neg h]
    rfl

/-- The rows that are there stay. -/
theorem mem_insertOrIgnore_of_mem {t : Table α Clash} {r : α} (row : α)
    (h : r ∈ t.rows) : r ∈ (t.insertOrIgnore row).rows := by
  rw [rows_insertOrIgnore]
  split
  · exact List.mem_append_left _ h
  · exact h

end Table

end Lumix
