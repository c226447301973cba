/-
Texts of trees, in brackets and commas as JSON writes them.

The leaves and the keys have texts of their own (`Texts`), which say
where they end. Then the text of a tree does (`write_inj`): trees with
the same text are the same, the order of the fields included.
-/
import Lumix.Lib.Tree

namespace Lumix.Tree

-- ============================================================== joins

/-- The texts with commas between them. -/
def join : List (List Char) → List Char
  | [] => []
  | t :: ts => t ++ ts.flatMap (',' :: ·)

/-- What may follow the text of a tree. -/
def Ends (r : List Char) : Prop :=
  ∀ c ∈ r.head?, c = ',' ∨ c = ']' ∨ c = '\x7d'

theorem ends_nil : Ends [] := by
  intro c hc
  cases hc

/-- A value ends before these. -/
theorem ends_cons {c : Char} (h : c = ',' ∨ c = ']' ∨ c = '\x7d')
    (r : List Char) : Ends (c :: r) := by
  intro d hd
  rw [List.head?_cons, Option.mem_some_iff] at hd
  exact hd ▸ h

/-- What follows the first entry of a list, with its end. -/
theorem ends_rest {β : Type _} (text : β → List Char) (xs : List β)
    {close : Char} (hclose : close = ']' ∨ close = '\x7d')
    (r : List Char) :
    Ends ((xs.map text).flatMap (',' :: ·) ++ close :: r) := by
  cases xs with
  | nil => exact ends_cons (.inr hclose) r
  | cons x xs =>
      rw [List.map_cons, List.flatMap_cons, List.append_assoc]
      exact ends_cons (.inl rfl) _

/-- A text says which entry it begins with, before what may follow. -/
def Reads {β : Type _} (text : β → List Char) (x y : β) : Prop :=
  ∀ r r' : List Char, Ends r → Ends r' → text x ++ r = text y ++ r' →
    x = y ∧ r = r'

/-- The rest of a list is read part by part. -/
theorem rest_inj {β : Type _} {text : β → List Char} {xs ys : List β}
    (hreads : ∀ x ∈ xs, ∀ y, Reads text x y) {close : Char}
    (hclose : close = ']' ∨ close = '\x7d') {r r' : List Char}
    (h : (xs.map text).flatMap (',' :: ·) ++ close :: r
      = (ys.map text).flatMap (',' :: ·) ++ close :: r') :
    xs = ys ∧ r = r' := by
  have hcomma : ',' ≠ close := by
    rcases hclose with rfl | rfl <;> decide
  induction xs generalizing ys with
  | nil =>
      cases ys with
      | nil => exact ⟨rfl, List.tail_eq_of_cons_eq h⟩
      | cons y ys => exact (hcomma (List.head_eq_of_cons_eq h).symm).elim
  | cons x xs ih =>
      cases ys with
      | nil => exact (hcomma (List.head_eq_of_cons_eq h)).elim
      | cons y ys =>
          rw [List.map_cons, List.map_cons, List.flatMap_cons,
            List.flatMap_cons, List.append_assoc, List.append_assoc] at h
          obtain ⟨rfl, hrest⟩ := hreads x List.mem_cons_self y _ _
            (ends_rest text xs hclose r) (ends_rest text ys hclose r')
            (List.tail_eq_of_cons_eq h)
          obtain ⟨rfl, hr⟩ :=
            ih (fun x hx => hreads x (List.mem_cons_of_mem _ hx)) hrest
          exact ⟨rfl, hr⟩

/-- A list of texts ends at its bracket. -/
theorem join_inj {β : Type _} {text : β → List Char} {xs ys : List β}
    (hreads : ∀ x ∈ xs, ∀ y, Reads text x y) {close : Char}
    (hclose : close = ']' ∨ close = '\x7d')
    (hopens : ∀ x r r', text x ++ r ≠ close :: r') {r r' : List Char}
    (h : join (xs.map text) ++ close :: r
      = join (ys.map text) ++ close :: r') :
    xs = ys ∧ r = r' := by
  cases xs with
  | nil =>
      cases ys with
      | nil => exact ⟨rfl, List.tail_eq_of_cons_eq h⟩
      | cons y ys =>
          rw [List.map_cons, join, List.append_assoc] at h
          exact (hopens y _ _ h.symm).elim
  | cons x xs =>
      cases ys with
      | nil =>
          rw [List.map_cons, join, List.append_assoc] at h
          exact (hopens x _ _ h).elim
      | cons y ys =>
          rw [List.map_cons, List.map_cons, join, join, List.append_assoc,
            List.append_assoc] at h
          obtain ⟨rfl, hrest⟩ := hreads x List.mem_cons_self y _ _
            (ends_rest text xs hclose r) (ends_rest text ys hclose r') h
          obtain ⟨rfl, hr⟩ := rest_inj
            (fun x hx => hreads x (List.mem_cons_of_mem _ hx)) hclose hrest
          exact ⟨rfl, hr⟩

-- ============================================================== texts

/-- The texts of leaves and keys. A leaf is not taken for a bracket, nor
a key for the end of a record. -/
structure Texts (α κ : Type _) where
  leaf : α → List Char
  key : κ → List Char
  leaf_reads : ∀ a b, Reads leaf a b
  leaf_opens : ∀ a r, ∀ c ∈ ['[', ']', '\x7b', '\x7d'],
    (leaf a ++ r).head? ≠ some c
  key_reads : ∀ k l r r', key k ++ ':' :: r = key l ++ ':' :: r' →
    k = l ∧ r = r'
  key_opens : ∀ k r, (key k ++ ':' :: r).head? ≠ some '\x7d'

variable {α κ : Type _} (T : Texts α κ)

mutual

/-- The text of a tree. -/
def write : Tree α κ → List Char
  | .leaf a => T.leaf a
  | .arr items => '[' :: (join (writeItems items) ++ [']'])
  | .obj fields => '\x7b' :: (join (writeFields fields) ++ ['\x7d'])

/-- The texts of an array's items. -/
def writeItems : List (Tree α κ) → List (List Char)
  | [] => []
  | t :: items => write t :: writeItems items

/-- The texts of an object's fields. -/
def writeFields : List (κ × Tree α κ) → List (List Char)
  | [] => []
  | (k, t) :: fields => (T.key k ++ ':' :: write t) :: writeFields fields

end

/-- The text of a field. -/
def writeField (f : κ × Tree α κ) : List Char :=
  T.key f.1 ++ ':' :: write T f.2

/-- A map over the items, -/
theorem writeItems_eq (items : List (Tree α κ)) :
    writeItems T items = items.map (write T) := by
  induction items with
  | nil => rfl
  | cons t items ih => rw [writeItems, ih, List.map_cons]

/-- and over the fields. -/
theorem writeFields_eq (fields : List (κ × Tree α κ)) :
    writeFields T fields = fields.map (writeField T) := by
  induction fields with
  | nil => rfl
  | cons f fields ih => rw [writeFields, ih, List.map_cons, writeField]

/-- An array and what comes after. -/
theorem write_arr (items : List (Tree α κ)) (r : List Char) :
    write T (.arr items) ++ r
      = '[' :: (join (items.map (write T)) ++ ']' :: r) := by
  rw [write, writeItems_eq, List.cons_append, List.append_assoc]
  rfl

/-- An object and what comes after. -/
theorem write_obj (fields : List (κ × Tree α κ)) (r : List Char) :
    write T (.obj fields) ++ r
      = '\x7b' :: (join (fields.map (writeField T)) ++ '\x7d' :: r) := by
  rw [write, writeFields_eq, List.cons_append, List.append_assoc]
  rfl

/-- No text of a tree begins with a closing bracket. -/
theorem write_opens (t : Tree α κ) (r r' : List Char) :
    write T t ++ r ≠ ']' :: r' := by
  intro h
  have hhead := congrArg List.head? h
  cases t with
  | leaf a =>
      rw [write] at hhead
      exact T.leaf_opens a r ']' (by decide) hhead
  | arr items => rw [write_arr] at hhead; simp at hhead
  | obj fields => rw [write_obj] at hhead; simp at hhead

/-- A field does not begin with a bracket, -/
theorem writeField_opens (f : κ × Tree α κ) (r r' : List Char) :
    writeField T f ++ r ≠ '\x7d' :: r' := by
  intro h
  rw [writeField, List.append_assoc] at h
  exact T.key_opens f.1 _ (congrArg List.head? h)

/-- nor does a leaf. -/
theorem leaf_ne_bracket {a : α} {c : Char} {r r' : List Char}
    (hc : c ∈ ['[', ']', '\x7b', '\x7d']) : T.leaf a ++ r ≠ c :: r' :=
  fun h => T.leaf_opens a r c hc (congrArg List.head? h)

/-- A text begins with the text of one tree. -/
theorem write_inj (t u : Tree α κ) : Reads (write T) t u := by
  induction t generalizing u with
  | leaf a =>
      intro r r' hr hr' h
      cases u with
      | leaf b =>
          rw [write, write] at h
          obtain ⟨rfl, hrr⟩ := T.leaf_reads a b r r' hr hr' h
          exact ⟨rfl, hrr⟩
      | arr items =>
          rw [write, write_arr] at h
          exact (leaf_ne_bracket T (by decide) h).elim
      | obj fields =>
          rw [write, write_obj] at h
          exact (leaf_ne_bracket T (by decide) h).elim
  | arr items ih =>
      intro r r' hr hr' h
      cases u with
      | leaf b =>
          rw [write, write_arr] at h
          exact (leaf_ne_bracket T (by decide) h.symm).elim
      | arr items' =>
          rw [write_arr, write_arr] at h
          obtain ⟨rfl, hrr⟩ := join_inj ih (.inl rfl) (write_opens T)
            (List.tail_eq_of_cons_eq h)
          exact ⟨rfl, hrr⟩
      | obj fields =>
          rw [write_arr, write_obj] at h
          exact absurd (List.head_eq_of_cons_eq h) (by decide)
  | obj fields ih =>
      intro r r' hr hr' h
      cases u with
      | leaf b =>
          rw [write, write_obj] at h
          exact (leaf_ne_bracket T (by decide) h.symm).elim
      | arr items =>
          rw [write_arr, write_obj] at h
          exact absurd (List.head_eq_of_cons_eq h) (by decide)
      | obj fields' =>
          have hfield : ∀ f ∈ fields, ∀ g, Reads (writeField T) f g := by
            intro f hf g s s' hs hs' hfg
            rw [writeField, writeField, List.append_assoc,
              List.append_assoc] at hfg
            obtain ⟨hkey, hvalue⟩ := T.key_reads _ _ _ _ hfg
            obtain ⟨htree, hss⟩ := ih f hf g.2 s s' hs hs' hvalue
            exact ⟨Prod.ext hkey htree, hss⟩
          rw [write_obj, write_obj] at h
          obtain ⟨rfl, hrr⟩ := join_inj hfield (.inr rfl)
            (writeField_opens T) (List.tail_eq_of_cons_eq h)
          exact ⟨rfl, hrr⟩

/-- Trees with the same text are the same. -/
theorem eq_of_write_eq {t u : Tree α κ} (h : write T t = write T u) :
    t = u :=
  (write_inj T t u [] [] ends_nil ends_nil (by rw [h])).1

end Lumix.Tree
