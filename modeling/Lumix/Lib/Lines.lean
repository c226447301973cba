/-
Sorted lines, and who stands opposite whom.

Two lines face each other: the first of one is opposite the first of the
other, and so on, as far as the shorter goes (`List.zip`). A single line
is paired up along itself (`pairUp`). `Covered` says of an element that
it has somebody opposite; of two that could face each other one always
has (`covered_zip`, `covered_pairUp`).

If every pair is both in a subset or both out of it, then who is in it
stands opposite the same after the others have left (`zip_filter`,
`pairUp_filter`). A stable sort lines up a subset as it does the whole
(`filter_insertionSort`).
-/
import Mathlib.Data.List.Sort
import Mathlib.Data.List.Zip

namespace Lumix.Lines

variable {α β : Type*}

-- ============================================================== pairs

/-- The first with the second, the third with the fourth. -/
def pairUp : List α → List (α × α)
  | a :: b :: l => (a, b) :: pairUp l
  | _ => []

/-- A pair is of two in the line. -/
theorem mem_of_mem_pairUp {l : List α} {q : α × α} (h : q ∈ pairUp l) :
    q.1 ∈ l ∧ q.2 ∈ l := by
  induction l using pairUp.induct with
  | case1 a b l ih =>
      rw [pairUp] at h
      rcases List.mem_cons.mp h with rfl | h
      · exact ⟨List.mem_cons_self, List.mem_cons_of_mem _
          List.mem_cons_self⟩
      · obtain ⟨hfst, hsnd⟩ := ih h
        exact ⟨List.mem_cons_of_mem _ (List.mem_cons_of_mem _ hfst),
          List.mem_cons_of_mem _ (List.mem_cons_of_mem _ hsnd)⟩
  | case2 l hshort =>
      rw [pairUp] at h
      · cases h
      · exact hshort

/-- They are not the same. -/
theorem ne_of_mem_pairUp {l : List α} (hl : l.Nodup) {q : α × α}
    (h : q ∈ pairUp l) : q.1 ≠ q.2 := by
  induction l using pairUp.induct with
  | case1 a b l ih =>
      obtain ⟨hab, hl⟩ := List.nodup_cons.mp hl
      rw [pairUp] at h
      rcases List.mem_cons.mp h with rfl | h
      · exact fun heq : a = b => hab (heq ▸ List.mem_cons_self)
      · exact ih (List.nodup_cons.mp hl).2 h
  | case2 l hshort =>
      rw [pairUp] at h
      · cases h
      · exact hshort

/-- Somebody is opposite. -/
def Covered (pairs : List (α × α)) (a : α) : Prop :=
  ∃ q ∈ pairs, q.1 = a ∨ q.2 = a

/-- Who is covered stays so. -/
theorem Covered.cons {pairs : List (α × α)} {a : α} (p : α × α)
    (h : Covered pairs a) : Covered (p :: pairs) a := by
  obtain ⟨q, hq, hside⟩ := h
  exact ⟨q, List.mem_cons_of_mem _ hq, hside⟩

/-- The shorter of two lines is covered. -/
theorem covered_zip {s r : List α} {a b : α} (ha : a ∈ s) (hb : b ∈ r) :
    Covered (s.zip r) a ∨ Covered (s.zip r) b := by
  induction s generalizing r with
  | nil => cases ha
  | cons c s ih =>
      cases r with
      | nil => cases hb
      | cons d r =>
          rw [List.zip_cons_cons]
          rcases List.mem_cons.mp ha with rfl | ha
          · exact .inl ⟨_, List.mem_cons_self, .inl rfl⟩
          rcases List.mem_cons.mp hb with rfl | hb
          · exact .inr ⟨_, List.mem_cons_self, .inr rfl⟩
          exact (ih ha hb).imp (Covered.cons _) (Covered.cons _)

/-- Only one of a single line can be left over. -/
theorem covered_pairUp {l : List α} {a b : α} (ha : a ∈ l) (hb : b ∈ l)
    (hne : a ≠ b) : Covered (pairUp l) a ∨ Covered (pairUp l) b := by
  have hhead : ∀ (x y c : α) (l : List α), c = x ∨ c = y →
      Covered (pairUp (x :: y :: l)) c := fun x y c l h =>
    ⟨(x, y), List.mem_cons_self, h.imp Eq.symm Eq.symm⟩
  induction l using pairUp.induct with
  | case1 x y l ih =>
      simp only [List.mem_cons, ← or_assoc] at ha hb
      rcases ha with ha | ha
      · exact .inl (hhead x y a l ha)
      rcases hb with hb | hb
      · exact .inr (hhead x y b l hb)
      exact (ih ha hb).imp (Covered.cons _) (Covered.cons _)
  | case2 l hshort =>
      cases l with
      | nil => cases ha
      | cons x l =>
          cases l with
          | nil =>
              exact absurd ((List.mem_singleton.mp ha).trans
                (List.mem_singleton.mp hb).symm) hne
          | cons y l => exact absurd rfl (hshort x y l)

-- ============================================================== subsets

/-- Both of every pair are in a subset, or neither. -/
def Agree (p : α → Bool) (pairs : List (α × α)) : Prop :=
  ∀ q ∈ pairs, p q.1 = p q.2

variable {p : α → Bool}

/-- Filtering a zip of two lines that agree, -/
theorem zip_filter {s r : List α} (h : Agree p (s.zip r)) :
    (s.filter p).zip (r.filter p) = (s.zip r).filter fun q => p q.1 := by
  induction s generalizing r with
  | nil => rfl
  | cons a s ih =>
      cases r with
      | nil => rw [List.filter_nil, List.zip_nil_right, List.zip_nil_right,
          List.filter_nil]
      | cons b r =>
          obtain ⟨hab, hrest⟩ := List.forall_mem_cons.mp h
          have hab : p a = p b := hab
          rw [List.zip_cons_cons, List.filter_cons, List.filter_cons,
            List.filter_cons, ← hab]
          cases p a with
          | false => exact ih hrest
          | true => exact congrArg _ (ih hrest)

/-- and the pairs of one. -/
theorem pairUp_filter {l : List α} (h : Agree p (pairUp l)) :
    pairUp (l.filter p) = (pairUp l).filter fun q => p q.1 := by
  induction l using pairUp.induct with
  | case1 a b l ih =>
      rw [pairUp] at h ⊢
      obtain ⟨hab, hrest⟩ := List.forall_mem_cons.mp h
      have hab : p a = p b := hab
      rw [List.filter_cons, List.filter_cons, List.filter_cons, ← hab]
      cases p a with
      | false => exact ih hrest
      | true => exact congrArg _ (ih hrest)
  | case2 l hshort =>
      cases l with
      | nil => rfl
      | cons a l =>
          cases l with
          | nil =>
              rw [List.filter_cons, List.filter_nil]
              split <;> rfl
          | cons b l => exact absurd rfl (hshort a b l)

-- ============================================================== sorting

variable {r : α → α → Prop} [DecidableRel r]

/-- Inserting and then filtering. -/
theorem filter_orderedInsert [IsTrans α r] (a : α) {l : List α}
    (hl : l.Pairwise r) :
    (l.orderedInsert r a).filter p
      = if p a then (l.filter p).orderedInsert r a else l.filter p := by
  induction l with
  | nil => rw [List.orderedInsert_nil, List.filter_cons]; rfl
  | cons b l ih =>
      obtain ⟨hb, hl⟩ := List.pairwise_cons.mp hl
      by_cases hab : r a b
      · rw [List.orderedInsert_cons_of_le r l hab, List.filter_cons]
        split
        · -- everything that is kept comes after `a` as well
          cases hkept : (b :: l).filter p with
          | nil => rfl
          | cons c rest =>
              have hc : c ∈ b :: l := (List.mem_filter.mp
                (hkept ▸ List.mem_cons_self)).1
              have hac : r a c := by
                rcases List.mem_cons.mp hc with rfl | hc
                · exact hab
                · exact trans_of r hab (hb c hc)
              rw [List.orderedInsert_cons_of_le r rest hac]
        · rfl
      · rw [List.orderedInsert_of_not_le r l hab, List.filter_cons, ih hl,
          List.filter_cons]
        cases p b with
        | false => rfl
        | true =>
            rw [if_pos rfl, if_pos rfl]
            split
            · rw [List.orderedInsert_of_not_le r _ hab]
            · rfl

/-- A subset is lined up as it stands in the whole line. -/
theorem filter_insertionSort [Std.Total r] [IsTrans α r] (l : List α) :
    (l.insertionSort r).filter p = (l.filter p).insertionSort r := by
  induction l with
  | nil => rfl
  | cons a l ih =>
      rw [List.insertionSort_cons, filter_orderedInsert a
        (List.pairwise_insertionSort r l), ih, List.filter_cons]
      split
      · rw [List.insertionSort_cons]
      · rfl

end Lumix.Lines
