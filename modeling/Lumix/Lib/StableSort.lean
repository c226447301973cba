/-
When sorting forgets the order of a list.

A stable sort keeps the order of entries it cannot tell apart. So the
sorted list depends on the entries alone, and not on the order they came
in, exactly when no two different entries tie
(`mergeSort_eq_of_perm_iff`).
-/
import Mathlib.Data.List.Perm.Basic

namespace Lumix.StableSort

variable {α : Type*} {le : α → α → Bool}

/-- Entries of the list that tie are equal. -/
def Untied (le : α → α → Bool) (l : List α) : Prop :=
  ∀ a ∈ l, ∀ b ∈ l, le a b = true → le b a = true → a = b

/-- Without ties the sorted list is one. -/
theorem mergeSort_eq_of_perm
    (htrans : ∀ a b c, le a b = true → le b c = true → le a c = true)
    (htotal : ∀ a b, (le a b || le b a) = true) {l r : List α}
    (h : Untied le l) (hperm : r.Perm l) :
    r.mergeSort le = l.mergeSort le := by
  refine List.Perm.eq_of_pairwise ?_
    (List.pairwise_mergeSort htrans htotal r)
    (List.pairwise_mergeSort htrans htotal l) ?_
  · intro a b ha hb hab hba
    exact h a (hperm.mem_iff.mp (List.mem_mergeSort.mp ha)) b
      (List.mem_mergeSort.mp hb) hab hba
  · exact ((List.mergeSort_perm r le).trans hperm).trans
      (List.mergeSort_perm l le).symm

/-- The sorted list has the entries of the list. -/
theorem perm_of_mergeSort_eq {l r : List α}
    (h : r.mergeSort le = l.mergeSort le) : r.Perm l :=
  ((List.mergeSort_perm r le).symm.trans (.of_eq h)).trans
    (List.mergeSort_perm l le)

section

variable [DecidableEq α]

/-- The list with one entry's copies first, then the other's. -/
def pulled (a b : α) (l : List α) : List α :=
  (List.replicate (l.count a) a ++ List.replicate (l.count b) b)
    ++ l.filter fun x => !decide (x = a ∨ x = b)

/-- Pulling one element to another keeps all counts, -/
theorem count_pulled {a b : α} (hne : a ≠ b) (l : List α) (x : α) :
    (pulled a b l).count x = l.count x := by
  unfold pulled
  rw [List.count_append, List.count_append, List.count_replicate,
    List.count_replicate]
  by_cases ha : x = a
  · subst ha
    have hb : ¬b = x := fun h => hne h.symm
    simp [hb, List.count_eq_zero]
  by_cases hb : x = b
  · subst hb
    simp [hne, List.count_eq_zero]
  · have hkept : (!decide (x = a ∨ x = b)) = true := by simp [ha, hb]
    have hrest : (l.filter fun x => !decide (x = a ∨ x = b)).count x
        = l.count x := List.count_filter hkept
    rw [hrest]
    simp [Ne.symm ha, Ne.symm hb]

/-- The copies are all there is of the two. -/
theorem filter_pulled (a b : α) (l : List α) :
    (pulled a b l).filter (fun x => decide (x = a ∨ x = b))
      = List.replicate (l.count a) a ++ List.replicate (l.count b) b := by
  have hrest : (l.filter fun x => !decide (x = a ∨ x = b)).filter
      (fun x => decide (x = a ∨ x = b)) = [] := by
    refine List.filter_eq_nil_iff.mpr fun x hx => ?_
    simpa using (List.mem_filter.mp hx).2
  rw [pulled, List.filter_append, List.filter_append, hrest,
    List.append_nil]
  simp

/-- so it permutes. -/
theorem pulled_perm {a b : α} (hne : a ≠ b) (l : List α) :
    (pulled a b l).Perm l :=
  List.perm_iff_count.mpr (count_pulled hne l)

end

/-- The sort keeps tied entries in the order they came in. -/
theorem replicates_sublist
    (htrans : ∀ a b c, le a b = true → le b c = true → le a c = true)
    (htotal : ∀ a b, (le a b || le b a) = true) {a b : α}
    (hab : le a b = true) (m n : ℕ) (rest : List α) :
    (List.replicate m a ++ List.replicate n b).Sublist
      (((List.replicate m a ++ List.replicate n b) ++ rest).mergeSort
        le) := by
  have hself : ∀ x, le x x = true := fun x => by
    have hx := htotal x x
    rwa [Bool.or_self] at hx
  refine List.sublist_mergeSort htrans htotal ?_
    (List.sublist_append_left _ _)
  rw [List.pairwise_append, List.pairwise_replicate,
    List.pairwise_replicate]
  refine ⟨.inr (hself a), .inr (hself b), ?_⟩
  intro x hx y hy
  rw [List.eq_of_mem_replicate hx, List.eq_of_mem_replicate hy]
  exact hab

/-- Sorting forgets the order of a list exactly if nothing in it ties. -/
theorem mergeSort_eq_of_perm_iff
    (htrans : ∀ a b c, le a b = true → le b c = true → le a c = true)
    (htotal : ∀ a b, (le a b || le b a) = true) (l : List α) :
    (∀ r : List α, r.Perm l → r.mergeSort le = l.mergeSort le)
      ↔ Untied le l := by
  classical
  constructor
  · intro hforgets a ha b hb hab hba
    by_contra hne
    have hne' : b ≠ a := fun h => hne h.symm
    -- both orders of the copies are in the one sorted list
    have hfirst := replicates_sublist htrans htotal hab (l.count a)
      (l.count b) (l.filter fun x => !decide (x = a ∨ x = b))
    have hsecond := replicates_sublist htrans htotal hba (l.count b)
      (l.count a) (l.filter fun x => !decide (x = b ∨ x = a))
    rw [show ((List.replicate (l.count a) a
        ++ List.replicate (l.count b) b)
        ++ l.filter fun x => !decide (x = a ∨ x = b)) = pulled a b l
      from rfl, hforgets _ (pulled_perm hne l)] at hfirst
    rw [show ((List.replicate (l.count b) b
        ++ List.replicate (l.count a) a)
        ++ l.filter fun x => !decide (x = b ∨ x = a)) = pulled b a l
      from rfl, hforgets _ (pulled_perm hne' l)] at hsecond
    -- which has no more copies of the two
    have hcount : ((l.mergeSort le).filter
        fun x => decide (x = a ∨ x = b)).length
        = l.count a + l.count b := by
      rw [((List.mergeSort_perm l le).filter _).length_eq,
        ((pulled_perm hne l).filter _).symm.length_eq, filter_pulled]
      simp
    have hone := (hfirst.filter fun x => decide (x = a ∨ x = b)).eq_of_length
      (by rw [hcount]; simp)
    have htwo := (hsecond.filter fun x => decide (x = a ∨ x = b)).eq_of_length
      (by rw [hcount]; simp [Nat.add_comm])
    have hsame := hone.trans htwo.symm
    have hposa : 0 < l.count a := List.count_pos_iff.mpr ha
    have hposb : 0 < l.count b := List.count_pos_iff.mpr hb
    obtain ⟨m, hm⟩ := Nat.exists_eq_succ_of_ne_zero
      (Nat.pos_iff_ne_zero.mp hposa)
    obtain ⟨n, hn⟩ := Nat.exists_eq_succ_of_ne_zero
      (Nat.pos_iff_ne_zero.mp hposb)
    rw [hm, hn] at hsame
    simp [List.replicate_succ, hne] at hsame
  · intro h r hperm
    exact mergeSort_eq_of_perm htrans htotal h hperm

end Lumix.StableSort
