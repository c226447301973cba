/-
Polynomials given by their list of coefficients, over a field.

`horner` evaluates such a list from its last coefficient down. Two facts
about it carry the sharing of a secret at zero. A list of `n`
coefficients is determined at zero by its values at `n` different nodes,
by a formula that only multiplies, adds and inverts (`value_at_zero`).
And for fewer nodes than coefficients, none of them zero, there is a
list with any wanted value at zero that vanishes at all of them
(`exists_mask`), so that adding it changes the value at zero and nothing
at the nodes.
-/
import Mathlib.LinearAlgebra.Lagrange

namespace Lumix.Interpolation

open Polynomial

variable {F : Type*} [Field F]

-- ============================================================ evaluation

/-- The value at `x` of the coefficients `cs`, constant first. -/
def horner (cs : List F) (x : F) : F :=
  cs.foldr (fun c y => y * x + c) 0

@[simp]
theorem horner_nil (x : F) : horner [] x = 0 := rfl

@[simp]
theorem horner_cons (c : F) (cs : List F) (x : F) :
    horner (c :: cs) x = horner cs x * x + c := rfl

/-- At zero only the first coefficient counts. -/
theorem horner_zero (c : F) (cs : List F) : horner (c :: cs) 0 = c := by
  rw [horner_cons, mul_zero, zero_add]

/-- Evaluation is additive in the coefficients. -/
theorem horner_add {α : Type*} (ks : List α) (a b : α → F) (x : F) :
    horner (ks.map fun k => a k + b k) x
      = horner (ks.map a) x + horner (ks.map b) x := by
  induction ks with
  | nil => simp
  | cons k ks ih =>
      simp only [List.map_cons, horner_cons, ih]
      ring

/-- The polynomial of a list of coefficients. -/
noncomputable def ofCoeffs (cs : List F) : F[X] :=
  cs.foldr (fun c p => p * X + C c) 0

/-- Horner's scheme is the polynomial's value. -/
theorem eval_ofCoeffs (cs : List F) (x : F) :
    (ofCoeffs cs).eval x = horner cs x := by
  induction cs with
  | nil => exact eval_zero
  | cons c cs ih =>
      show (ofCoeffs cs * X + C c).eval x = horner cs x * x + c
      rw [eval_add, eval_mul_X, eval_C, ih]

/-- Its degree is below the number of coefficients. -/
theorem degree_ofCoeffs_lt (cs : List F) :
    (ofCoeffs cs).degree < cs.length := by
  induction cs with
  | nil => exact degree_zero.trans_lt (WithBot.bot_lt_coe 0)
  | cons c cs ih =>
      show (ofCoeffs cs * X + C c).degree < _
      rw [← mem_degreeLT] at ih ⊢
      rw [mem_degreeLT, degree_lt_iff_coeff_zero] at ih ⊢
      intro m hm
      rw [List.length_cons] at hm
      obtain ⟨k, rfl⟩ := Nat.exists_eq_add_one.mpr (by omega : 0 < m)
      rw [coeff_add, coeff_mul_X, coeff_C_succ, add_zero]
      exact ih k (by omega)

/-- The coefficients of a polynomial evaluate as it does. -/
theorem horner_coeff {p : F[X]} {n : ℕ} (hp : p.natDegree < n) (x : F) :
    horner ((List.range n).map p.coeff) x = p.eval x := by
  have hsum : ∀ (n : ℕ) (c : ℕ → F),
      horner ((List.range n).map c) x
        = ∑ k ∈ Finset.range n, c k * x ^ k := by
    intro n
    induction n with
    | zero => simp
    | succ n ih =>
        intro c
        rw [List.range_succ_eq_map, List.map_cons, horner_cons,
          List.map_map, ih, Finset.sum_range_succ', pow_zero, mul_one,
          Finset.sum_mul]
        congr 1
        apply Finset.sum_congr rfl
        intro k _
        rw [Function.comp_apply, pow_succ, mul_assoc]
  rw [hsum, eval_eq_sum_range' hp]

-- ========================================================= interpolation

/-- The `i`-th weight at zero of the nodes `x`. -/
def weight {n : ℕ} (x : Fin n → F) (i : Fin n) : F :=
  (∏ j, if i = j then 1 else -x j)
    * (∏ j, if i = j then 1 else x i - x j)⁻¹

/-- A product over the others. -/
theorem prod_others {n : ℕ} (i : Fin n) (g : Fin n → F) :
    (∏ j, if i = j then 1 else g j) = ∏ j ∈ Finset.univ.erase i, g j := by
  rw [← Finset.mul_prod_erase Finset.univ _ (Finset.mem_univ i),
    if_pos rfl, one_mul]
  apply Finset.prod_congr rfl
  intro j hj
  exact if_neg (Finset.ne_of_mem_erase hj).symm

/-- The basis polynomial at zero. -/
theorem eval_basis_zero {n : ℕ} (x : Fin n → F) (i : Fin n) :
    (Lagrange.basis Finset.univ x i).eval 0 = weight x i := by
  unfold Lagrange.basis weight
  rw [eval_prod, prod_others, prod_others, ← Finset.prod_inv_distrib,
    ← Finset.prod_mul_distrib]
  apply Finset.prod_congr rfl
  intro j _
  unfold Lagrange.basisDivisor
  rw [eval_mul, eval_C, eval_sub, eval_X, eval_C, zero_sub, mul_comm]

/-- At most `n` coefficients have at zero the weighted sum of their
values at `n` different nodes. -/
theorem value_at_zero {n : ℕ} {x y : Fin n → F} {cs : List F}
    (hx : Function.Injective x) (hlen : cs.length ≤ n)
    (hy : ∀ i, y i = horner cs (x i)) :
    ∑ i, y i * weight x i = horner cs 0 := by
  have hdegree : (ofCoeffs cs).degree
      < (Finset.univ : Finset (Fin n)).card := by
    rw [Finset.card_univ, Fintype.card_fin]
    exact (degree_ofCoeffs_lt cs).trans_le (Nat.cast_le.mpr hlen)
  have hpoly : ofCoeffs cs = Lagrange.interpolate Finset.univ x y := by
    apply Lagrange.eq_interpolate_of_eval_eq _ hx.injOn hdegree
    intro i _
    rw [hy, eval_ofCoeffs]
  rw [← eval_ofCoeffs, hpoly, Lagrange.interpolate_apply, eval_finsetSum]
  apply Finset.sum_congr rfl
  intro i _
  rw [eval_mul, eval_C, eval_basis_zero]

-- ================================================================= masks

/-- A polynomial with the value `d` at zero that vanishes at the nodes. -/
noncomputable def mask (nodes : Finset F) (d : F) : F[X] :=
  C d * ∏ z ∈ nodes, (C (-z⁻¹) * X + C 1)

/-- A mask has at most as many zeros as nodes, -/
theorem natDegree_mask_le (nodes : Finset F) (d : F) :
    (mask nodes d).natDegree ≤ nodes.card := by
  unfold mask
  apply (natDegree_C_mul_le _ _).trans
  apply (natDegree_prod_le _ _).trans
  rw [Finset.card_eq_sum_ones]
  exact Finset.sum_le_sum fun _ _ => natDegree_linear_le

/-- its value at zero -/
theorem eval_mask_zero (nodes : Finset F) (d : F) :
    (mask nodes d).eval 0 = d := by
  simp [mask, eval_prod]

/-- and zeros at the nodes. -/
theorem eval_mask_node {nodes : Finset F} {z : F} (d : F)
    (hz : z ∈ nodes) (hne : z ≠ 0) : (mask nodes d).eval z = 0 := by
  unfold mask
  rw [eval_mul, eval_prod]
  apply mul_eq_zero_of_right
  apply Finset.prod_eq_zero hz
  rw [eval_add, eval_mul, eval_C, eval_X, eval_C, neg_mul,
    inv_mul_cancel₀ hne, neg_add_cancel]

/-- Fewer nodes than coefficients, all of them nonzero, leave the value
at zero open. -/
theorem exists_mask {n : ℕ} {nodes : Finset F} (d : F)
    (hcard : nodes.card < n) (hzero : (0 : F) ∉ nodes) :
    ∃ c : ℕ → F, c 0 = d
      ∧ ∀ z ∈ nodes, horner ((List.range n).map c) z = 0 := by
  have hdegree : (mask nodes d).natDegree < n :=
    (natDegree_mask_le nodes d).trans_lt hcard
  refine ⟨(mask nodes d).coeff, ?_, ?_⟩
  · rw [coeff_zero_eq_eval_zero, eval_mask_zero]
  · intro z hz
    rw [horner_coeff hdegree]
    exact eval_mask_node d hz (ne_of_mem_of_not_mem hz hzero)

end Lumix.Interpolation
