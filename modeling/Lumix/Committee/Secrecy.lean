/-
Fewer shares than the threshold say nothing about the secret.

Two secrets differ, as polynomials, by their difference at zero. A
polynomial with that value at zero and zeros at the points of the shares
that are seen has a degree below the threshold (`exists_mask`), so adding
its coefficients to the draws turns a split of the one secret into a
split of the other in which the same shares are seen. The addition is
invertible, whence under uniform draws what is seen has one distribution
for all secrets. That a draw is uniform is what the rejection in
`randomFieldElement` is for (`card_accepted`).
-/
import Mathlib.Data.Int.CardIntervalMod
import Mathlib.Probability.Distributions.Uniform
import Lumix.Committee.Reconstruction

namespace Lumix.Committee

open Interpolation

-- ============================================================ the draws

/-- The largest multiple of `P` that fits in 256 bits. -/
def rejectionLimit : ℕ := 2 ^ 256 / P * P

/-- A field element from the 32-byte buffers of `randomBytes`, read as
numbers, and the buffers left over; none while all are rejected. -/
def randomFieldElement : List ℕ → Option (ℤ × List ℕ)
  | [] => none
  | raw :: raws =>
      if rejectionLimit ≤ raw then
        randomFieldElement raws
      else
        some (((raw % P : ℕ) : ℤ), raws)

/-- A draw at the limit or above is thrown away, -/
theorem randomFieldElement_reject {raw : ℕ} (raws : List ℕ)
    (h : rejectionLimit ≤ raw) :
    randomFieldElement (raw :: raws) = randomFieldElement raws :=
  if_pos h

/-- and one below it reduced. -/
theorem randomFieldElement_accept {raw : ℕ} (raws : List ℕ)
    (h : raw < rejectionLimit) :
    randomFieldElement (raw :: raws) = some (((raw % P : ℕ) : ℤ), raws) :=
  if_neg (Nat.not_le.mpr h)

/-- A field element is the residue of the first buffer below the limit;
those before it are all rejected. -/
theorem randomFieldElement_some {raws rest : List ℕ} {v : ℤ}
    (h : randomFieldElement raws = some (v, rest)) :
    ∃ rejected raw, raws = rejected ++ raw :: rest
      ∧ (∀ r ∈ rejected, rejectionLimit ≤ r) ∧ raw < rejectionLimit
      ∧ v = ((raw % P : ℕ) : ℤ) := by
  induction raws with
  | nil => cases h
  | cons raw raws ih =>
      by_cases hlimit : rejectionLimit ≤ raw
      · rw [randomFieldElement_reject raws hlimit] at h
        obtain ⟨rejected, last, rfl, hall, hlast, hv⟩ := ih h
        refine ⟨raw :: rejected, last, rfl, ?_, hlast, hv⟩
        exact List.forall_mem_cons.mpr ⟨hlimit, hall⟩
      · rw [randomFieldElement_accept raws (Nat.lt_of_not_le hlimit)] at h
        injection h with h
        injection h with hv hrest
        subst hrest
        exact ⟨[], raw, rfl, by simp, Nat.lt_of_not_le hlimit, hv.symm⟩

/-- Every field element is the residue of the same number of buffers that
are accepted. -/
theorem card_accepted {v : ℕ} (hv : v < P) :
    ((Finset.range (2 ^ 256)).filter fun raw =>
      randomFieldElement [raw] = some ((v : ℤ), [])).card
      = 2 ^ 256 / P := by
  have hlimit : rejectionLimit ≤ 2 ^ 256 := Nat.div_mul_le_self _ _
  have hfilter : ((Finset.range (2 ^ 256)).filter fun raw =>
      randomFieldElement [raw] = some ((v : ℤ), []))
      = (Finset.range rejectionLimit).filter fun raw =>
        raw ≡ v [MOD P] := by
    ext raw
    rw [Finset.mem_filter, Finset.mem_filter, Finset.mem_range,
      Finset.mem_range]
    by_cases hraw : raw < rejectionLimit
    · rw [randomFieldElement_accept [] hraw, Option.some_inj,
        Prod.mk_inj, Int.natCast_inj, Nat.ModEq, Nat.mod_eq_of_lt hv]
      simp only [hraw, hraw.trans_le hlimit, true_and, and_true]
    · rw [randomFieldElement_reject [] (Nat.le_of_not_lt hraw)]
      simp [hraw, randomFieldElement]
  rw [hfilter, ← Nat.count_eq_card_filter_range,
    Nat.count_modEq_card _ (by decide : 0 < P)]
  unfold rejectionLimit
  rw [Nat.mul_mod_left, Nat.mul_div_cancel _ (by decide : 0 < P),
    if_neg (Nat.not_lt_zero _), add_zero]

-- ====================================================== the coefficients

/-- The draws of a split with threshold `t`. -/
abbrev Coefficients (t : ℕ) := Fin (t - 1) → Fin P

/-- The `i`-th draw. -/
def Coefficients.draws {t : ℕ} (a : Coefficients t) (i : ℕ) : ℤ :=
  if h : i < t - 1 then (a ⟨i, h⟩ : ℕ) else 0

/-- What the holders of the shares at `positions` see of a split. -/
def observed {t : ℕ} (positions : Finset ℕ) (n : ℕ) (secret : ℤ)
    (a : Coefficients t) : Except String (positions → Option Share) :=
  (shamirSplit a.draws secret t n).map fun shares i => shares[(i : ℕ)]?

/-- Draws of a sum are sums of draws. -/
theorem cast_draws_add {t : ℕ} (a b : Coefficients t) (i : ℕ) :
    ((a + b).draws i : ZMod P) = a.draws i + b.draws i := by
  unfold Coefficients.draws
  by_cases hi : i < t - 1
  · rw [dif_pos hi, dif_pos hi, dif_pos hi, Pi.add_apply, Fin.val_add,
      Int.cast_natCast, Int.cast_natCast, Int.cast_natCast,
      ZMod.natCast_mod, Nat.cast_add]
  · rw [dif_neg hi, dif_neg hi, dif_neg hi, Int.cast_zero, add_zero]

/-- A vector of field elements as a vector of draws. -/
def residues {t : ℕ} (c : ℕ → ZMod P) : Coefficients t :=
  fun i => ⟨(c i).val, ZMod.val_lt _⟩

/-- The residues of elements are the elements. -/
theorem cast_residues {t i : ℕ} (c : ℕ → ZMod P) (hi : i < t - 1) :
    ((residues c : Coefficients t).draws i : ZMod P) = c i := by
  unfold Coefficients.draws
  rw [dif_pos hi, Int.cast_natCast]
  exact ZMod.natCast_zmod_val (c i)

-- ============================================================ the shares

/-- The loop ends with a residue. -/
theorem evalPoly_lt (coeffs : List ℤ) (x : ℤ) : evalPoly coeffs x < P := by
  cases coeffs with
  | nil => show (0 : ℤ) < P; decide
  | cons c cs => exact modp_lt _

/-- Two evaluations with one cast are equal. -/
theorem evalPoly_eq {cs ds : List ℤ} {x y : ℤ}
    (h : (evalPoly cs x : ZMod P) = evalPoly ds y) :
    evalPoly cs x = evalPoly ds y := by
  have hmod := ((ZMod.intCast_eq_intCast_iff _ _ P).mp h).eq
  rw [Int.emod_eq_of_lt (evalPoly_nonneg _ _) (evalPoly_lt _ _),
    Int.emod_eq_of_lt (evalPoly_nonneg _ _) (evalPoly_lt _ _)] at hmod
  exact hmod

/-- The coefficients of a split in the field. -/
def coefficient (secret : ℤ) (draws : ℕ → ℤ) : ℕ → ZMod P
  | 0 => secret
  | k + 1 => draws k

/-- A share is the value of the polynomial with the secret and the draws
as coefficients. -/
theorem cast_evalPoly_split {t : ℕ} (ht : 2 ≤ t) (secret : ℤ)
    (draws : ℕ → ℤ) (x : ℤ) :
    (evalPoly (modp secret :: (List.range (t - 1)).map draws) x : ZMod P)
      = horner ((List.range t).map (coefficient secret draws)) x := by
  obtain ⟨k, rfl⟩ := Nat.exists_eq_add_of_le' (show 1 ≤ t by omega)
  rw [cast_evalPoly, List.map_cons, cast_modp, List.map_map,
    List.range_succ_eq_map, List.map_cons, List.map_map,
    Nat.add_sub_cancel]
  rfl

/-- A split lists its shares by their points. -/
theorem split_get {t n i : ℕ} (a : Coefficients t) (secret : ℤ)
    (hi : i < n) :
    (Sdk.shamirSplit a.draws secret t n)[i]?
      = some ⟨i + 1, evalPoly
        (modp secret :: (List.range (t - 1)).map a.draws) (i + 1)⟩ := by
  unfold Sdk.shamirSplit
  rw [List.getElem?_map, List.getElem?_range hi, Option.map_some]

/-- The points of the shares at `positions`. -/
def points (positions : Finset ℕ) : Finset (ZMod P) :=
  positions.image fun i => ((i + 1 : ℕ) : ZMod P)

/-- No share is at zero. -/
theorem zero_notMem_points {positions : Finset ℕ} {n : ℕ} (hn : n < P)
    (hpos : ∀ i ∈ positions, i < n) : (0 : ZMod P) ∉ points positions := by
  intro hzero
  obtain ⟨i, hi, hcast⟩ := Finset.mem_image.mp hzero
  rw [ZMod.natCast_eq_zero_iff] at hcast
  have hle := Nat.le_of_dvd (Nat.succ_pos i) hcast
  have hlt := hpos i hi
  omega

/-- Draws that turn a split of one secret into a split of the other, with
the same shares at `positions`. -/
theorem exists_shift {t n : ℕ} {positions : Finset ℕ} (ht : 2 ≤ t)
    (hn : n < P) (hpos : ∀ i ∈ positions, i < n)
    (hcard : positions.card = t - 1) (s s' : ℤ) :
    ∃ shift : Coefficients t, ∀ a : Coefficients t, ∀ i ∈ positions,
      (Sdk.shamirSplit (a + shift).draws s' t n)[i]?
        = (Sdk.shamirSplit a.draws s t n)[i]? := by
  have hfew : (points positions).card < t := by
    have himage := Finset.card_image_le (s := positions)
      (f := fun i => ((i + 1 : ℕ) : ZMod P))
    unfold points
    omega
  obtain ⟨c, hc, hzeros⟩ := exists_mask ((s' : ZMod P) - s) hfew
    (zero_notMem_points hn hpos)
  refine ⟨residues fun i => c (i + 1), ?_⟩
  intro a i hi
  rw [split_get _ _ (hpos i hi), split_get _ _ (hpos i hi)]
  congr 2
  apply evalPoly_eq
  rw [cast_evalPoly_split ht, cast_evalPoly_split ht]
  have hsum : ∀ k ∈ List.range t,
      coefficient s' (a + residues fun i => c (i + 1)).draws k
        = coefficient s a.draws k + c k := by
    intro k hk
    cases k with
    | zero =>
        show (s' : ZMod P) = s + c 0
        rw [hc, add_sub_cancel]
    | succ k =>
        have hlt := List.mem_range.mp hk
        show (((a + residues fun i => c (i + 1)).draws k : ℤ) : ZMod P)
          = a.draws k + c (k + 1)
        rw [cast_draws_add, cast_residues _ (by omega)]
  have hzero := hzeros _ (Finset.mem_image_of_mem _ hi)
  rw [Nat.cast_add, Nat.cast_one] at hzero
  rw [List.map_congr_left hsum, horner_add, Int.cast_add,
    Int.cast_natCast, Int.cast_one, hzero, add_zero]

-- =========================================================== the secrecy

/-- Uniform values stay uniform under a bijection. -/
theorem map_uniformOfFintype {α : Type*} [Fintype α] [Nonempty α]
    (e : Equiv.Perm α) :
    (PMF.uniformOfFintype α).map e = PMF.uniformOfFintype α := by
  ext a
  rw [PMF.map_apply, tsum_eq_single (e.symm a)]
  · simp
  · intro b hb
    apply if_neg
    rintro rfl
    exact hb (e.symm_apply_apply b).symm

/-- The shares at `t - 1` positions are as likely under one secret as
under any other. -/
theorem few_shares_reveal_nothing {t n : ℕ} (ht : 2 ≤ t) (htn : t ≤ n)
    (hn : n < P) (positions : Finset ℕ) (hpos : ∀ i ∈ positions, i < n)
    (hcard : positions.card = t - 1) (s s' : ℤ) :
    (∃ e : Equiv.Perm (Coefficients t), ∀ a, ∃ shares shares',
      shamirSplit a.draws s t n = .ok shares
        ∧ shamirSplit (e a).draws s' t n = .ok shares'
        ∧ ∀ i ∈ positions, ∃ share,
          shares[i]? = some share ∧ shares'[i]? = some share)
      ∧ (PMF.uniformOfFintype (Coefficients t)).map (observed positions n s)
        = (PMF.uniformOfFintype (Coefficients t)).map
          (observed positions n s') := by
  obtain ⟨shift, hshift⟩ := exists_shift ht hn hpos hcard s s'
  refine ⟨⟨Equiv.addRight shift, ?_⟩, ?_⟩
  · intro a
    refine ⟨_, _, shamirSplit_ok _ _ ht htn, shamirSplit_ok _ _ ht htn, ?_⟩
    intro i hi
    refine ⟨_, split_get a s (hpos i hi), ?_⟩
    rw [← split_get a s (hpos i hi), ← hshift a i hi]
    rfl
  · have hobserved : observed positions n s
        = observed positions n s' ∘ Equiv.addRight shift := by
      funext a
      unfold observed
      rw [shamirSplit_ok _ _ ht htn, Function.comp_apply,
        Equiv.coe_addRight, shamirSplit_ok _ _ ht htn]
      show Except.ok _ = Except.ok _
      congr 1
      funext i
      exact (hshift a i i.property).symm
    rw [hobserved, ← PMF.map_comp, map_uniformOfFintype]

/-- Two holders of a sharing among four with threshold three. -/
theorem two_of_four_reveal_nothing :
    (∃ e : Equiv.Perm (Coefficients 3), ∀ a, ∃ shares shares',
      shamirSplit a.draws 5 3 4 = .ok shares
        ∧ shamirSplit (e a).draws 12 3 4 = .ok shares'
        ∧ ∀ i ∈ ({0, 3} : Finset ℕ), ∃ share,
          shares[i]? = some share ∧ shares'[i]? = some share)
      ∧ (PMF.uniformOfFintype (Coefficients 3)).map (observed {0, 3} 4 5)
        = (PMF.uniformOfFintype (Coefficients 3)).map
          (observed {0, 3} 4 12) :=
  few_shares_reveal_nothing (by decide) (by decide) (by decide) {0, 3}
    (by decide) (by decide) 5 12

end Lumix.Committee
