/-
Enough shares give the secret back, whichever they are.

The interpolation of `shamirReconstruct`, cast to `ZMod P`, is the
weighted sum of `value_at_zero`, and the split evaluates the secret and
the draws by Horner's rule at `1 … n`. Below `P` these points are
different and not only unequal as integers, so every weight inverts.
The client of the SDK splits by itself, without the check of the
threshold; its shares are the same function of its own draws.
-/
import Lumix.Lib.Interpolation
import Lumix.Committee.Shamir

namespace Lumix.Sdk

open Lumix.Committee (Share modp evalPoly)

/-- The `shamirSplit` of the SDK, which does not check its threshold. -/
def shamirSplit (draws : ℕ → ℤ) (secret : ℤ) (threshold total : ℕ) :
    List Share :=
  let coeffs := modp secret :: (List.range (threshold - 1)).map draws
  (List.range total).map fun (i : ℕ) => ⟨i + 1, evalPoly coeffs (i + 1)⟩

end Lumix.Sdk

namespace Lumix.Committee

open Interpolation

-- =========================================================== the shares

/-- The loop is Horner's scheme in the field. -/
theorem cast_evalPoly (coeffs : List ℤ) (x : ℤ) :
    (evalPoly coeffs x : ZMod P)
      = horner (coeffs.map fun (c : ℤ) => (c : ZMod P)) x := by
  induction coeffs with
  | nil => exact Int.cast_zero
  | cons c cs ih =>
      show ((modp (evalPoly cs x * x + c) : ℤ) : ZMod P) = _
      rw [cast_modp, Int.cast_add, Int.cast_mul, ih, List.map_cons,
        horner_cons]

/-- It ends with a residue. -/
theorem evalPoly_nonneg (coeffs : List ℤ) (x : ℤ) :
    0 ≤ evalPoly coeffs x := by
  cases coeffs with
  | nil => exact le_refl 0
  | cons c cs => exact modp_nonneg _

/-- The package splits as the SDK does, once it has checked the
threshold. -/
theorem shamirSplit_ok {threshold total : ℕ} (draws : ℕ → ℤ)
    (secret : ℤ) (hlow : 2 ≤ threshold) (hhigh : threshold ≤ total) :
    shamirSplit draws secret threshold total
      = .ok (Sdk.shamirSplit draws secret threshold total) := by
  unfold shamirSplit Sdk.shamirSplit
  exact if_neg (by omega)

/-- A threshold below two or above the total is refused. -/
theorem shamirSplit_error {threshold total : ℕ} (draws : ℕ → ℤ)
    (secret : ℤ) (h : threshold < 2 ∨ total < threshold) :
    shamirSplit draws secret threshold total
      = .error "invalid threshold" :=
  if_pos h

/-- A share of a split: its point is one of `1 … n`, and its value is
that of the secret and the draws there. -/
theorem mem_split {draws : ℕ → ℤ} {secret : ℤ} {t n : ℕ} {share : Share}
    (h : share ∈ Sdk.shamirSplit draws secret t n) :
    0 < share.x ∧ share.x ≤ n ∧ 0 ≤ share.y
      ∧ (share.y : ZMod P)
        = horner ((secret : ZMod P)
          :: (List.range (t - 1)).map fun (i : ℕ) => (draws i : ZMod P))
          share.x := by
  obtain ⟨i, hi, rfl⟩ := List.mem_map.mp h
  have hlt := List.mem_range.mp hi
  refine ⟨by dsimp only; omega, by dsimp only; omega,
    evalPoly_nonneg _ _, ?_⟩
  dsimp only
  rw [cast_evalPoly, List.map_cons, cast_modp, List.map_map]
  rfl

-- ==================================================== the interpolation

/-- A product over indexed shares, -/
theorem prod_zipIdx (shares : List Share) (g : Share → ℕ → ZMod P) :
    (shares.zipIdx.map fun p => g p.1 p.2).prod
      = ∏ j : Fin shares.length, g shares[j] j := by
  rw [← List.prod_ofFn]
  congr 1
  apply List.ext_getElem
  · simp
  · intro j h₁ h₂
    simp

/-- and a sum. -/
theorem sum_zipIdx (shares : List Share) (g : Share → ℕ → ZMod P) :
    (shares.zipIdx.map fun p => g p.1 p.2).sum
      = ∑ j : Fin shares.length, g shares[j] j := by
  rw [← List.sum_ofFn]
  congr 1
  apply List.ext_getElem
  · simp
  · intro j h₁ h₂
    simp

/-- The inner loop multiplies as it goes. -/
theorem cast_basis_fold (i : ℕ) (share : Share) (l : List (Share × ℕ))
    (nd : ℤ × ℤ) :
    let r := l.foldl
      (fun nd p =>
        if i = p.2 then
          nd
        else
          (modp (nd.1 * modp (-p.1.x)), modp (nd.2 * (share.x - p.1.x))))
      nd
    (r.1 : ZMod P)
        = nd.1 * (l.map fun p => if i = p.2 then 1
          else -(p.1.x : ZMod P)).prod
      ∧ (r.2 : ZMod P)
        = nd.2 * (l.map fun p => if i = p.2 then 1
          else (share.x : ZMod P) - p.1.x).prod := by
  induction l generalizing nd with
  | nil => simp
  | cons p l ih =>
      obtain ⟨hnum, hden⟩ := ih
        (if i = p.2 then nd
          else (modp (nd.1 * modp (-p.1.x)),
            modp (nd.2 * (share.x - p.1.x))))
      simp only [List.foldl_cons, List.map_cons, List.prod_cons]
      rw [hnum, hden]
      by_cases hi : i = p.2
      · simp [hi]
      · simp [hi, mul_assoc]

/-- The weight that the inner loop leaves is that of its node. -/
theorem cast_weight (shares : List Share)
    (hinj : Function.Injective
      fun i : Fin shares.length => (shares[i].x : ZMod P))
    (i : Fin shares.length) :
    ((basis shares i shares[i]).1 : ZMod P)
        * modinv (basis shares i shares[i]).2
      = weight (fun j : Fin shares.length => (shares[j].x : ZMod P)) i := by
  obtain ⟨hnum, hden⟩ := cast_basis_fold i shares[i] shares.zipIdx (1, 1)
  change ((basis shares i shares[i]).1 : ZMod P) = _ at hnum
  change ((basis shares i shares[i]).2 : ZMod P) = _ at hden
  rw [Int.cast_one, one_mul,
    prod_zipIdx shares fun s j => if (i : ℕ) = j then 1 else -(s.x : ZMod P)]
    at hnum
  rw [Int.cast_one, one_mul,
    prod_zipIdx shares fun s j => if (i : ℕ) = j then 1
      else (shares[i].x : ZMod P) - s.x] at hden
  simp only [Fin.val_inj] at hnum hden
  have hne : ((basis shares i shares[i]).2 : ZMod P) ≠ 0 := by
    rw [hden, Finset.prod_ne_zero_iff]
    intro j _
    by_cases hij : i = j
    · rw [if_pos hij]
      exact one_ne_zero
    · rw [if_neg hij]
      exact sub_ne_zero.mpr fun hsame => hij (hinj hsame)
  rw [cast_modinv hne, hnum, hden]
  rfl

/-- The loop adds each share times its basis polynomial at zero. -/
theorem shamirReconstruct_fold (shares : List Share)
    (l : List (Share × ℕ)) (acc : ℤ) :
    ((l.foldl
      (fun secret p =>
        let nd := basis shares p.2 p.1
        modp (secret + modp (p.1.y * modp (nd.1 * modinv nd.2))))
      acc : ℤ) : ZMod P)
      = acc + (l.map fun p => (p.1.y : ZMod P)
          * ((basis shares p.2 p.1).1
            * modinv (basis shares p.2 p.1).2)).sum := by
  induction l generalizing acc with
  | nil => simp
  | cons p l ih =>
      rw [List.foldl_cons, ih, List.map_cons, List.sum_cons]
      simp only [cast_modp, Int.cast_add, Int.cast_mul, add_assoc]

/-- The interpolation of shares at different points is the weighted sum
of their values. -/
theorem cast_shamirReconstruct (shares : List Share)
    (hinj : Function.Injective
      fun i : Fin shares.length => (shares[i].x : ZMod P)) :
    (shamirReconstruct shares : ZMod P)
      = ∑ i : Fin shares.length, (shares[i].y : ZMod P)
        * weight (fun j : Fin shares.length => (shares[j].x : ZMod P)) i := by
  unfold shamirReconstruct
  rw [shamirReconstruct_fold, Int.cast_zero, zero_add,
    sum_zipIdx shares fun s i => (s.y : ZMod P)
      * ((basis shares i s).1 * modinv (basis shares i s).2)]
  apply Finset.sum_congr rfl
  intro i _
  rw [cast_weight shares hinj i]

/-- It ends with a residue. -/
theorem shamirReconstruct_range (shares : List Share) :
    0 ≤ shamirReconstruct shares ∧ shamirReconstruct shares < P := by
  unfold shamirReconstruct
  apply List.foldlRecOn (motive := fun r : ℤ => 0 ≤ r ∧ r < P)
  · exact ⟨le_refl 0, by decide⟩
  · intro r _ p _
    exact ⟨modp_nonneg _, modp_lt _⟩

-- ======================================================== any t shares

/-- Any `t` or more different shares give the secret modulo `P`, as they
are and after the transport. -/
def Recovers (t : ℕ) (secret : ℤ) (shares : List Share) : Prop :=
  ∀ picked : List Share, (∀ share ∈ picked, share ∈ shares) →
    t ≤ picked.length → (picked.map Share.x).Nodup →
      shamirReconstruct picked = secret % P
        ∧ ((picked.map encodeShare).mapM decodeShare).map shamirReconstruct
          = some (secret % P)

/-- Different points among `1 … n` are different modulo `P`. -/
theorem cast_points_injective {n : ℕ} {picked : List Share} (hn : n < P)
    (hrange : ∀ share ∈ picked, 0 < share.x ∧ share.x ≤ n)
    (hnodup : (picked.map Share.x).Nodup) :
    Function.Injective
      fun i : Fin picked.length => (picked[i].x : ZMod P) := by
  intro i j hij
  have hi := hrange picked[i] (List.getElem_mem _)
  have hj := hrange picked[j] (List.getElem_mem _)
  rw [ZMod.intCast_eq_intCast_iff] at hij
  have hmod := hij.eq
  rw [Int.emod_eq_of_lt hi.1.le (by omega),
    Int.emod_eq_of_lt hj.1.le (by omega)] at hmod
  have hi' : (i : ℕ) < (picked.map Share.x).length := by simp
  have hj' : (j : ℕ) < (picked.map Share.x).length := by simp
  have hsame : (picked.map Share.x)[(i : ℕ)]
      = (picked.map Share.x)[(j : ℕ)] := by
    rw [List.getElem_map, List.getElem_map]
    exact hmod
  exact Fin.ext (hnodup.getElem_inj_iff.mp hsame)

/-- Enough shares of a split give its secret. -/
theorem reconstruct_picked {draws : ℕ → ℤ} {secret : ℤ} {t n : ℕ}
    {picked : List Share} (ht : 0 < t) (hn : n < P)
    (hmem : ∀ share ∈ picked, share ∈ Sdk.shamirSplit draws secret t n)
    (hlen : t ≤ picked.length) (hnodup : (picked.map Share.x).Nodup) :
    shamirReconstruct picked = secret % P := by
  have hinj := cast_points_injective hn
    (fun share hs => ⟨(mem_split (hmem share hs)).1,
      (mem_split (hmem share hs)).2.1⟩) hnodup
  have hcast : (shamirReconstruct picked : ZMod P) = secret := by
    rw [cast_shamirReconstruct picked hinj, ← horner_zero (secret : ZMod P)
      ((List.range (t - 1)).map fun (i : ℕ) => (draws i : ZMod P))]
    apply value_at_zero hinj
    · rw [List.length_cons, List.length_map, List.length_range]
      omega
    · intro i
      exact (mem_split (hmem picked[i] (List.getElem_mem _))).2.2.2
  obtain ⟨hlow, hhigh⟩ := shamirReconstruct_range picked
  rw [ZMod.intCast_eq_intCast_iff] at hcast
  rw [← hcast.eq, Int.emod_eq_of_lt hlow hhigh]

/-- Shares that are encoded are decoded. -/
theorem mapM_decodeShare {picked : List Share}
    (h : ∀ share ∈ picked, 0 ≤ share.x ∧ 0 ≤ share.y) :
    (picked.map encodeShare).mapM decodeShare = some picked := by
  induction picked with
  | nil => rfl
  | cons share picked ih =>
      obtain ⟨hx, hy⟩ := h share (List.mem_cons_self ..)
      rw [List.map_cons, List.mapM_cons, decodeShare_encodeShare hx hy,
        ih fun s hs => h s (List.mem_cons_of_mem _ hs)]
      rfl

/-- So a split recovers its secret from any as many as its threshold. -/
theorem recovers_split {t n : ℕ} (draws : ℕ → ℤ) (secret : ℤ)
    (ht : 0 < t) (hn : n < P) :
    Recovers t secret (Sdk.shamirSplit draws secret t n) := by
  intro picked hmem hlen hnodup
  have hvalue := reconstruct_picked ht hn hmem hlen hnodup
  refine ⟨hvalue, ?_⟩
  rw [mapM_decodeShare, Option.map_some, hvalue]
  intro share hs
  obtain ⟨hlow, _, hy, _⟩ := mem_split (hmem share hs)
  exact ⟨hlow.le, hy⟩

/-- Two shares of a sharing of degree one give an amount back. -/
theorem shamirReconstruct_split {draws : ℕ → ℤ} {secret : ℤ} {n i j : ℕ}
    {shares : List Share} {a b : Share} (hn : n < P)
    (hlow : 0 ≤ secret) (hhigh : secret < P)
    (h : shamirSplit draws secret 2 n = .ok shares)
    (ha : shares[i]? = some a) (hb : shares[j]? = some b) (hij : i ≠ j) :
    shamirReconstruct [a, b] = secret := by
  have htwo : 2 ≤ n := by
    by_contra hlt
    rw [shamirSplit_error draws secret (by omega)] at h
    cases h
  rw [shamirSplit_ok draws secret (le_refl 2) htwo] at h
  injection h with h
  subst h
  have hne : a.x ≠ b.x := by
    unfold Sdk.shamirSplit at ha hb
    rw [List.getElem?_map, Option.map_eq_some_iff] at ha hb
    obtain ⟨k, hk, rfl⟩ := ha
    obtain ⟨l, hl, rfl⟩ := hb
    rw [List.getElem?_eq_some_iff] at hk hl
    obtain ⟨_, hk⟩ := hk
    obtain ⟨_, hl⟩ := hl
    rw [List.getElem_range] at hk hl
    dsimp only
    omega
  have hmem : ∀ share ∈ [a, b],
      share ∈ Sdk.shamirSplit draws secret 2 n := by
    intro share hs
    rcases List.mem_pair.mp hs with rfl | rfl
    · exact List.mem_of_getElem? ha
    · exact List.mem_of_getElem? hb
  rw [reconstruct_picked two_pos hn hmem (le_refl 2) (by simpa using hne),
    Int.emod_eq_of_lt hlow hhigh]

/-- A split with a threshold it accepts is recovered from any `t` of its
shares, on either side. -/
theorem any_threshold_recovers (draws sdkDraws : ℕ → ℤ) (secret : ℤ)
    {t n : ℕ} (ht : 2 ≤ t) (htn : t ≤ n) (hn : n < P) :
    (∃ shares, shamirSplit draws secret t n = .ok shares
        ∧ Recovers t secret shares)
      ∧ Recovers t secret (Sdk.shamirSplit sdkDraws secret t n) :=
  ⟨⟨_, shamirSplit_ok draws secret ht htn,
    recovers_split draws secret (by omega) hn⟩,
    recovers_split sdkDraws secret (by omega) hn⟩

/-- Three of five, picked out of order, of an amount below zero. -/
theorem three_of_five_recovers :
    (2 ≤ 3 ∧ 3 ≤ 5 ∧ 5 < P)
      ∧ (∃ shares,
          shamirSplit (fun i : ℕ => (7 * i + 11 : ℤ)) (-4) 3 5 = .ok shares
            ∧ Recovers 3 (-4) shares)
      ∧ Recovers 3 (-4)
        (Sdk.shamirSplit (fun i : ℕ => (i + 2 : ℤ)) (-4) 3 5) :=
  ⟨by decide, any_threshold_recovers _ _ (-4) (by decide) (by decide)
    (by decide)⟩

end Lumix.Committee
