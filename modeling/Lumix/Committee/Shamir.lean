/-
Shamir sharing of an amount, its reconstruction, and its shares as text.

The package computes on big integers and reduces modulo the order of the
BN254 scalar field as it goes. Here the functions are those computations
on `ℤ`, and every statement about them is read in `ZMod P`, where
reduction disappears. Interpolation divides, so what carries the result
is that `P` is prime and that `modinv` inverts.
-/
import Mathlib.Algebra.Field.ZMod
import Mathlib.Tactic.FieldSimp
import Mathlib.Tactic.LinearCombination
import Mathlib.Tactic.NormNum.Prime
import Mathlib.Tactic.ReduceModChar
import Lumix.Lib.Primality
import Lumix.Lib.Text

namespace Lumix.Committee

-- ======================================================== the functions

/-- The order of the BN254 scalar field. -/
def P : ℕ :=
  21888242871839275222246405745257275088548364400416034343698204186575808495617

/-- A point of a polynomial. -/
structure Share where
  x : ℤ
  y : ℤ
deriving DecidableEq

/-- `((x % P) + P) % P`; the language's `%` takes the dividend's sign. -/
def modp (x : ℤ) : ℤ := (x.tmod P + P).tmod P

/-- The rest of a truncated division is smaller than the divisor. -/
theorem natAbs_rest_lt (old_r : ℤ) {r : ℤ} (hr : r ≠ 0) :
    (old_r - old_r.tdiv r * r).natAbs < r.natAbs := by
  have hrest : old_r - old_r.tdiv r * r = old_r.tmod r := by
    rw [Int.tmod_def, mul_comm]
  rw [hrest, Int.natAbs_tmod]
  exact Nat.mod_lt _ (Int.natAbs_pos.mpr hr)

/-- The loop of `modinv`, up to the last `old_s`. -/
def modinvLoop (old_r r old_s s : ℤ) : ℤ :=
  if r = 0 then
    old_s
  else
    let q := old_r.tdiv r
    modinvLoop r (old_r - q * r) s (old_s - q * s)
termination_by r.natAbs
decreasing_by exact natAbs_rest_lt old_r ‹_›

/-- The inverse of a residue, by the extended algorithm of Euclid. -/
def modinv (a : ℤ) : ℤ := modp (modinvLoop (modp a) P 1 0)

/-- `f(x)` by Horner's rule, from the last coefficient down. -/
def evalPoly (coeffs : List ℤ) (x : ℤ) : ℤ :=
  coeffs.foldr (fun c y => modp (y * x + c)) 0

/-- `draws i` is the `i`-th value of `randomFieldElement`. -/
def shamirSplit (draws : ℕ → ℤ) (secret : ℤ) (threshold total : ℕ) :
    Except String (List Share) :=
  if threshold < 2 ∨ threshold > total then
    .error "invalid threshold"
  else
    let coeffs := modp secret :: (List.range (threshold - 1)).map draws
    .ok ((List.range total).map fun (i : ℕ) =>
      ⟨i + 1, evalPoly coeffs (i + 1)⟩)

/-- The inner loop of the interpolation: numerator and denominator of
the `i`-th basis value at zero. -/
def basis (shares : List Share) (i : ℕ) (share : Share) : ℤ × ℤ :=
  shares.zipIdx.foldl
    (fun nd p =>
      if i = p.2 then
        nd
      else
        (modp (nd.1 * modp (-p.1.x)), modp (nd.2 * (share.x - p.1.x))))
    (1, 1)

/-- Lagrange interpolation at zero. -/
def shamirReconstruct (shares : List Share) : ℤ :=
  shares.zipIdx.foldl
    (fun secret p =>
      let nd := basis shares p.2 p.1
      modp (secret + modp (p.1.y * modp (nd.1 * modinv nd.2))))
    0

-- ============================================================ transport

/-- A share in decimal. -/
structure EncodedShare where
  x : String
  y : String

/-- It is written in decimal. -/
def encodeShare (share : Share) : EncodedShare :=
  ⟨toString share.x, toString share.y⟩

/-- None where `BigInt` throws. -/
def decodeShare (encoded : EncodedShare) : Option Share := do
  let x ← Text.bigInt encoded.x
  let y ← Text.bigInt encoded.y
  return ⟨x, y⟩

/-- A share of natural numbers reads back as it was written. -/
theorem decodeShare_encodeShare {share : Share} (hx : 0 ≤ share.x)
    (hy : 0 ≤ share.y) : decodeShare (encodeShare share) = some share := by
  obtain ⟨x, y⟩ := share
  obtain ⟨m, rfl⟩ := Int.eq_ofNat_of_zero_le hx
  obtain ⟨n, rfl⟩ := Int.eq_ofNat_of_zero_le hy
  show (do
    let x ← Text.bigInt (toString m)
    let y ← Text.bigInt (toString n)
    return (⟨x, y⟩ : Share)) = _
  rw [Text.bigInt_toString, Text.bigInt_toString]
  rfl

-- ============================================================ reduction

instance : NeZero P := ⟨by decide⟩

/-- `mod` is the residue. -/
theorem modp_eq (x : ℤ) : modp x = x % P := by
  have hP : (0 : ℤ) < P := by decide
  have hlow : -(P : ℤ) < x.tmod P := Int.lt_tmod_of_pos x hP
  rw [modp, Int.tmod_eq_emod_of_nonneg (by omega), Int.add_emod_right,
    Int.tmod_eq_emod]
  split
  · rw [Nat.cast_zero, sub_zero, Int.emod_emod]
  · rw [Int.natAbs_natCast, Int.sub_emod_right, Int.emod_emod]

/-- It is the element itself, -/
@[simp]
theorem cast_modp (x : ℤ) : (modp x : ZMod P) = (x : ZMod P) := by
  rw [modp_eq, ZMod.intCast_mod]

/-- not negative -/
theorem modp_nonneg (x : ℤ) : 0 ≤ modp x := by
  rw [modp_eq]
  exact Int.emod_nonneg _ (by decide)

/-- and below the modulus. -/
theorem modp_lt (x : ℤ) : modp x < P := by
  rw [modp_eq]
  exact Int.emod_lt_of_pos _ (by decide)

-- ============================================================ the prime

/-- The primes of the certificate, the smallest first. -/
theorem prime_405928799 :
    Nat.Prime 405928799 := by
  refine Primality.prime_of_factors (22 : ZMod 405928799)
    [2, 11, 3691, 4999] ?_ (by norm_num) (by reduce_mod_char) ?_
  · simp only [List.forall_mem_cons, List.not_mem_nil, IsEmpty.forall_iff,
      implies_true, and_true]
    refine ⟨?_, ?_, ?_, ?_⟩ <;> norm_num
  · simp only [List.forall_mem_cons, List.not_mem_nil, IsEmpty.forall_iff,
      implies_true, and_true, Nat.reduceSub, Nat.reduceDiv]
    refine ⟨?_, ?_, ?_, ?_⟩ <;> (reduce_mod_char; decide)

theorem prime_12048837557 :
    Nat.Prime 12048837557 := by
  refine Primality.prime_of_factors (2 : ZMod 12048837557)
    [2, 2, 7, 7, 661, 93001] ?_ (by norm_num) (by reduce_mod_char) ?_
  · simp only [List.forall_mem_cons, List.not_mem_nil, IsEmpty.forall_iff,
      implies_true, and_true]
    refine ⟨?_, ?_, ?_, ?_, ?_, ?_⟩ <;> norm_num
  · simp only [List.forall_mem_cons, List.not_mem_nil, IsEmpty.forall_iff,
      implies_true, and_true, Nat.reduceSub, Nat.reduceDiv]
    refine ⟨?_, ?_, ?_, ?_, ?_, ?_⟩ <;> (reduce_mod_char; decide)

theorem prime_5156902474397 :
    Nat.Prime 5156902474397 := by
  refine Primality.prime_of_factors (2 : ZMod 5156902474397)
    [2, 2, 107, 12048837557] ?_ (by norm_num) (by reduce_mod_char) ?_
  · simp only [List.forall_mem_cons, List.not_mem_nil, IsEmpty.forall_iff,
      implies_true, and_true]
    refine ⟨?_, ?_, ?_, prime_12048837557⟩ <;> norm_num
  · simp only [List.forall_mem_cons, List.not_mem_nil, IsEmpty.forall_iff,
      implies_true, and_true, Nat.reduceSub, Nat.reduceDiv]
    refine ⟨?_, ?_, ?_, ?_⟩ <;> (reduce_mod_char; decide)

theorem prime_1670836401704629 :
    Nat.Prime 1670836401704629 := by
  refine Primality.prime_of_factors (2 : ZMod 1670836401704629)
    [2, 2, 3, 3, 3, 3, 5156902474397] ?_ (by norm_num)
    (by reduce_mod_char) ?_
  · simp only [List.forall_mem_cons, List.not_mem_nil, IsEmpty.forall_iff,
      implies_true, and_true]
    refine ⟨?_, ?_, ?_, ?_, ?_, ?_, prime_5156902474397⟩ <;> norm_num
  · simp only [List.forall_mem_cons, List.not_mem_nil, IsEmpty.forall_iff,
      implies_true, and_true, Nat.reduceSub, Nat.reduceDiv]
    refine ⟨?_, ?_, ?_, ?_, ?_, ?_, ?_⟩ <;> (reduce_mod_char; decide)

theorem prime_639533339 :
    Nat.Prime 639533339 := by
  refine Primality.prime_of_factors (2 : ZMod 639533339)
    [2, 229, 853, 1637] ?_ (by norm_num) (by reduce_mod_char) ?_
  · simp only [List.forall_mem_cons, List.not_mem_nil, IsEmpty.forall_iff,
      implies_true, and_true]
    refine ⟨?_, ?_, ?_, ?_⟩ <;> norm_num
  · simp only [List.forall_mem_cons, List.not_mem_nil, IsEmpty.forall_iff,
      implies_true, and_true, Nat.reduceSub, Nat.reduceDiv]
    refine ⟨?_, ?_, ?_, ?_⟩ <;> (reduce_mod_char; decide)

theorem prime_65865678001877903 :
    Nat.Prime 65865678001877903 := by
  refine Primality.prime_of_factors (5 : ZMod 65865678001877903)
    [2, 83, 379, 1637, 639533339] ?_ (by norm_num) (by reduce_mod_char) ?_
  · simp only [List.forall_mem_cons, List.not_mem_nil, IsEmpty.forall_iff,
      implies_true, and_true]
    refine ⟨?_, ?_, ?_, ?_, prime_639533339⟩ <;> norm_num
  · simp only [List.forall_mem_cons, List.not_mem_nil, IsEmpty.forall_iff,
      implies_true, and_true, Nat.reduceSub, Nat.reduceDiv]
    refine ⟨?_, ?_, ?_, ?_, ?_⟩ <;> (reduce_mod_char; decide)

theorem prime_13818364434197438864469338081 :
    Nat.Prime 13818364434197438864469338081 := by
  refine Primality.prime_of_factors (3 : ZMod 13818364434197438864469338081)
    [2, 2, 2, 2, 2, 5, 823, 1593227, 65865678001877903] ?_ (by norm_num)
    (by reduce_mod_char) ?_
  · simp only [List.forall_mem_cons, List.not_mem_nil, IsEmpty.forall_iff,
      implies_true, and_true]
    refine ⟨?_, ?_, ?_, ?_, ?_, ?_, ?_, ?_, prime_65865678001877903⟩ <;>
      norm_num
  · simp only [List.forall_mem_cons, List.not_mem_nil, IsEmpty.forall_iff,
      implies_true, and_true, Nat.reduceSub, Nat.reduceDiv]
    refine ⟨?_, ?_, ?_, ?_, ?_, ?_, ?_, ?_, ?_⟩ <;> (reduce_mod_char; decide)

/-- The witness of the certificate is 5. -/
theorem prime_P : P.Prime := by
  refine Primality.prime_of_factors (5 : ZMod P)
    (List.replicate 28 2 ++ [3, 3, 13, 29, 983, 11003, 237073, 405928799,
      1670836401704629, 13818364434197438864469338081]) ?_ (by decide) ?_ ?_
  · rw [List.forall_mem_append]
    refine ⟨fun q hq => List.eq_of_mem_replicate hq ▸ Nat.prime_two, ?_⟩
    simp only [List.forall_mem_cons, List.not_mem_nil, IsEmpty.forall_iff,
      implies_true, and_true]
    refine ⟨?_, ?_, ?_, ?_, ?_, ?_, ?_, prime_405928799,
      prime_1670836401704629, prime_13818364434197438864469338081⟩ <;>
      norm_num
  · unfold P
    reduce_mod_char
  · unfold P
    rw [List.forall_mem_append]
    constructor
    · intro q hq
      rw [List.eq_of_mem_replicate hq]
      reduce_mod_char
      decide
    · simp only [List.forall_mem_cons, List.not_mem_nil,
        IsEmpty.forall_iff, implies_true, and_true, Nat.reduceSub,
        Nat.reduceDiv]
      refine ⟨?_, ?_, ?_, ?_, ?_, ?_, ?_, ?_, ?_, ?_⟩ <;>
        (reduce_mod_char; decide)

instance : Fact P.Prime := ⟨prime_P⟩

-- ========================================================== inversion

/-- Each turn of the loop keeps both Bézout equations, and the last
remainder is the greatest common divisor, 1. -/
theorem modinvLoop_mul (a : ZMod P) (old_r r old_s s : ℤ)
    (hold : 0 ≤ old_r) (hr : 0 ≤ r) (hgcd : Int.gcd old_r r = 1)
    (holds : (old_s : ZMod P) * a = old_r) (hs : (s : ZMod P) * a = r) :
    ((modinvLoop old_r r old_s s : ℤ) : ZMod P) * a = 1 := by
  induction old_r, r, old_s, s using modinvLoop.induct with
  | case1 old_r old_s s =>
      rw [modinvLoop, if_pos rfl, holds]
      rw [Int.gcd_zero_right] at hgcd
      have hone : old_r = 1 := by omega
      rw [hone, Int.cast_one]
  | case2 old_r r old_s s hne q ih =>
      rw [modinvLoop, if_neg hne]
      have hrest : old_r - q * r = old_r.tmod r := by
        rw [Int.tmod_def, mul_comm]
      refine ih hr ?_ ?_ hs ?_
      · rw [hrest]
        exact Int.tmod_nonneg r hold
      · rw [Int.gcd_sub_mul_right_right, Int.gcd_comm]
        exact hgcd
      · push_cast
        linear_combination holds - (q : ZMod P) * hs

/-- `modinv` inverts whatever is not zero modulo `P`. -/
theorem cast_modinv {a : ℤ} (ha : (a : ZMod P) ≠ 0) :
    (modinv a : ZMod P) = (a : ZMod P)⁻¹ := by
  have hP : ((P : ℤ) : ZMod P) = 0 := by
    rw [Int.cast_natCast, ZMod.natCast_self]
  have hgcd : Int.gcd (modp a) P = 1 := by
    have hprime : Nat.Coprime (modp a).natAbs P := by
      rw [Nat.coprime_comm, prime_P.coprime_iff_not_dvd]
      intro hdvd
      apply ha
      rw [← cast_modp, ZMod.intCast_zmod_eq_zero_iff_dvd]
      exact Int.natCast_dvd.mpr hdvd
    exact hprime
  have hloop := modinvLoop_mul a (modp a) P 1 0 (modp_nonneg a)
    (by decide) hgcd (by simp) (by rw [hP, Int.cast_zero, zero_mul])
  rw [modinv, cast_modp]
  exact eq_inv_of_mul_eq_one_left hloop

end Lumix.Committee
