/-
The loop of `modinv`, turn by turn.

A turn replaces two remainders and two coefficients at once; the
coefficients may be negative and are not reduced until the loop is left.
The remainders stay natural from the reduced argument on, and two turns
halve the second one, so the loop is left after at most 508 turns
(`exists_turns`) with the inverse (`modinv_inverts`). The mpc-crypto
package and the SDK have the same code.
-/
import Mathlib.Data.Nat.Size
import Lumix.Committee.Shamir

namespace Lumix.Committee

/-- The variables of the loop. -/
structure Euclid where
  old_r : ℤ
  r : ℤ
  old_s : ℤ
  s : ℤ

namespace Euclid

/-- One turn: both assignments take the old values. -/
def turn (v : Euclid) : Euclid :=
  let q := v.old_r.tdiv v.r
  { old_r := v.r
    r := v.old_r - q * v.r
    old_s := v.s
    s := v.old_s - q * v.s }

/-- The variables before the first turn. -/
def start (a : ℤ) : Euclid := ⟨modp a, P, 1, 0⟩

/-- The loop is left after `n` turns, and not before. -/
def LeftAfter (v : Euclid) (n : ℕ) : Prop :=
  (turn^[n] v).r = 0 ∧ ∀ m < n, (turn^[m] v).r ≠ 0

/-- A turn of the loop is one of those left. -/
theorem LeftAfter.succ {v : Euclid} {n : ℕ} (hr : v.r ≠ 0)
    (h : v.turn.LeftAfter n) : v.LeftAfter (n + 1) := by
  obtain ⟨hleft, hin⟩ := h
  refine ⟨hleft, ?_⟩
  intro m hm
  cases m with
  | zero => exact hr
  | succ m => exact hin m (by omega)

/-- The remainders of natural numbers are natural, and the second one
falls. -/
theorem turn_r {v : Euclid} (hold : 0 ≤ v.old_r) (hr : 0 < v.r) :
    v.turn.r = v.old_r % v.r ∧ 0 ≤ v.turn.r ∧ v.turn.r < v.r := by
  have hrest : v.turn.r = v.old_r % v.r := by
    show v.old_r - v.old_r.tdiv v.r * v.r = v.old_r % v.r
    rw [Int.tdiv_eq_ediv_of_nonneg hold, Int.emod_def, mul_comm]
  refine ⟨hrest, ?_, ?_⟩
  · rw [hrest]
    exact Int.emod_nonneg _ hr.ne'
  · rw [hrest]
    exact Int.emod_lt_of_pos _ hr

/-- A remainder by a smaller number is less than half. -/
theorem two_mul_emod_lt {a b : ℤ} (hb : 0 < b) (hlt : b < a) :
    2 * (a % b) < a := by
  have hmod := Int.emod_lt_of_pos a hb
  have hdiv : 1 ≤ a / b := Int.le_ediv_of_mul_le hb (by omega)
  have hquot : b ≤ b * (a / b) := le_mul_of_one_le_right hb.le hdiv
  have hsum := Int.emod_add_mul_ediv a b
  omega

/-- A number below half of another is shorter by a bit. -/
theorem size_half {m n : ℕ} (hn : 0 < n) (h : 2 * m < n) :
    m.size + 1 ≤ n.size := by
  have hm : m < 2 ^ (n.size - 1) := by
    have hlt := Nat.lt_size_self n
    have hpos := Nat.size_pos.mpr hn
    have hpow : 2 ^ n.size = 2 * 2 ^ (n.size - 1) := by
      rw [← Nat.pow_succ', Nat.succ_eq_add_one, Nat.sub_add_cancel hpos]
    omega
  have hsize := Nat.size_le.mpr hm
  have hpos := Nat.size_pos.mpr hn
  omega

/-- Two turns for each bit are enough. -/
theorem exists_turns (v : Euclid) (hold : 0 ≤ v.old_r) (hr : 0 ≤ v.r) :
    ∃ n ≤ 2 * v.r.toNat.size, v.LeftAfter n := by
  induction hn : v.r.toNat using Nat.strong_induction_on generalizing v with
  | _ n ih =>
      by_cases hzero : v.r = 0
      · exact ⟨0, Nat.zero_le _, hzero, fun m hm => absurd hm m.not_lt_zero⟩
      have hpos : 0 < v.r := by omega
      obtain ⟨-, hturn, hfalls⟩ := turn_r hold hpos
      have hbits : 0 < n.size := Nat.size_pos.mpr (by omega)
      by_cases hlast : v.turn.r = 0
      · refine ⟨1, by omega, ?_⟩
        exact LeftAfter.succ hzero
          ⟨hlast, fun m hm => absurd hm m.not_lt_zero⟩
      -- two turns on, the remainder has lost a bit
      have hsecond : 0 < v.turn.r := by omega
      obtain ⟨hrest, hnext, hless⟩ := turn_r (v := v.turn) hr hsecond
      have hhalf : 2 * v.turn.turn.r < v.r := by
        rw [hrest]
        exact two_mul_emod_lt hsecond hfalls
      have hsize := size_half (m := v.turn.turn.r.toNat) (n := n) (by omega)
        (by omega)
      obtain ⟨k, hk, hleft⟩ := ih v.turn.turn.r.toNat (by omega) v.turn.turn
        hturn hnext rfl
      exact ⟨k + 2, by omega, (hleft.succ hlast).succ hzero⟩

/-- What the loop returns. -/
theorem modinvLoop_eq {v : Euclid} {n : ℕ} (h : v.LeftAfter n) :
    modinvLoop v.old_r v.r v.old_s v.s = (turn^[n] v).old_s := by
  induction n generalizing v with
  | zero =>
      have hleft : v.r = 0 := h.1
      rw [modinvLoop, if_pos hleft]
      rfl
  | succ n ih =>
      obtain ⟨hleft, hin⟩ := h
      have hfirst : v.r ≠ 0 := hin 0 (Nat.succ_pos n)
      rw [modinvLoop, if_neg hfirst]
      refine ih (v := v.turn) ⟨hleft, ?_⟩
      intro m hm
      exact hin (m + 1) (by omega)

end Euclid

open Euclid

/-- The product of a number and its `modinv` is 1. -/
theorem mul_modinv_emod {a : ℤ} (ha : ¬(P : ℤ) ∣ a) :
    a * modinv a % P = 1 := by
  have hne : (a : ZMod P) ≠ 0 := by
    rwa [Ne, ZMod.intCast_zmod_eq_zero_iff_dvd]
  have hone : ((a * modinv a : ℤ) : ZMod P) = (1 : ℤ) := by
    rw [Int.cast_mul, cast_modinv hne, Int.cast_one]
    exact mul_inv_cancel₀ hne
  have hmod := (ZMod.intCast_eq_intCast_iff' _ _ _).mp hone
  exact hmod.trans (by decide)

/-- For every integer the loop is left, after at most 508 turns, and
`modinv` is the coefficient it leaves, reduced; unless the integer is a
multiple of `P`, that is its inverse in `[0, P)`. -/
theorem modinv_inverts :
    ∀ a : ℤ,
      (∃ n ≤ 508, (start a).LeftAfter n
        ∧ modinv a = modp (turn^[n] (start a)).old_s)
      ∧ (¬(P : ℤ) ∣ a →
        0 ≤ modinv a ∧ modinv a < P ∧ a * modinv a % P = 1) := by
  intro a
  refine ⟨?_, ?_⟩
  · obtain ⟨n, hn, hleft⟩ :=
      exists_turns (start a) (modp_nonneg a) (Int.natCast_nonneg P)
    have hsize : P.size = 254 := by decide +kernel
    have hbound : 2 * (start a).r.toNat.size = 508 := by
      show 2 * ((P : ℤ).toNat).size = 508
      rw [Int.toNat_natCast, hsize]
    refine ⟨n, by omega, hleft, ?_⟩
    exact congrArg modp (modinvLoop_eq hleft)
  · intro ha
    exact ⟨modp_nonneg _, modp_lt _, mul_modinv_emod ha⟩

/-- A negative number and its inverse. -/
theorem modinv_inverts_neg :
    ¬(P : ℤ) ∣ -3 ∧ 0 ≤ modinv (-3) ∧ modinv (-3) < P
      ∧ -3 * modinv (-3) % P = 1 := by
  have hne : ¬(P : ℤ) ∣ -3 := by decide
  obtain ⟨-, hinverse⟩ := modinv_inverts (-3)
  exact ⟨hne, hinverse hne⟩

end Lumix.Committee
