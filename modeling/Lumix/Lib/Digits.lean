/-
Positional notation for finite strings: the number a list of bits
denotes (least significant first) and the number a list of bytes
denotes (most significant first), each with the inverse encoder at a
fixed width. Range checks, tree positions and byte layouts are all
stated over these four functions.
-/
import Mathlib.Data.Nat.Basic
import Mathlib.Tactic.Ring
import Mathlib.Tactic.Common

namespace Lumix.Digits

-- ============================================ bits, least significant first

/-- The number a bit string denotes, least significant bit first. -/
def bitsVal : List Bool → ℕ
  | [] => 0
  | b :: bs => b.toNat + 2 * bitsVal bs

/-- The `n` low bits of `x`, least significant first. -/
def bitsOf : ℕ → ℕ → List Bool
  | 0, _ => []
  | n + 1, x => decide (x % 2 = 1) :: bitsOf n (x / 2)

@[simp]
theorem bitsVal_nil : bitsVal [] = 0 := rfl

@[simp]
theorem bitsVal_cons (b : Bool) (bs : List Bool) :
    bitsVal (b :: bs) = b.toNat + 2 * bitsVal bs := rfl

/-- As many bits as are asked for. -/
@[simp]
theorem length_bitsOf (n x : ℕ) : (bitsOf n x).length = n := by
  induction n generalizing x with
  | zero => rfl
  | succ n ih => simp [bitsOf, ih]

/-- So many bits are below a power of two. -/
theorem bitsVal_lt (bs : List Bool) : bitsVal bs < 2 ^ bs.length := by
  induction bs with
  | nil => simp
  | cons b bs ih =>
      have hb : b.toNat ≤ 1 := Bool.toNat_le b
      simp only [bitsVal_cons, List.length_cons, Nat.pow_succ]
      omega

/-- A number is read back from its bits. -/
theorem bitsVal_bitsOf {n x : ℕ} (hx : x < 2 ^ n) :
    bitsVal (bitsOf n x) = x := by
  induction n generalizing x with
  | zero =>
      have hx0 : x = 0 := by simpa using hx
      rw [hx0]
      rfl
  | succ n ih =>
      have hhalf : x / 2 < 2 ^ n := by
        rw [Nat.pow_succ] at hx
        omega
      simp only [bitsOf, bitsVal_cons, ih hhalf]
      by_cases hodd : x % 2 = 1
      · simp only [hodd, decide_true, Bool.toNat_true]
        omega
      · simp only [hodd, decide_false, Bool.toNat_false]
        omega

/-- A bit string is spelled back from the number it denotes. -/
theorem bitsOf_bitsVal (bs : List Bool) :
    bitsOf bs.length (bitsVal bs) = bs := by
  induction bs with
  | nil => rfl
  | cons b bs ih =>
      have hb : b.toNat ≤ 1 := Bool.toNat_le b
      have hhalf : (b.toNat + 2 * bitsVal bs) / 2 = bitsVal bs := by omega
      have hodd : decide ((b.toNat + 2 * bitsVal bs) % 2 = 1) = b := by
        cases b with
        | false => simp
        | true => simp
      simp only [List.length_cons, bitsVal_cons, bitsOf]
      rw [hhalf, hodd, ih]

/-- A clear top bit bounds the number by the bits below it. -/
theorem bitsVal_lt_of_top {n : ℕ} {bs : List Bool}
    (hlen : bs.length = n + 1) (htop : bs[n]? = some false) :
    bitsVal bs < 2 ^ n := by
  induction n generalizing bs with
  | zero =>
      obtain ⟨b, rfl⟩ := List.length_eq_one_iff.mp hlen
      simp only [List.getElem?_cons_zero, Option.some.injEq] at htop
      rw [htop]
      decide
  | succ n ih =>
      cases bs with
      | nil => cases hlen
      | cons b bs =>
          have hrec := ih (by simpa using hlen) (by simpa using htop)
          have hb : b.toNat ≤ 1 := Bool.toNat_le b
          rw [bitsVal_cons, Nat.pow_succ]
          omega

/-- The bit above a number's width is clear. -/
theorem bitsOf_top {n x : ℕ} (hx : x < 2 ^ n) :
    (bitsOf (n + 1) x)[n]? = some false := by
  induction n generalizing x with
  | zero =>
      have hx0 : x = 0 := by simpa using hx
      rw [hx0]
      rfl
  | succ n ih =>
      have hhalf : x / 2 < 2 ^ n := by
        rw [Nat.pow_succ] at hx
        omega
      exact ih hhalf

-- ============================================= bytes, most significant first

/-- The number a byte string denotes, most significant byte first. -/
def beVal : List UInt8 → ℕ
  | [] => 0
  | b :: bs => b.toNat * 256 ^ bs.length + beVal bs

/-- The `n` low bytes of `x`, most significant first. -/
def beBytes : ℕ → ℕ → List UInt8
  | 0, _ => []
  | n + 1, x => UInt8.ofNat (x / 256 ^ n % 256) :: beBytes n (x % 256 ^ n)

/-- As many bytes as are asked for. -/
@[simp]
theorem length_beBytes (n x : ℕ) : (beBytes n x).length = n := by
  induction n generalizing x with
  | zero => rfl
  | succ n ih => simp [beBytes, ih]

/-- A number is read back from its bytes. -/
theorem beVal_beBytes {n x : ℕ} (hx : x < 256 ^ n) :
    beVal (beBytes n x) = x := by
  induction n generalizing x with
  | zero =>
      have hx0 : x = 0 := by simpa using hx
      rw [hx0]
      rfl
  | succ n ih =>
      have hpos : 0 < 256 ^ n := Nat.pow_pos (by omega)
      have hq : x / 256 ^ n < 256 := by
        rw [Nat.div_lt_iff_lt_mul hpos, Nat.mul_comm, ← Nat.pow_succ]
        exact hx
      simp only [beBytes, beVal, length_beBytes, ih (Nat.mod_lt x hpos),
        UInt8.toNat_ofNat', Nat.mod_eq_of_lt hq]
      rw [Nat.mul_comm]
      exact Nat.div_add_mod x (256 ^ n)

/-- The bytes of a number, least significant last. -/
theorem beBytes_succ (k n : ℕ) :
    beBytes (k + 1) n = beBytes k (n / 256) ++ [UInt8.ofNat (n % 256)] := by
  induction k generalizing n with
  | zero => simp [beBytes]
  | succ k ih =>
      rw [beBytes, ih, beBytes, List.cons_append, Nat.div_div_eq_div_mul,
        ← Nat.pow_succ', Nat.pow_succ', Nat.mod_mul_right_div_self,
        Nat.mod_mul_right_mod]

/-- So many bytes are below a power of 256. -/
theorem beVal_lt (bs : List UInt8) : beVal bs < 256 ^ bs.length := by
  induction bs with
  | nil => exact Nat.one_pos
  | cons b bs ih =>
      have hb := b.toNat_lt
      have hmul : b.toNat * 256 ^ bs.length ≤ 255 * 256 ^ bs.length :=
        Nat.mul_le_mul_right _ (by omega)
      rw [beVal, List.length_cons, Nat.pow_succ]
      omega

/-- Bytes are those of the number they spell. -/
theorem beBytes_beVal (bs : List UInt8) :
    beBytes bs.length (beVal bs) = bs := by
  induction bs with
  | nil => rfl
  | cons b bs ih =>
      have hlt := beVal_lt bs
      have hb := b.toNat_lt
      have hpos : 0 < 256 ^ bs.length := Nat.pow_pos (by omega)
      have hdiv : (b.toNat * 256 ^ bs.length + beVal bs)
          / 256 ^ bs.length = b.toNat := by
        rw [Nat.mul_comm, Nat.mul_add_div hpos, Nat.div_eq_of_lt hlt,
          Nat.add_zero]
      have hmod : (b.toNat * 256 ^ bs.length + beVal bs)
          % 256 ^ bs.length = beVal bs := by
        rw [Nat.mul_comm, Nat.mul_add_mod, Nat.mod_eq_of_lt hlt]
      rw [List.length_cons, beVal, beBytes, hdiv, hmod, ih,
        Nat.mod_eq_of_lt hb]
      simp

/-- Numbers below the width are told apart by their bytes. -/
theorem beBytes_inj {n x y : ℕ} (hx : x < 256 ^ n) (hy : y < 256 ^ n)
    (h : beBytes n x = beBytes n y) : x = y := by
  rw [← beVal_beBytes hx, ← beVal_beBytes hy, h]

end Lumix.Digits
