/-
The two number systems the protocol moves between: 32-byte words, which
the contracts store and compare, and elements of the BLS12-381 scalar
field, over which the circuits and the verifier compute.

A `BytesN<32>` is modelled by the 256-bit number its big-endian bytes
spell, so equality of words is equality of byte strings. Reading a word
as a field element reduces it modulo the group order (`Word.toFr`);
writing a field element back gives its canonical word (`Word.ofFr`).
The reduction is not injective: `2 ^ 256 > 2 * r`, so every field
element has at least two words (`exists_alias`).

`fr32ToI128` is the pool's narrowing of a word to a signed 128-bit
integer. It keeps the low 16 bytes only.
-/
import Mathlib.Data.ZMod.Basic
import Lumix.Lib.Digits

namespace Lumix

open Digits

-- ============================================================= types

/-- The order of the BLS12-381 scalar field. -/
def r : ℕ :=
  0x73eda753299d7d483339d80809a1d80553bda402fffe5bfeffffffff00000001

instance : NeZero r := ⟨by decide⟩

/-- The scalar field: circuit signals, tree nodes, public inputs. -/
abbrev Fr := ZMod r

/-- Numerals from two on are casts: nothing is proved about them. -/
instance (n : ℕ) : OfNat Fr (n + 2) := ⟨((n + 2 : ℕ) : Fr)⟩

/-- `BytesN<32>`, as the number its big-endian bytes spell. -/
abbrev Word := BitVec 256

/-- `BytesN<64>`, an ed25519 signature. -/
abbrev Signature := BitVec 512

/-- Soroban `Bytes`. -/
abbrev Bytes := List UInt8

-- ====================================================== words and scalars

/-- `Fr::from_u256` / `Fr::from_bytes`: the word modulo the order. -/
def Word.toFr (w : Word) : Fr := (w.toNat : Fr)

/-- `Fr::to_bytes`: the canonical word of a field element. -/
def Word.ofFr (x : Fr) : Word := BitVec.ofNat 256 x.val

/-- The word spelled by 32 big-endian bytes. -/
def Word.ofBytes (bs : Bytes) : Word := BitVec.ofNat 256 (beVal bs)

/-- The 32 big-endian bytes of a word (`to_array`). -/
def Word.toBytes (w : Word) : Bytes := beBytes 32 w.toNat

/-- A word below the order: the one representative `ofFr` produces. -/
def Word.Canonical (w : Word) : Prop := w.toNat < r

instance (w : Word) : Decidable w.Canonical :=
  inferInstanceAs (Decidable (w.toNat < r))

/-- The high 16 bytes of a word, the ones a narrowing drops. -/
def Word.high (w : Word) : ℕ := w.toNat / 2 ^ 128

/-- `fr32_to_i128`: the low 16 bytes as a signed 128-bit integer
(`u128::from_be_bytes(lo) as i128`). -/
def fr32ToI128 (w : Word) : ℤ := (w.setWidth 128).toInt

/-- `hash_to_field`: the top 31 bytes of a hash behind a zero byte. -/
def hashToField (h : Word) : Word := h >>> 8

-- ==================================================== size of the order

theorem two_pow_254_lt_r : 2 ^ 254 < r := by decide

theorem r_lt_two_pow_255 : r < 2 ^ 255 := by decide

-- =================================================== field arithmetic

/-- A sum of two field elements is their integer sum, or that sum less
the order. -/
theorem Fr.val_add_cases (x y : Fr) :
    (x + y).val = x.val + y.val ∨ (x + y).val + r = x.val + y.val := by
  have hx := ZMod.val_lt x
  have hy := ZMod.val_lt y
  rw [ZMod.val_add]
  rcases Nat.lt_or_ge (x.val + y.val) r with hlt | hge
  · exact Or.inl (Nat.mod_eq_of_lt hlt)
  · right
    rw [Nat.mod_eq_sub_mod hge, Nat.mod_eq_of_lt (by omega)]
    omega

/-- A difference of two field elements is their integer difference, or
that difference plus the order. -/
theorem Fr.val_sub_cases (x y : Fr) :
    (x - y).val + y.val = x.val ∨ (x - y).val + y.val = x.val + r := by
  have hsum := Fr.val_add_cases (x - y) y
  rw [sub_add_cancel] at hsum
  omega

-- ================================================== reading and writing

/-- An element is below the modulus, -/
theorem Fr.val_lt (x : Fr) : x.val < r := ZMod.val_lt x

/-- so it fits a word. -/
theorem Fr.val_lt_two_pow (x : Fr) : x.val < 2 ^ 256 := by
  have hx := Fr.val_lt x
  have hr := r_lt_two_pow_255
  omega

/-- A word as an element is reduced, -/
@[simp]
theorem Word.val_toFr (w : Word) : (Word.toFr w).val = w.toNat % r :=
  ZMod.val_natCast r w.toNat

/-- an element as a word is not, -/
@[simp]
theorem Word.toNat_ofFr (x : Fr) : (Word.ofFr x).toNat = x.val := by
  unfold Word.ofFr
  rw [BitVec.toNat_ofNat, Nat.mod_eq_of_lt (Fr.val_lt_two_pow x)]

/-- so it comes back. -/
@[simp]
theorem Word.toFr_ofFr (x : Fr) : Word.toFr (Word.ofFr x) = x := by
  unfold Word.toFr
  rw [Word.toNat_ofFr]
  exact ZMod.natCast_zmod_val x

/-- A canonical word is not reduced. -/
theorem Word.val_toFr_of_canonical {w : Word} (hw : w.Canonical) :
    (Word.toFr w).val = w.toNat := by
  rw [Word.val_toFr]
  exact Nat.mod_eq_of_lt hw

/-- A canonical word is determined by the field element it denotes. -/
theorem Word.eq_ofFr_of_canonical {w : Word} {x : Fr} (hw : w.Canonical)
    (hx : Word.toFr w = x) : w = Word.ofFr x := by
  apply BitVec.eq_of_toNat_eq
  rw [Word.toNat_ofFr, ← hx, Word.val_toFr_of_canonical hw]

/-- Two words are one element if they are congruent. -/
theorem Word.toFr_eq_iff {v w : Word} :
    Word.toFr v = Word.toFr w ↔ v.toNat % r = w.toNat % r := by
  unfold Word.toFr
  exact ZMod.natCast_eq_natCast_iff' v.toNat w.toNat r

/-- Every word shares its field element with another word: add the
order, or take it away. -/
theorem Word.exists_alias (w : Word) :
    ∃ v : Word, v ≠ w ∧ Word.toFr v = Word.toFr w := by
  have hr := r_lt_two_pow_255
  have hpos : 0 < r := by decide
  by_cases hw : w.toNat < r
  · have hv : (BitVec.ofNat 256 (w.toNat + r)).toNat = w.toNat + r := by
      rw [BitVec.toNat_ofNat]
      exact Nat.mod_eq_of_lt (by omega)
    refine ⟨BitVec.ofNat 256 (w.toNat + r), ?_, ?_⟩
    · intro heq
      rw [heq] at hv
      omega
    · rw [Word.toFr_eq_iff, hv, Nat.add_mod_right]
  · have hlt := w.isLt
    have hv : (BitVec.ofNat 256 (w.toNat - r)).toNat = w.toNat - r := by
      rw [BitVec.toNat_ofNat]
      exact Nat.mod_eq_of_lt (by omega)
    refine ⟨BitVec.ofNat 256 (w.toNat - r), ?_, ?_⟩
    · intro heq
      rw [heq] at hv
      omega
    · rw [Word.toFr_eq_iff, hv, ← Nat.add_mod_right (w.toNat - r) r,
        Nat.sub_add_cancel (by omega)]

/-- 32 bytes. -/
@[simp]
theorem Word.length_toBytes (w : Word) : w.toBytes.length = 32 :=
  length_beBytes 32 w.toNat

/-- A word is read back, -/
@[simp]
theorem Word.ofBytes_toBytes (w : Word) :
    Word.ofBytes w.toBytes = w := by
  unfold Word.ofBytes Word.toBytes
  rw [beVal_beBytes (by simpa using w.isLt)]
  simp

/-- so its bytes are its own. -/
theorem Word.toBytes_inj {v w : Word} (h : v.toBytes = w.toBytes) : v = w := by
  rw [← Word.ofBytes_toBytes v, h, Word.ofBytes_toBytes]

-- ========================================================= narrowing

/-- The narrowing, in numbers: the low half, reading its top bit as a
sign. -/
theorem fr32ToI128_eq (w : Word) :
    fr32ToI128 w
      = if w.toNat % 2 ^ 128 < 2 ^ 127 then ((w.toNat % 2 ^ 128 : ℕ) : ℤ)
        else ((w.toNat % 2 ^ 128 : ℕ) : ℤ) - 2 ^ 128 := by
  unfold fr32ToI128
  rw [BitVec.toInt_eq_toNat_cond, BitVec.toNat_setWidth]
  by_cases h : w.toNat % 2 ^ 128 < 2 ^ 127
  · rw [if_pos h, if_pos (by omega)]
  · rw [if_neg h, if_neg (by omega)]
    norm_num

/-- A non-negative narrowing is the low half. -/
theorem low_of_fr32ToI128_nonneg {w : Word} (h : 0 ≤ fr32ToI128 w) :
    fr32ToI128 w = ((w.toNat % 2 ^ 128 : ℕ) : ℤ) := by
  rw [fr32ToI128_eq] at h ⊢
  split at h
  case isTrue hlt => rw [if_pos hlt]
  case isFalse hge =>
    have := Nat.mod_lt w.toNat (show 0 < 2 ^ 128 by decide)
    omega

/-- A word with an empty high half narrows to itself when the result is
not negative. -/
theorem fr32ToI128_of_high_zero {w : Word} (hh : w.high = 0)
    (h : 0 ≤ fr32ToI128 w) : fr32ToI128 w = (w.toNat : ℤ) := by
  rw [low_of_fr32ToI128_nonneg h]
  unfold Word.high at hh
  omega

/-- A word whose high half is zero is canonical. -/
theorem Word.canonical_of_high_zero {w : Word} (hh : w.high = 0) :
    w.Canonical := by
  unfold Word.Canonical
  unfold Word.high at hh
  have := two_pow_254_lt_r
  omega

end Lumix
