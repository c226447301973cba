/-
UTF-8, as `Buffer.toString` and `TextDecoder` decode it.

The decoder takes one byte at a time and never fails: what is no
character becomes a replacement character, up to the first byte that
could not go on, and that byte is looked at again as a first one. The
bytes of a string are decoded to it (`decode_utf8`).
-/
import Lumix.Lib.Text

namespace Lumix.Utf8

open Text

/-- U+FFFD -/
def replacement : Char := Char.ofNat 0xfffd

/-- A character that has begun: its bits so far, how many bytes come
after the next, and the range the next one is in. -/
structure Begun where
  bits : ℕ
  left : ℕ
  low : ℕ
  high : ℕ

/-- A first byte. The ranges leave out what is written with fewer bytes,
the surrogates, and what is above U+10FFFF. -/
def first (b : ℕ) : List Char × Option Begun :=
  if b < 0x80 then ([Char.ofNat b], none)
  else if 0xc2 ≤ b ∧ b ≤ 0xdf then
    ([], some ⟨b - 0xc0, 0, 0x80, 0xbf⟩)
  else if 0xe0 ≤ b ∧ b ≤ 0xef then
    ([], some ⟨b - 0xe0, 1, if b = 0xe0 then 0xa0 else 0x80,
      if b = 0xed then 0x9f else 0xbf⟩)
  else if 0xf0 ≤ b ∧ b ≤ 0xf4 then
    ([], some ⟨b - 0xf0, 2, if b = 0xf0 then 0x90 else 0x80,
      if b = 0xf4 then 0x8f else 0xbf⟩)
  else ([replacement], none)

/-- One byte more: what is complete, and what has begun. -/
def next : Option Begun → ℕ → List Char × Option Begun
  | none, b => first b
  | some p, b =>
      if p.low ≤ b ∧ b ≤ p.high then
        match p.left with
        | 0 => ([Char.ofNat (64 * p.bits + (b - 0x80))], none)
        | left + 1 =>
            ([], some ⟨64 * p.bits + (b - 0x80), left, 0x80, 0xbf⟩)
      else (replacement :: (first b).1, (first b).2)

/-- The characters of bytes after a beginning; what is malformed is
replaced. -/
def decodeFrom : Option Begun → List UInt8 → List Char
  | none, [] => []
  | some _, [] => [replacement]
  | p, b :: bs =>
      (next p b.toNat).1 ++ decodeFrom (next p b.toNat).2 bs

/-- `Buffer.from(bytes).toString()` -/
def decode (bytes : List UInt8) : String :=
  String.ofList (decodeFrom none bytes)

-- =========================================================== read back

/-- One byte. -/
theorem decodeFrom_cons {p q : Option Begun} {b : ℕ} {l : List Char}
    (bs : List UInt8) (hb : b < 256) (h : next p b = (l, q)) :
    decodeFrom p (UInt8.ofNat b :: bs) = l ++ decodeFrom q bs := by
  rw [decodeFrom, UInt8.toNat_ofNat', Nat.mod_eq_of_lt hb, h]

/-- A byte that goes on, with more to come. -/
theorem decodeFrom_more {bits left low high b : ℕ} (bs : List UInt8)
    (hb : b < 256) (hlow : low ≤ b) (hhigh : b ≤ high) :
    decodeFrom (some ⟨bits, left + 1, low, high⟩) (UInt8.ofNat b :: bs)
      = decodeFrom (some ⟨64 * bits + (b - 0x80), left, 0x80, 0xbf⟩)
          bs := by
  refine (decodeFrom_cons bs hb ?_).trans (List.nil_append _)
  rw [next, if_pos ⟨hlow, hhigh⟩]

/-- The last byte of a character. -/
theorem decodeFrom_last {bits low high b n : ℕ} (bs : List UInt8)
    (hb : b < 256) (hlow : low ≤ b) (hhigh : b ≤ high)
    (hn : 64 * bits + (b - 0x80) = n) :
    decodeFrom (some ⟨bits, 0, low, high⟩) (UInt8.ofNat b :: bs)
      = Char.ofNat n :: decodeFrom none bs := by
  refine (decodeFrom_cons bs hb ?_).trans (List.singleton_append ..)
  rw [next, if_pos ⟨hlow, hhigh⟩, hn]

/-- A character is decoded from its bytes, -/
theorem decodeFrom_char (c : Char) (bs : List UInt8) :
    decodeFrom none (String.utf8EncodeChar c ++ bs)
      = c :: decodeFrom none bs := by
  have hc := toNat_range c
  have hchar : Char.ofNat c.toNat = c := Char.ofNat_toNat c
  have hval : c.val.toNat = c.toNat := rfl
  unfold String.utf8EncodeChar
  simp only [hval]
  by_cases h1 : c.toNat ≤ 0x7f
  · rw [if_pos h1, List.singleton_append]
    refine (decodeFrom_cons bs (by omega)
      (q := none) (l := [Char.ofNat c.toNat]) ?_).trans ?_
    · rw [next, first, if_pos (by omega)]
    · rw [hchar, List.singleton_append]
  rw [if_neg h1]
  by_cases h2 : c.toNat ≤ 0x7ff
  · rw [if_pos h2, List.cons_append, List.singleton_append]
    refine (decodeFrom_cons _ (by omega) (q := some
      ⟨c.toNat / 64 % 0x20 + 0xc0 - 0xc0, 0, 0x80, 0xbf⟩) (l := [])
      ?_).trans ?_
    · rw [next, first, if_neg (by omega), if_pos (by omega)]
    · rw [List.nil_append, decodeFrom_last bs (by omega) (by omega)
        (by omega) (show _ = c.toNat by omega), hchar]
  rw [if_neg h2]
  by_cases h3 : c.toNat ≤ 0xffff
  · rw [if_pos h3, List.cons_append, List.cons_append,
      List.singleton_append]
    refine (decodeFrom_cons _ (by omega) (q := some
      ⟨c.toNat / 4096 % 0x10 + 0xe0 - 0xe0, 1,
        if c.toNat / 4096 % 0x10 + 0xe0 = 0xe0 then 0xa0 else 0x80,
        if c.toNat / 4096 % 0x10 + 0xe0 = 0xed then 0x9f else 0xbf⟩)
      (l := []) ?_).trans ?_
    · rw [next, first, if_neg (by omega), if_neg (by omega),
        if_pos (by omega)]
    · rw [List.nil_append, decodeFrom_more _ (by omega)
        (by split <;> omega) (by split <;> omega),
        decodeFrom_last bs (by omega) (by omega) (by omega)
        (show _ = c.toNat by omega), hchar]
  rw [if_neg h3, List.cons_append, List.cons_append, List.cons_append,
    List.singleton_append]
  refine (decodeFrom_cons _ (by omega) (q := some
    ⟨c.toNat / 262144 % 0x08 + 0xf0 - 0xf0, 2,
      if c.toNat / 262144 % 0x08 + 0xf0 = 0xf0 then 0x90 else 0x80,
      if c.toNat / 262144 % 0x08 + 0xf0 = 0xf4 then 0x8f else 0xbf⟩)
    (l := []) ?_).trans ?_
  · rw [next, first, if_neg (by omega), if_neg (by omega),
      if_neg (by omega), if_pos (by omega)]
  · rw [List.nil_append, decodeFrom_more _ (by omega)
      (by split <;> omega) (by split <;> omega),
      decodeFrom_more _ (by omega) (by omega) (by omega),
      decodeFrom_last bs (by omega) (by omega) (by omega)
      (show _ = c.toNat by omega), hchar]

/-- and so are several. -/
theorem decodeFrom_flatMap (cs : List Char) :
    decodeFrom none (cs.flatMap String.utf8EncodeChar) = cs := by
  induction cs with
  | nil => rfl
  | cons c cs ih => rw [List.flatMap_cons, decodeFrom_char, ih]

/-- The bytes of a string are decoded to it. -/
@[simp]
theorem decode_utf8 (s : String) : decode (utf8 s) = s := by
  rw [decode, utf8, decodeFrom_flatMap, String.ofList_toList]

example : decode [0x61, 0xe2, 0x82, 0x62, 0xff]
    = String.ofList ['a', replacement, 'b', replacement] := by decide

end Lumix.Utf8
