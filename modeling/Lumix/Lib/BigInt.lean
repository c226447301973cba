/-
`BigInt` of a value that was parsed.

A string is read as a numeral, an array as the numeral its text is, and
a number if it is an integer; `null` and objects throw, the latter
because no text of an object is a numeral. Which double a numeral of the
text rounds to is left to `Numbers`.
-/
import Lumix.Lib.JsonParse

namespace Lumix.Js

open Text Lumix.Tree Number

-- ========================================================= characters

/-- The characters of a string, unless half of a pair is alone in it. -/
def chars (s : JsString) : Option (List Char) :=
  (points s).mapM fun
    | .char c => some c
    | .lone _ _ => none

/-- A code unit is read back. -/
theorem toNat_unit {n : ℕ} (h : n < 0x10000) :
    (UInt16.ofNat n).toNat = n := by
  rw [UInt16.toNat_ofNat']
  exact Nat.mod_eq_of_lt h

/-- A unit that is no high surrogate is a point by itself. -/
theorem points_unit {u : UInt16} (hu : ¬IsHigh u) (us : JsString) :
    points (u :: us) = pointOf u :: points us := by
  cases us with
  | nil => rfl
  | cons v us => rw [points, if_neg (fun h => hu h.1)]

/-- The units of a character are read as it. -/
theorem points_char (c : Char) (us : JsString) :
    points ((codeUnits c).map UInt16.ofNat ++ us)
      = .char c :: points us := by
  have hc := toNat_range c
  unfold codeUnits
  by_cases hsmall : c.toNat < 0x10000
  · rw [if_pos hsmall, List.map_singleton, List.singleton_append]
    have hu := toNat_unit hsmall
    have hhigh : ¬IsHigh (UInt16.ofNat c.toNat) := by
      unfold IsHigh
      omega
    have hlow : ¬IsLow (UInt16.ofNat c.toNat) := by
      unfold IsLow
      omega
    rw [points_unit hhigh, pointOf, dif_neg (not_or.mpr ⟨hhigh, hlow⟩), hu,
      Char.ofNat_toNat]
  · rw [if_neg hsmall]
    have hu := toNat_unit (n := 0xd800 + (c.toNat - 0x10000) / 0x400)
      (by omega)
    have hv := toNat_unit (n := 0xdc00 + (c.toNat - 0x10000) % 0x400)
      (by omega)
    have hhigh : IsHigh
        (UInt16.ofNat (0xd800 + (c.toNat - 0x10000) / 0x400)) := by
      unfold IsHigh
      omega
    have hlow : IsLow
        (UInt16.ofNat (0xdc00 + (c.toNat - 0x10000) % 0x400)) := by
      unfold IsLow
      omega
    have hpair : 0x10000
        + (0xd800 + (c.toNat - 0x10000) / 0x400 - 0xd800) * 0x400
        + (0xdc00 + (c.toNat - 0x10000) % 0x400 - 0xdc00)
        = c.toNat := by omega
    rw [List.map_cons, List.map_singleton, List.cons_append,
      List.singleton_append, points, if_pos ⟨hhigh, hlow⟩, pairOf, hu, hv,
      hpair, Char.ofNat_toNat]

/-- The points of a text are its characters. -/
theorem points_ofString (s : String) :
    points (ofString s) = s.toList.map Point.char := by
  unfold ofString utf16
  induction s.toList with
  | nil => rfl
  | cons c cs ih =>
      rw [List.flatMap_cons, List.map_append, points_char, ih,
        List.map_cons]

/-- All of them are characters. -/
theorem chars_ofString (s : String) :
    chars (ofString s) = some s.toList := by
  rw [chars, points_ofString]
  induction s.toList with
  | nil => rfl
  | cons c cs ih =>
      rw [List.map_cons, List.mapM_cons, ih]
      rfl

-- ============================================================= BigInt

/-- What is said of the double that a numeral, with its sign, rounds
to. -/
structure Numbers where
  /-- `BigInt(n)`, none where the double is no integer -/
  bigInt : Bool → Layout → Option ℤ
  /-- `String(n)` -/
  text : Bool → Layout → JsString

/-- `BigInt(s)` of a string -/
def textBigInt (s : JsString) : Option ℤ :=
  (chars s).bind fun cs => bigInt (String.ofList cs)

/-- `BigInt` of a text, whichever way it is written. -/
theorem textBigInt_ofString (s : String) :
    textBigInt (ofString s) = bigInt s := by
  rw [textBigInt, chars_ofString, Option.bind_some, String.ofList_toList]

variable (numbers : Numbers)

mutual

/-- What an item adds to its array's text. None for an object: with it
the text is no numeral, or there is none. -/
def itemText : Parsed → Option JsString
  | .leaf .null => some []
  | .leaf (.bool b) => some (ofString (toString b))
  | .leaf (.num negative numeral) => some (numbers.text negative numeral)
  | .leaf (.str s) => some s
  | .arr items => joinItems items
  | .obj _ => none

/-- `items.join(",")` -/
def joinItems : List Parsed → Option JsString
  | [] => some []
  | [v] => itemText v
  | v :: w :: items => do
      let first ← itemText v
      let rest ← joinItems (w :: items)
      some (first ++ ofString "," ++ rest)

end

/-- `BigInt(v)`; none where it throws. -/
def Parsed.bigInt : Parsed → Option ℤ
  | .leaf .null => none
  | .leaf (.bool b) => some (if b then 1 else 0)
  | .leaf (.num negative numeral) => numbers.bigInt negative numeral
  | .leaf (.str s) => textBigInt s
  | .arr items => (joinItems numbers items).bind textBigInt
  | .obj _ => none

/-- The property `k` of a value, for a name that is inherited by none;
none for `undefined`. -/
def Parsed.property (k : JsString) : Parsed → Option Parsed
  | .obj fields => (fields.find? fun f => f.1 = k).map Prod.snd
  | _ => none

/-- `!v` -/
def Parsed.falsy : Parsed → Bool
  | .leaf .null => true
  | .leaf (.bool b) => !b
  | .leaf (.num negative numeral) =>
      numbers.bigInt negative numeral = some 0
  | .leaf (.str s) => s = []
  | _ => false

end Lumix.Js
