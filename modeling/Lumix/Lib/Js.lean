/-
JavaScript's JSON values and their texts.

A string is a list of code units, and `JSON.stringify` writes the code
points they spell: a unit of half a surrogate pair alone is written by
its number (`quote`), so the text has characters only, and is read back
(`quote_inj`). An object lists the keys that are array indices first, in
ascending order, and the others as they were added; `JsonValue` is a
value whose objects do.
-/
import Lumix.Lib.Decimal
import Lumix.Lib.Json
import Lumix.Lib.TreeText

namespace Lumix.Js

open Text Lumix.Tree

-- ============================================================ strings

/-- A string, by its code units. -/
abbrev JsString := List UInt16

/-- A text as JavaScript has it, in code units. -/
def ofString (s : String) : JsString := (utf16 s).map UInt16.ofNat

/-- The first of a surrogate pair, -/
def IsHigh (u : UInt16) : Prop := 0xd800 ≤ u.toNat ∧ u.toNat < 0xdc00

/-- and the second. -/
def IsLow (u : UInt16) : Prop := 0xdc00 ≤ u.toNat ∧ u.toNat < 0xe000

instance (u : UInt16) : Decidable (IsHigh u) :=
  inferInstanceAs (Decidable (_ ∧ _))

instance (u : UInt16) : Decidable (IsLow u) :=
  inferInstanceAs (Decidable (_ ∧ _))

/-- A code point. -/
inductive Point
  | char (c : Char)
  | lone (u : UInt16) (h : IsHigh u ∨ IsLow u)

/-- A unit by itself: a character, or half a pair. -/
def pointOf (u : UInt16) : Point :=
  if h : IsHigh u ∨ IsLow u then .lone u h else .char (Char.ofNat u.toNat)

/-- The character of a surrogate pair. -/
def pairOf (u v : UInt16) : Char :=
  Char.ofNat (0x10000 + (u.toNat - 0xd800) * 0x400 + (v.toNat - 0xdc00))

/-- The points of a text: surrogate pairs are characters. -/
def points : JsString → List Point
  | [] => []
  | [u] => [pointOf u]
  | u :: v :: us =>
      if IsHigh u ∧ IsLow v then .char (pairOf u v) :: points us
      else pointOf u :: points (v :: us)

/-- The code units of a code point. -/
def Point.units : Point → JsString
  | .char c => (codeUnits c).map UInt16.ofNat
  | .lone u _ => [u]

/-- A character's number is read back. -/
theorem toNat_ofNat {n : ℕ} (h : n.isValidChar) :
    (Char.ofNat n).toNat = n := by
  rw [Char.ofNat, dif_pos h]
  rfl

/-- A unit by itself is one unit, -/
theorem units_pointOf (u : UInt16) : (pointOf u).units = [u] := by
  have hlt := u.toNat_lt
  unfold pointOf
  by_cases h : IsHigh u ∨ IsLow u
  · rw [dif_pos h, Point.units]
  · rw [dif_neg h, Point.units]
    unfold IsHigh IsLow at h
    have hvalid : u.toNat.isValidChar := by
      unfold Nat.isValidChar
      omega
    rw [codeUnits, toNat_ofNat hvalid, if_pos (by omega), List.map_singleton,
      UInt16.ofNat_toNat]

/-- and a pair two. -/
theorem units_pairOf {u v : UInt16} (hu : IsHigh u) (hv : IsLow v) :
    (Point.char (pairOf u v)).units = [u, v] := by
  unfold IsHigh at hu
  unfold IsLow at hv
  have hvalid : (0x10000 + (u.toNat - 0xd800) * 0x400
      + (v.toNat - 0xdc00)).isValidChar := by
    unfold Nat.isValidChar
    omega
  have hchar : (pairOf u v).toNat = 0x10000 + (u.toNat - 0xd800) * 0x400
      + (v.toNat - 0xdc00) := toNat_ofNat hvalid
  have hhigh : 0xd800 + ((pairOf u v).toNat - 0x10000) / 0x400
      = u.toNat := by omega
  have hlow : 0xdc00 + ((pairOf u v).toNat - 0x10000) % 0x400
      = v.toNat := by omega
  rw [Point.units, codeUnits, if_neg (by omega), hhigh, hlow]
  simp

/-- The code points spell the string. -/
theorem flatMap_units_points (s : JsString) :
    (points s).flatMap Point.units = s := by
  fun_induction points s with
  | case1 => rfl
  | case2 u => rw [List.flatMap_singleton, units_pointOf]
  | case3 u v us h ih =>
      rw [List.flatMap_cons, units_pairOf h.1 h.2, ih]
      rfl
  | case4 u v us h ih =>
      rw [List.flatMap_cons, units_pointOf, ih]
      rfl

/-- A text has points of its own. -/
theorem points_inj {s t : JsString} (h : points s = points t) : s = t := by
  rw [← flatMap_units_points s, ← flatMap_units_points t, h]

-- ============================================================= quotes

/-- The last twelve bits of a number, in hexadecimal. -/
def hex3 (n : ℕ) : List Char :=
  [Nat.digitChar (n / 256 % 16), Nat.digitChar (n / 16 % 16),
    Nat.digitChar (n % 16)]

/-- A surrogate is four digits, of which the first is `d`. -/
def Point.text : Point → List Char
  | .char c => Json.escape c
  | .lone u _ => Json.backslash :: 'u' :: 'd' :: hex3 u.toNat

/-- `JSON.stringify` of a text; half a pair is escaped. -/
def quote (s : JsString) : List Char :=
  Json.quoteMark :: ((points s).flatMap Point.text ++ [Json.quoteMark])

/-- Three digits of a surrogate are read back. -/
theorem hex3_inj {n m : ℕ} {r r' : List Char}
    (hn : 0xd000 ≤ n ∧ n < 0xe000) (hm : 0xd000 ≤ m ∧ m < 0xe000)
    (h : hex3 n ++ r = hex3 m ++ r') : n = m ∧ r = r' := by
  have hdigit : ∀ {a b : ℕ}, Nat.digitChar (a % 16) = Nat.digitChar (b % 16)
      → a % 16 = b % 16 := by
    intro a b hab
    have hread := congrArg digitValue hab
    rwa [digitValue_digitChar (Nat.mod_lt a (by decide)),
      digitValue_digitChar (Nat.mod_lt b (by decide)),
      Option.some.injEq] at hread
  simp only [hex3, List.cons_append, List.nil_append,
    List.cons.injEq] at h
  obtain ⟨hhigh, hmid, hlow, hrr⟩ := h
  have h2 := hdigit hhigh
  have h1 := hdigit hmid
  have h0 := hdigit hlow
  exact ⟨by omega, hrr⟩

/-- A character is not written as a lone surrogate is. -/
theorem escape_ne_lone (c : Char) (r r' : List Char) :
    Json.escape c ++ r ≠ Json.backslash :: 'u' :: 'd' :: r' := by
  intro h
  have hread := Json.unescape_escape c r
  rw [h] at hread
  have hc : c = 'u' := by
    have hletter : Json.unescape (Json.backslash :: 'u' :: 'd' :: r')
        = some ('u', 'd' :: r') := by
      simp [Json.unescape, Json.backslash, Json.quoteMark,
        Json.unescapeLetter]
    rw [hletter, Option.some.injEq, Prod.mk.injEq] at hread
    exact hread.1.symm
  subst hc
  exact absurd (List.head_eq_of_cons_eq h) (by decide)

/-- A point is read from the front of a text, -/
theorem pointText_inj {p q : Point} {r r' : List Char}
    (h : p.text ++ r = q.text ++ r') : p = q ∧ r = r' := by
  cases p with
  | char c =>
      cases q with
      | char c' =>
          have hread := congrArg Json.unescape h
          rw [Point.text, Point.text, Json.unescape_escape,
            Json.unescape_escape, Option.some.injEq, Prod.mk.injEq] at hread
          obtain ⟨rfl, hrr⟩ := hread
          exact ⟨rfl, hrr⟩
      | lone u hu => exact (escape_ne_lone c _ _ h).elim
  | lone u hu =>
      cases q with
      | char c' => exact (escape_ne_lone c' _ _ h.symm).elim
      | lone v hv =>
          unfold IsHigh IsLow at hu hv
          have htail : hex3 u.toNat ++ r = hex3 v.toNat ++ r' :=
            List.tail_eq_of_cons_eq
              (List.tail_eq_of_cons_eq (List.tail_eq_of_cons_eq h))
          obtain ⟨hunits, hrr⟩ := hex3_inj (by omega) (by omega) htail
          obtain rfl := UInt16.toNat_inj.mp hunits
          exact ⟨rfl, hrr⟩

/-- No code point is written with a quotation mark first. -/
theorem pointText_ne_quoteMark (p : Point) (r r' : List Char) :
    p.text ++ r ≠ Json.quoteMark :: r' := by
  intro h
  cases p with
  | char c =>
      have hread := congrArg Json.unescape h
      rw [Point.text, Json.unescape_escape] at hread
      cases hread
  | lone u hu => exact absurd (List.head_eq_of_cons_eq h) (by decide)

/-- and points up to the quotation mark. -/
theorem pointTexts_inj {ps qs : List Point} {r r' : List Char}
    (h : ps.flatMap Point.text ++ Json.quoteMark :: r
      = qs.flatMap Point.text ++ Json.quoteMark :: r') :
    ps = qs ∧ r = r' := by
  induction ps generalizing qs with
  | nil =>
      cases qs with
      | nil => exact ⟨rfl, List.tail_eq_of_cons_eq h⟩
      | cons q qs =>
          rw [List.flatMap_cons, List.append_assoc] at h
          exact (pointText_ne_quoteMark q _ _ h.symm).elim
  | cons p ps ih =>
      cases qs with
      | nil =>
          rw [List.flatMap_cons, List.append_assoc] at h
          exact (pointText_ne_quoteMark p _ _ h).elim
      | cons q qs =>
          rw [List.flatMap_cons, List.flatMap_cons, List.append_assoc,
            List.append_assoc] at h
          obtain ⟨rfl, htail⟩ := pointText_inj h
          obtain ⟨rfl, hrr⟩ := ih htail
          exact ⟨rfl, hrr⟩

/-- A string ends at its quotation mark. -/
theorem quote_inj {s t : JsString} {r r' : List Char}
    (h : quote s ++ r = quote t ++ r') : s = t ∧ r = r' := by
  simp only [quote, List.cons_append, List.append_assoc,
    List.nil_append] at h
  obtain ⟨hpoints, hrr⟩ := pointTexts_inj (List.tail_eq_of_cons_eq h)
  exact ⟨points_inj hpoints, hrr⟩

-- ============================================================= values

/-- A value that is neither an array nor an object. -/
inductive Leaf
  | null
  | bool (b : Bool)
  | num (x : Number)
  | str (s : JsString)
deriving DecidableEq

/-- The text of a leaf. -/
def Leaf.text : Leaf → List Char
  | .null => ['n', 'u', 'l', 'l']
  | .bool true => ['t', 'r', 'u', 'e']
  | .bool false => ['f', 'a', 'l', 's', 'e']
  | .num x => x.text
  | .str s => quote s

/-- A JSON value. -/
abbrev Value := Tree Leaf JsString

/-- A number stops where a value ends. -/
theorem stops_of_ends {r : List Char} (h : Ends r) : Number.Stops r := by
  intro c hc
  rcases h c hc with rfl | rfl | rfl <;> decide

/-- A number begins with a digit or a sign. -/
theorem num_ne {x : Number} {c : Char} {r r' : List Char}
    (hc : c ≠ '-' ∧ ¬ c.isDigit = true) : x.text ++ r ≠ c :: r' := by
  intro h
  obtain ⟨d, hd, hopens⟩ := x.text_opens r
  rw [h, List.head?_cons, Option.mem_some_iff] at hd
  subst hd
  exact hopens.elim hc.1 hc.2

/-- The first character of a text that is no numeral's. -/
def Leaf.mark : Leaf → Option Char
  | .null => some 'n'
  | .bool true => some 't'
  | .bool false => some 'f'
  | .num _ => none
  | .str _ => some Json.quoteMark

/-- Any other leaf begins with its mark. -/
theorem text_of_mark {a : Leaf} {c : Char} (h : a.mark = some c) :
    ∃ cs, a.text = c :: cs ∧ c ≠ '-' ∧ ¬ c.isDigit = true := by
  cases a with
  | null => cases h; exact ⟨_, rfl, by decide⟩
  | bool b => cases b <;> cases h <;> exact ⟨_, rfl, by decide⟩
  | num x => cases h
  | str s => cases h; exact ⟨_, rfl, by decide⟩

/-- Texts begin alike when the leaves are of one kind. -/
theorem mark_eq {a b : Leaf} {r r' : List Char}
    (h : a.text ++ r = b.text ++ r') : a.mark = b.mark := by
  cases ha : a.mark with
  | none =>
      cases a with
      | num x =>
          cases hb : b.mark with
          | none => rfl
          | some c =>
              obtain ⟨cs, htext, hc⟩ := text_of_mark hb
              rw [htext] at h
              exact (num_ne hc h).elim
      | bool v => cases v <;> cases ha
      | null | str s => cases ha
  | some c =>
      obtain ⟨cs, htext, hc⟩ := text_of_mark ha
      cases hb : b.mark with
      | none =>
          cases b with
          | num x =>
              rw [htext] at h
              exact (num_ne hc h.symm).elim
          | bool v => cases v <;> cases hb
          | null | str s => cases hb
      | some d =>
          obtain ⟨ds, htext', -⟩ := text_of_mark hb
          rw [htext, htext'] at h
          rw [List.head_eq_of_cons_eq h]

/-- A leaf is read from the front of a text. -/
theorem leaf_reads (a b : Leaf) : Reads Leaf.text a b := by
  intro r r' hr hr' h
  have hmark := mark_eq h
  cases a with
  | null =>
      cases b with
      | null => exact ⟨rfl, List.append_cancel_left h⟩
      | bool v => cases v <;> exact absurd hmark (by decide)
      | num x => cases hmark
      | str s => simp [Leaf.mark, Json.quoteMark] at hmark
  | bool v =>
      cases b with
      | null => cases v <;> exact absurd hmark (by decide)
      | bool v' =>
          cases v <;> cases v'
          · exact ⟨rfl, List.append_cancel_left h⟩
          · exact absurd hmark (by decide)
          · exact absurd hmark (by decide)
          · exact ⟨rfl, List.append_cancel_left h⟩
      | num x => cases v <;> cases hmark
      | str s => cases v <;> simp [Leaf.mark, Json.quoteMark] at hmark
  | num x =>
      cases b with
      | null => cases hmark
      | bool v => cases v <;> cases hmark
      | num y =>
          obtain ⟨rfl, hrr⟩ := Number.text_inj (stops_of_ends hr)
            (stops_of_ends hr') h
          exact ⟨rfl, hrr⟩
      | str s => cases hmark
  | str s =>
      cases b with
      | null => simp [Leaf.mark, Json.quoteMark] at hmark
      | bool v => cases v <;> simp [Leaf.mark, Json.quoteMark] at hmark
      | num x => cases hmark
      | str t =>
          obtain ⟨rfl, hrr⟩ := quote_inj h
          exact ⟨rfl, hrr⟩

/-- It begins with no bracket. -/
theorem leaf_opens (a : Leaf) (r : List Char) :
    ∀ c ∈ ['[', ']', '\x7b', '\x7d'], (a.text ++ r).head? ≠ some c := by
  intro c hc h
  cases hmark : a.mark with
  | none =>
      cases a with
      | num x =>
          obtain ⟨d, hd, hopens⟩ := x.text_opens r
          rw [show (x.text ++ r).head? = some c from h,
            Option.mem_some_iff] at hd
          subst hd
          simp only [List.mem_cons, List.not_mem_nil, or_false] at hc
          rcases hc with rfl | rfl | rfl | rfl <;>
            exact absurd hopens (by decide)
      | bool v => cases v <;> cases hmark
      | null | str s => cases hmark
  | some d =>
      obtain ⟨cs, htext, -⟩ := text_of_mark hmark
      rw [htext] at h
      obtain rfl : d = c := Option.some.inj h
      cases a with
      | bool v => cases v <;> cases hmark <;> exact absurd hc (by decide)
      | num x => cases hmark
      | null | str s => cases hmark; exact absurd hc (by decide)

/-- The texts of `JSON.stringify`. -/
def texts : Texts Leaf JsString where
  leaf := Leaf.text
  key := quote
  leaf_reads := leaf_reads
  leaf_opens := leaf_opens
  key_reads _ _ _ _ h :=
    (quote_inj h).imp id fun h => List.tail_eq_of_cons_eq h
  key_opens _ _ h := absurd (Option.some.inj h) (by decide)

-- ============================================================ objects

/-- The numeral of a number. -/
def numeral (n : ℕ) : JsString :=
  (Nat.toDigits 10 n).map fun c => UInt16.ofNat c.toNat

/-- The array index a key is, if it is the numeral of one. -/
def arrayIndex (key : JsString) : Option ℕ :=
  let n := key.foldl (fun n u => 10 * n + (u.toNat - 48)) 0
  if n < 2 ^ 32 - 1 ∧ key = numeral n then some n else none

/-- An index has one text. -/
theorem arrayIndex_inj (k l : JsString) (i : ℕ)
    (hk : arrayIndex k = some i) (hl : arrayIndex l = some i) : k = l := by
  have hread : ∀ {key : JsString}, arrayIndex key = some i →
      key = numeral i := by
    intro key h
    simp only [arrayIndex, Option.ite_none_right_eq_some,
      Option.some.injEq] at h
    obtain ⟨⟨-, hkey⟩, hi⟩ := h
    rw [hkey, hi]
  rw [hread hk, hread hl]

/-- A value, as `JSON.parse` and object literals make them: the keys of
an object are distinct, and its array indices come first. -/
structure JsonValue where
  tree : Value
  proper : tree.AllKeys (ProperKeys arrayIndex)

/-- Equal up to the order of keys. -/
def JsonValue.Same (v w : JsonValue) : Prop := Tree.Same v.tree w.tree

end Lumix.Js
