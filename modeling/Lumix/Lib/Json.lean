/-
JSON texts, as `JSON.stringify` writes values made of strings, arrays
and objects.

Every value closes itself: a text that begins with one says which value
it is and where it ends (`write_inj`), so values with the same text are
the same value (`stringify_inj`).
-/
import Lumix.Lib.Text

namespace Lumix.Json

open Text

/-- A value. An object keeps its fields in the order of its text. -/
inductive Value
  | null
  | str (s : String)
  | arr (items : List Value)
  | obj (fields : List (String × Value))

-- ============================================================= characters

/-- The quotation mark. -/
def quoteMark : Char := '\x22'

/-- The backslash. -/
def backslash : Char := '\x5c'

/-- A character in a string. -/
def escape (c : Char) : List Char :=
  if c = quoteMark then [backslash, quoteMark]
  else if c = backslash then [backslash, backslash]
  else if c = '\x08' then [backslash, 'b']
  else if c = '\x09' then [backslash, 't']
  else if c = '\x0a' then [backslash, 'n']
  else if c = '\x0c' then [backslash, 'f']
  else if c = '\x0d' then [backslash, 'r']
  else if c.toNat < 32 then
    [backslash, 'u', '0', '0', Nat.digitChar (c.toNat / 16),
      Nat.digitChar (c.toNat % 16)]
  else [c]

/-- What a letter after a backslash stands for. -/
def unescapeLetter (e : Char) : Char :=
  if e = 'b' then '\x08'
  else if e = 't' then '\x09'
  else if e = 'n' then '\x0a'
  else if e = 'f' then '\x0c'
  else if e = 'r' then '\x0d'
  else e

/-- The first character of a string's text, unless the string ends. -/
def unescape : List Char → Option (Char × List Char)
  | [] => none
  | c :: cs =>
      if c = quoteMark then none
      else if c ≠ backslash then some (c, cs)
      else
        match cs with
        | 'u' :: '0' :: '0' :: high :: low :: cs =>
            (digitValue high).bind fun a => (digitValue low).map fun b =>
              (Char.ofNat (16 * a + b), cs)
        | e :: cs => some (unescapeLetter e, cs)
        | [] => none

/-- It is read back. -/
theorem unescape_escape (c : Char) (cs : List Char) :
    unescape (escape c ++ cs) = some (c, cs) := by
  unfold escape
  by_cases hquote : c = quoteMark
  · subst hquote
    rfl
  rw [if_neg hquote]
  by_cases hback : c = backslash
  · subst hback
    rfl
  rw [if_neg hback]
  split
  · subst_vars
    rfl
  split
  · subst_vars
    rfl
  split
  · subst_vars
    rfl
  split
  · subst_vars
    rfl
  split
  · subst_vars
    rfl
  split
  · have hhigh : digitValue (Nat.digitChar (c.toNat / 16))
        = some (c.toNat / 16) := digitValue_digitChar (by omega)
    have hlow : digitValue (Nat.digitChar (c.toNat % 16))
        = some (c.toNat % 16) := digitValue_digitChar (by omega)
    show (digitValue (Nat.digitChar (c.toNat / 16))).bind (fun a =>
      (digitValue (Nat.digitChar (c.toNat % 16))).map fun b =>
        (Char.ofNat (16 * a + b), cs)) = some (c, cs)
    rw [hhigh, hlow, Option.bind_some, Option.map_some, Nat.div_add_mod,
      Char.ofNat_toNat]
  · show unescape (c :: cs) = some (c, cs)
    simp only [unescape, if_neg hquote, ne_eq, if_pos hback]

-- ================================================================ strings

/-- A string in quotation marks. -/
def writeString (s : String) : List Char :=
  quoteMark :: (s.toList.flatMap escape ++ [quoteMark])

/-- The first character of several. -/
theorem unescape_flatMap (c : Char) (l r : List Char) :
    unescape ((c :: l).flatMap escape ++ r)
      = some (c, l.flatMap escape ++ r) := by
  rw [List.flatMap_cons, List.append_assoc, unescape_escape]

/-- A string ends at its quotation mark. -/
theorem flatMap_escape_inj {l l' r r' : List Char}
    (h : l.flatMap escape ++ quoteMark :: r
      = l'.flatMap escape ++ quoteMark :: r') : l = l' ∧ r = r' := by
  induction l generalizing l' with
  | nil =>
      cases l' with
      | nil => exact ⟨rfl, List.tail_eq_of_cons_eq h⟩
      | cons c' l' =>
          have hread := congrArg unescape h
          rw [unescape_flatMap] at hread
          cases hread
  | cons c l ih =>
      have hread := congrArg unescape h
      rw [unescape_flatMap] at hread
      cases l' with
      | nil => cases hread
      | cons c' l' =>
          rw [unescape_flatMap, Option.some.injEq, Prod.mk.injEq] at hread
          obtain ⟨rfl, htail⟩ := hread
          obtain ⟨rfl, hr⟩ := ih htail
          exact ⟨rfl, hr⟩

/-- A string and what comes after. -/
theorem writeString_append (s : String) (r : List Char) :
    writeString s ++ r
      = quoteMark :: (s.toList.flatMap escape ++ quoteMark :: r) := by
  unfold writeString
  rw [List.cons_append, List.append_assoc, List.singleton_append]

/-- A string is read from the front of a text. -/
theorem writeString_inj {s s' : String} {r r' : List Char}
    (h : writeString s ++ r = writeString s' ++ r') : s = s' ∧ r = r' := by
  rw [writeString_append, writeString_append] at h
  obtain ⟨hs, hr⟩ := flatMap_escape_inj (List.tail_eq_of_cons_eq h)
  exact ⟨String.toList_injective hs, hr⟩

-- ================================================================= values

mutual

/-- A value's text. -/
def write : Value → List Char
  | .null => ['n', 'u', 'l', 'l']
  | .str s => writeString s
  | .arr items => '[' :: writeItems items
  | .obj fields => '\x7b' :: writeFields fields

/-- The items of an array, and its end. -/
def writeItems : List Value → List Char
  | [] => [']']
  | j :: items =>
      write j ++ (match items with
        | [] => [']']
        | _ :: _ => ',' :: writeItems items)

/-- The fields of an object, and its end. -/
def writeFields : List (String × Value) → List Char
  | [] => ['\x7d']
  | (name, j) :: fields =>
      writeString name ++ ':' :: (write j ++ (match fields with
        | [] => ['\x7d']
        | _ :: _ => ',' :: writeFields fields))

end

/-- `JSON.stringify`, without blanks. -/
def stringify (j : Value) : String := String.ofList (write j)

-- ============================================================== one text

/-- What follows an item. -/
def afterItem : List Value → List Char
  | [] => [']']
  | j :: items => ',' :: writeItems (j :: items)

/-- What follows a field. -/
def afterField : List (String × Value) → List Char
  | [] => ['\x7d']
  | f :: fields => ',' :: writeFields (f :: fields)

/-- The items of an array and what comes after. -/
theorem writeItems_append (j : Value) (items : List Value)
    (r : List Char) :
    writeItems (j :: items) ++ r = write j ++ (afterItem items ++ r) := by
  unfold writeItems
  rw [List.append_assoc]
  cases items <;> rfl

/-- The fields of an object and what comes after. -/
theorem writeFields_append (name : String) (j : Value)
    (fields : List (String × Value)) (r : List Char) :
    writeFields ((name, j) :: fields) ++ r
      = writeString name ++ ':' :: (write j ++ (afterField fields ++ r)) := by
  unfold writeFields
  rw [List.append_assoc, List.cons_append, List.append_assoc]
  cases fields <;> rfl

/-- A value does not begin with a bracket that closes. -/
theorem write_ne_close (j : Value) (r r' : List Char) :
    write j ++ r ≠ ']' :: r' := by
  intro h
  cases j with
  | null => cases h
  | str s =>
      rw [write, writeString_append] at h
      cases h
  | arr items => cases h
  | obj fields => cases h

mutual

/-- A text begins with the text of one value. -/
theorem write_inj : ∀ (j k : Value) {r r' : List Char},
    write j ++ r = write k ++ r' → j = k ∧ r = r'
  | .null, .null, _, _, h => ⟨rfl, List.append_cancel_left h⟩
  | .str s, .str s', _, _, h => by
      rw [write, write] at h
      obtain ⟨rfl, hr⟩ := writeString_inj h
      exact ⟨rfl, hr⟩
  | .arr items, .arr items', _, _, h => by
      rw [write, write] at h
      obtain ⟨rfl, hr⟩ :=
        writeItems_inj items items' (List.tail_eq_of_cons_eq h)
      exact ⟨rfl, hr⟩
  | .obj fields, .obj fields', _, _, h => by
      rw [write, write] at h
      obtain ⟨rfl, hr⟩ :=
        writeFields_inj fields fields' (List.tail_eq_of_cons_eq h)
      exact ⟨rfl, hr⟩
  | .null, .str s, _, _, h | .null, .arr _, _, _, h
  | .null, .obj _, _, _, h | .str s, .null, _, _, h
  | .str s, .arr _, _, _, h | .str s, .obj _, _, _, h
  | .arr _, .null, _, _, h | .arr _, .str s, _, _, h
  | .arr _, .obj _, _, _, h | .obj _, .null, _, _, h
  | .obj _, .str s, _, _, h | .obj _, .arr _, _, _, h => by
      simp [write, writeString, quoteMark] at h

/-- Items are read from the front of a text, -/
theorem writeItems_inj : ∀ (items items' : List Value) {r r' : List Char},
    writeItems items ++ r = writeItems items' ++ r' →
    items = items' ∧ r = r'
  | [], [], _, _, h => ⟨rfl, List.append_cancel_left h⟩
  | [], j :: items, _, _, h => by
      rw [writeItems_append] at h
      exact (write_ne_close _ _ _ h.symm).elim
  | j :: items, [], _, _, h => by
      rw [writeItems_append] at h
      exact (write_ne_close _ _ _ h).elim
  | j :: items, j' :: items', _, _, h => by
      rw [writeItems_append, writeItems_append] at h
      obtain ⟨rfl, hmore⟩ := write_inj j j' h
      cases items with
      | nil =>
          cases items' with
          | nil => exact ⟨rfl, List.append_cancel_left hmore⟩
          | cons k items' => cases hmore
      | cons k items =>
          cases items' with
          | nil => cases hmore
          | cons k' items' =>
              obtain ⟨hitems, hr⟩ := writeItems_inj (k :: items)
                (k' :: items') (List.tail_eq_of_cons_eq hmore)
              exact ⟨congrArg (j :: ·) hitems, hr⟩

/-- and fields. -/
theorem writeFields_inj : ∀ (fields fields' : List (String × Value))
    {r r' : List Char}, writeFields fields ++ r = writeFields fields' ++ r' →
    fields = fields' ∧ r = r'
  | [], [], _, _, h => ⟨rfl, List.append_cancel_left h⟩
  | [], (name, j) :: fields, _, _, h
  | (name, j) :: fields, [], _, _, h => by
      rw [writeFields_append, writeString_append] at h
      cases h
  | (name, j) :: fields, (name', j') :: fields', _, _, h => by
      rw [writeFields_append, writeFields_append] at h
      obtain ⟨rfl, hvalue⟩ := writeString_inj h
      obtain ⟨rfl, hmore⟩ :=
        write_inj j j' (List.tail_eq_of_cons_eq hvalue)
      cases fields with
      | nil =>
          cases fields' with
          | nil => exact ⟨rfl, List.append_cancel_left hmore⟩
          | cons f fields' => cases hmore
      | cons f fields =>
          cases fields' with
          | nil => cases hmore
          | cons f' fields' =>
              obtain ⟨hfields, hr⟩ := writeFields_inj (f :: fields)
                (f' :: fields') (List.tail_eq_of_cons_eq hmore)
              exact ⟨congrArg ((name, j) :: ·) hfields, hr⟩

end

/-- Values with the same text are the same. -/
theorem stringify_inj {j k : Value} (h : stringify j = stringify k) :
    j = k := by
  have hchars := String.ofList_injective h
  exact (write_inj j k (congrArg (· ++ []) hchars)).1

end Lumix.Json
