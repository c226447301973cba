/-
`JSON.parse`.

The text is cut into tokens one character at a time (`feed`), and the
tokens are put together on a stack of the arrays and objects that are
still open (`step`); each refuses what the grammar has no place for. A
number is left as its numeral: which double that rounds to is for the
reader of the value to say.

An object lists its keys as JavaScript does whatever order they come in,
and a key that comes twice has its last value at its first place (`put`).
What `JSON.stringify` writes of a value is parsed back (`parse_write`).
-/
import Lumix.Lib.Js

namespace Lumix.Js

open Text Lumix.Tree Number

-- ============================================================= values

/-- A value that is neither an array nor an object, as it is parsed. -/
inductive Scalar
  | null
  | bool (b : Bool)
  | num (negative : Bool) (numeral : Layout)
  | str (s : JsString)

/-- A value as it was parsed. -/
abbrev Parsed := Tree Scalar JsString

/-- Keys are equal when their code units are. -/
local instance : LawfulBEq JsString := inferInstance

/-- A key and its value put into an object. -/
def put {β : Type _} (fields : List (JsString × β)) (k : JsString)
    (v : β) : List (JsString × β) :=
  if k ∈ fields.map Prod.fst then
    fields.map fun f => if f.1 = k then (k, v) else f
  else
    fields.takeWhile (fun f => !decide (Before arrayIndex k f.1))
      ++ (k, v)
        :: fields.dropWhile fun f => !decide (Before arrayIndex k f.1)

-- =========================================================== numerals

/-- Digits, at least one. -/
def readExponentDigits (cs : List Char) : Option ℕ :=
  if cs ≠ [] ∧ cs.all Char.isDigit then some (Nat.ofDigitChars 10 cs 0)
  else none

/-- An exponent, if there is one, and nothing after it. -/
def readExponent : List Char → Option (Option ℤ)
  | [] => some none
  | c :: cs =>
      if c = 'e' ∨ c = 'E' then
        match cs with
        | '-' :: cs => (readExponentDigits cs).map fun n : ℕ => some (-n)
        | '+' :: cs => (readExponentDigits cs).map fun n : ℕ => some n
        | cs => (readExponentDigits cs).map fun n : ℕ => some n
      else none

/-- The digits after the point, if there is one, and what follows. -/
def readFraction : List Char → Option (List Char × List Char)
  | '.' :: cs =>
      if cs.takeWhile Char.isDigit = [] then none
      else some (cs.takeWhile Char.isDigit, cs.dropWhile Char.isDigit)
  | cs => some ([], cs)

/-- No zero stands before other digits. -/
def WholePart (cs : List Char) : Prop :=
  cs = ['0'] ∨ (cs ≠ [] ∧ cs.head? ≠ some '0')

instance (cs : List Char) : Decidable (WholePart cs) :=
  inferInstanceAs (Decidable (_ ∨ _))

/-- A number without its sign. -/
def readLayout (cs : List Char) : Option Layout :=
  if WholePart (cs.takeWhile Char.isDigit) then do
    let (fraction, cs') ← readFraction (cs.dropWhile Char.isDigit)
    let exponent ← readExponent cs'
    some ⟨cs.takeWhile Char.isDigit, fraction, exponent⟩
  else none

/-- A number. -/
def readNumber : List Char → Option Scalar
  | '-' :: cs => (readLayout cs).map (.num true)
  | cs => (readLayout cs).map (.num false)

-- ============================================================= tokens

/-- What a text is cut into. -/
inductive Token
  | openItems
  | closeItems
  | openFields
  | closeFields
  | comma
  | colon
  | scalar (a : Scalar)

/-- White space. -/
def isBlank (c : Char) : Bool :=
  c = ' ' || c = '\x09' || c = '\x0a' || c = '\x0d'

/-- The six structural characters. -/
def punctuation (c : Char) : Option Token :=
  if c = '[' then some .openItems
  else if c = ']' then some .closeItems
  else if c = '\x7b' then some .openFields
  else if c = '\x7d' then some .closeFields
  else if c = ',' then some .comma
  else if c = ':' then some .colon
  else none

/-- A word is what stands between punctuation, blanks and strings. -/
def readWord (w : List Char) : Option Scalar :=
  if w = ['n', 'u', 'l', 'l'] then some .null
  else if w = ['t', 'r', 'u', 'e'] then some (.bool true)
  else if w = ['f', 'a', 'l', 's', 'e'] then some (.bool false)
  else readNumber w

/-- What a letter after a backslash stands for, where it may come. -/
def escaped (c : Char) : Option Char :=
  if c ∈ [Json.quoteMark, Json.backslash, '/', 'b', 'f', 'n', 'r', 't'] then
    some (Json.unescapeLetter c)
  else none

/-- What the characters so far leave unfinished: nothing, a word, a
string, one with a backslash at its end, or one with some digits of a
code unit, and how many more are to come. -/
inductive Pending
  | idle
  | word (w : List Char)
  | str (s : JsString)
  | escape (s : JsString)
  | code (s : JsString) (n left : ℕ)

/-- A character outside words and strings. -/
def start (c : Char) : List Token × Pending :=
  if isBlank c then ([], .idle)
  else
    match punctuation c with
    | some t => ([t], .idle)
    | none => if c = Json.quoteMark then ([], .str []) else ([], .word [c])

/-- What a word stops at. -/
def endsWord (c : Char) : Bool :=
  isBlank c || (punctuation c).isSome || c = Json.quoteMark

/-- One character more. -/
def feed : Pending → Char → Option (List Token × Pending)
  | .idle, c => some (start c)
  | .word w, c =>
      if endsWord c then
        (readWord w).map fun a => (.scalar a :: (start c).1, (start c).2)
      else some ([], .word (w ++ [c]))
  | .str s, c =>
      if c = Json.quoteMark then some ([.scalar (.str s)], .idle)
      else if c = Json.backslash then some ([], .escape s)
      else if c.toNat < 32 then none
      else some ([], .str (s ++ (Point.char c).units))
  | .escape s, c =>
      if c = 'u' then some ([], .code s 0 3)
      else (escaped c).map fun e => ([], .str (s ++ (Point.char e).units))
  | .code s n left, c =>
      (digitValue c).map fun d =>
        match left with
        | 0 => ([], .str (s ++ [UInt16.ofNat (16 * n + d)]))
        | left + 1 => ([], .code s (16 * n + d) left)

/-- The tokens at the end of the text. -/
def finish : Pending → Option (List Token)
  | .idle => some []
  | .word w => (readWord w).map fun a => [.scalar a]
  | _ => none

/-- A text cut into tokens. -/
def scan : Pending → List Char → Option (List Token)
  | p, [] => finish p
  | p, c :: cs =>
      (feed p c).bind fun (ts, q) => (scan q cs).map (ts ++ ·)

-- ============================================================ parsing

/-- An array or an object that is not closed yet, up to the value that is
being read. -/
inductive Frame
  | items (done : List Parsed)
  | fields (done : List (JsString × Parsed)) (key : JsString)

/-- What has to come next, inside the open arrays and objects. -/
inductive State
  | value (st : List Frame)
  | firstItem (st : List Frame)
  | field (done : List (JsString × Parsed)) (st : List Frame)
  | colon (done : List (JsString × Parsed)) (key : JsString)
      (st : List Frame)
  | after (v : Parsed) (st : List Frame)

/-- The beginning of a value. -/
def begin (st : List Frame) : Token → Option State
  | .scalar a => some (.after (.leaf a) st)
  | .openItems => some (.firstItem st)
  | .openFields => some (.field [] st)
  | _ => none

/-- One token more. -/
def step : State → Token → Option State
  | .value st, t => begin st t
  | .firstItem st, .closeItems => some (.after (.arr []) st)
  | .firstItem st, t => begin (.items [] :: st) t
  | .field done st, .scalar (.str k) => some (.colon done k st)
  -- an object ends before a first key only
  | .field [] st, .closeFields => some (.after (.obj []) st)
  | .colon done k st, .colon => some (.value (.fields done k :: st))
  | .after v (.items done :: st), .comma =>
      some (.value (.items (done ++ [v]) :: st))
  | .after v (.items done :: st), .closeItems =>
      some (.after (.arr (done ++ [v])) st)
  | .after v (.fields done k :: st), .comma =>
      some (.field (put done k v) st)
  | .after v (.fields done k :: st), .closeFields =>
      some (.after (.obj (put done k v)) st)
  | _, _ => none

/-- The value, when there is nothing left to close. -/
def State.result : State → Option Parsed
  | .after v [] => some v
  | _ => none

/-- The value of the tokens. -/
def build (s : State) (ts : List Token) : Option Parsed :=
  (ts.foldlM step s).bind State.result

/-- `JSON.parse`; none where it throws. -/
def parse (cs : List Char) : Option Parsed :=
  (scan .idle cs).bind (build (.value []))

-- ======================================================= what is read

/-- A leaf as it is parsed. -/
def Leaf.read : Leaf → Scalar
  | .null => .null
  | .bool b => .bool b
  | .num .zero => .num false zeroLayout
  | .num (.decimal d) => .num d.negative (layout d)
  | .str s => .str s

mutual

/-- A value as it is parsed. -/
def read : Value → Parsed
  | .leaf a => .leaf a.read
  | .arr items => .arr (readItems items)
  | .obj fields => .obj (readFields fields)

/-- The items of an array, read. -/
def readItems : List Value → List Parsed
  | [] => []
  | v :: items => read v :: readItems items

/-- The fields of an object, read. -/
def readFields : List (JsString × Value) → List (JsString × Parsed)
  | [] => []
  | (k, v) :: fields => (k, read v) :: readFields fields

end

/-- A field as it is parsed. -/
def readField (f : JsString × Value) : JsString × Parsed :=
  (f.1, read f.2)

/-- The fields of an object as they are put into it in turn. -/
def puts {β : Type _} (fields : List (JsString × β)) :
    List (JsString × β) :=
  fields.foldl (fun done f => put done f.1 f.2) []

mutual

/-- A value with its objects as JavaScript lists them. -/
def listed : Value → Value
  | .leaf a => .leaf a
  | .arr items => .arr (listedItems items)
  | .obj fields => .obj (puts (listedFields fields))

/-- The items of an array, listed. -/
def listedItems : List Value → List Value
  | [] => []
  | v :: items => listed v :: listedItems items

/-- The fields of an object, listed. -/
def listedFields : List (JsString × Value) → List (JsString × Value)
  | [] => []
  | (k, v) :: fields => (k, listed v) :: listedFields fields

end

/-- Reading items is a map over them. -/
theorem readItems_eq (items : List Value) :
    readItems items = items.map read := by
  induction items with
  | nil => rfl
  | cons v items ih => rw [readItems, ih, List.map_cons]

/-- Reading fields is a map over them. -/
theorem readFields_eq (fields : List (JsString × Value)) :
    readFields fields = fields.map readField := by
  induction fields with
  | nil => rfl
  | cons f fields ih => rw [readFields, ih, List.map_cons, readField]

/-- Listing items is a map over them. -/
theorem listedItems_eq (items : List Value) :
    listedItems items = items.map listed := by
  induction items with
  | nil => rfl
  | cons v items ih => rw [listedItems, ih, List.map_cons]

/-- Listing fields is a map over them. -/
theorem listedFields_eq (fields : List (JsString × Value)) :
    listedFields fields = fields.map fun f => (f.1, listed f.2) := by
  induction fields with
  | nil => rfl
  | cons f fields ih => rw [listedFields, ih, List.map_cons]

/-- An array is listed item by item, -/
theorem listed_arr (items : List Value) :
    listed (.arr items) = .arr (items.map listed) := by
  rw [listed, listedItems_eq]

/-- an object field by field, and by its keys. -/
theorem listed_obj (fields : List (JsString × Value)) :
    listed (.obj fields)
      = .obj (puts (fields.map fun f => (f.1, listed f.2))) := by
  rw [listed, listedFields_eq]

/-- An array is read item by item, -/
theorem read_arr (items : List Value) :
    read (.arr items) = .arr (items.map read) := by
  rw [read, readItems_eq]

/-- an object field by field. -/
theorem read_obj (fields : List (JsString × Value)) :
    read (.obj fields) = .obj (fields.map readField) := by
  rw [read, readFields_eq]

-- ==================================================== reading numerals

/-- Digits are taken up to what is none. -/
theorem takeWhile_digits {cs r : List Char}
    (hcs : ∀ c ∈ cs, c.isDigit = true) (hr : NoDigit r) :
    (cs ++ r).takeWhile Char.isDigit = cs := by
  rw [List.takeWhile_append_of_pos hcs]
  cases r with
  | nil => exact List.append_nil cs
  | cons c r => rw [List.takeWhile_cons_of_neg (hr c rfl), List.append_nil]

/-- What comes after is left. -/
theorem dropWhile_digits {cs r : List Char}
    (hcs : ∀ c ∈ cs, c.isDigit = true) (hr : NoDigit r) :
    (cs ++ r).dropWhile Char.isDigit = r := by
  rw [List.dropWhile_append_of_pos hcs]
  cases r with
  | nil => rfl
  | cons c r => exact List.dropWhile_cons_of_neg (hr c rfl)

/-- An exponent is read back, -/
theorem readExponent_text (x : Option ℤ) :
    readExponent (exponentText x) = some x := by
  cases x with
  | none => rfl
  | some e =>
      have hdigits : readExponentDigits (Nat.toDigits 10 e.natAbs)
          = some e.natAbs := by
        rw [readExponentDigits, if_pos ⟨Nat.toDigits_ne_nil,
          List.all_eq_true.mpr (toDigits_digits _)⟩,
          Nat.ofDigitChars_ten_toDigits]
      show readExponent ('e' :: (if e < 0 then '-' else '+')
        :: Nat.toDigits 10 e.natAbs) = _
      by_cases he : e < 0
      · rw [if_pos he]
        rw [readExponent, if_pos (.inl rfl)]
        show ((readExponentDigits _).map fun n : ℕ => some (-(n : ℤ))) = _
        rw [hdigits, Option.map_some]
        exact congrArg (fun e => some (some e)) (by omega)
      · rw [if_neg he]
        rw [readExponent, if_pos (.inl rfl)]
        show ((readExponentDigits _).map fun n : ℕ => some (n : ℤ)) = _
        rw [hdigits, Option.map_some]
        exact congrArg (fun e => some (some e)) (by omega)

/-- The exponent ends a numeral. -/
theorem noDigit_exponentText (x : Option ℤ) :
    NoDigit (exponentText x) := by
  cases x with
  | none => exact fun c hc => by cases hc
  | some e => exact noDigit_cons (by decide) _

/-- and a fraction. -/
theorem readFraction_text {f : List Char} (x : Option ℤ)
    (hf : ∀ c ∈ f, c.isDigit = true) :
    readFraction (fractionText f ++ exponentText x)
      = some (f, exponentText x) := by
  cases f with
  | nil =>
      cases x with
      | none => rfl
      | some e => rfl
  | cons c cs =>
      show (if (c :: cs ++ exponentText x).takeWhile Char.isDigit = [] then
          none
        else some ((c :: cs ++ exponentText x).takeWhile Char.isDigit,
          (c :: cs ++ exponentText x).dropWhile Char.isDigit)) = _
      rw [takeWhile_digits hf (noDigit_exponentText x),
        dropWhile_digits hf (noDigit_exponentText x),
        if_neg (List.cons_ne_nil c cs)]

/-- A numeral is read back from its text. -/
theorem readLayout_text {l : Layout} (hwhole : WholePart l.whole)
    (hdigits : ∀ c ∈ l.whole, c.isDigit = true)
    (hfraction : ∀ c ∈ l.fraction, c.isDigit = true) :
    readLayout l.text = some l := by
  obtain ⟨w, f, x⟩ := l
  have hrest : NoDigit (fractionText f ++ exponentText x) := by
    cases f with
    | nil => exact noDigit_exponentText x
    | cons c cs => exact noDigit_cons (by decide) _
  unfold readLayout Layout.text
  simp only [takeWhile_digits hdigits hrest, dropWhile_digits hdigits hrest,
    if_pos hwhole, readFraction_text x hfraction, readExponent_text,
    Option.bind_eq_bind, Option.bind_some]

/-- A numeral has no leading zero. -/
theorem head?_toDigits {n : ℕ} (h : n ≠ 0) :
    (Nat.toDigits 10 n).head? ≠ some '0' := by
  have hdigit : ∀ d < 10, d ≠ 0 → some (Nat.digitChar d) ≠ some '0' := by
    decide
  induction n using Nat.strong_induction_on with
  | _ n ih =>
      rw [Nat.toDigits_eq_if (by decide)]
      by_cases hlt : n < 10
      · rw [if_pos hlt, List.head?_cons]
        exact hdigit n hlt h
      · have hne : n / 10 ≠ 0 := by omega
        rw [if_neg hlt, List.head?_append_of_ne_nil _ Nat.toDigits_ne_nil]
        exact ih (n / 10) (by omega) hne

/-- No decimal is written with a zero before other digits. -/
theorem wholePart_layout (d : ShortDecimal) :
    WholePart (layout d).whole := by
  have hhead : d.digits.head? ≠ some '0' :=
    head?_toDigits fun h => d.canonical (by rw [h])
  have hne : d.digits ≠ [] := Nat.toDigits_ne_nil
  have htake : ∀ n, 0 < n → WholePart (d.digits.take n) := by
    intro n hn
    refine .inr ⟨fun h => ?_, ?_⟩
    · exact (List.take_eq_nil_iff.mp h).elim (by omega) hne
    · rwa [List.head?_take, if_neg (by omega)]
  rcases layout_cases d with ⟨h, -⟩ | ⟨h, hn⟩ | ⟨h, -⟩ | h <;> rw [h]
  · refine .inr ⟨fun h => hne (List.append_eq_nil_iff.mp h).1, ?_⟩
    rwa [List.head?_append_of_ne_nil _ hne]
  · exact htake _ (by omega)
  · exact .inl rfl
  · exact htake 1 (by decide)

/-- A layout is read back, -/
theorem readLayout_layout (d : ShortDecimal) :
    readLayout (layout d).text = some (layout d) :=
  readLayout_text (wholePart_layout d) (layout_digits d).1
    (layout_digits d).2

/-- Without a sign a numeral is read as it stands. -/
theorem readNumber_unsigned {cs : List Char} (h : cs.head? ≠ some '-') :
    readNumber cs = (readLayout cs).map (.num false) := by
  unfold readNumber
  split
  · exact (h rfl).elim
  · rfl

/-- and so is a number. -/
theorem readNumber_text (x : Number) :
    readNumber x.text = some (Leaf.num x).read := by
  cases x with
  | zero => rfl
  | decimal d =>
      have htext := text_decimal d []
      rw [List.append_nil, List.append_nil] at htext
      rw [htext]
      by_cases hneg : d.negative = true
      · rw [if_pos hneg, readNumber, readLayout_layout, Leaf.read, hneg]
        rfl
      · rw [if_neg hneg, readNumber_unsigned, readLayout_layout, Leaf.read]
        · rw [Bool.not_eq_true] at hneg
          rw [hneg]
          rfl
        · intro h
          obtain ⟨cs, hcs⟩ := List.head?_eq_some_iff.mp h
          exact layoutText_ne_minus d (r := [])
            (by rw [List.append_nil]; exact hcs)

-- ====================================================== reading tokens

/-- A character that ends no token. -/
theorem scan_of_feed {p q : Pending} {c : Char} (cs : List Char)
    (h : feed p c = some ([], q)) : scan p (c :: cs) = scan q cs := by
  rw [scan, h, Option.bind_some]
  exact Option.map_id' ..

/-- One that ends a token. -/
theorem scan_of_feed_token {p q : Pending} {c : Char} {t : Token}
    (cs : List Char) (h : feed p c = some ([t], q)) :
    scan p (c :: cs) = (scan q cs).map (t :: ·) := by
  rw [scan, h, Option.bind_some]
  rfl

/-- A backslash in a string. -/
theorem scan_backslash (s : JsString) (cs : List Char) :
    scan (.str s) (Json.backslash :: cs) = scan (.escape s) cs :=
  scan_of_feed cs rfl

/-- A letter after it. -/
theorem scan_letter {e c : Char} (s : JsString) (cs : List Char)
    (hu : e ≠ 'u') (h : escaped e = some c) :
    scan (.str s) (Json.backslash :: e :: cs)
      = scan (.str (s ++ (Point.char c).units)) cs := by
  rw [scan_backslash]
  apply scan_of_feed
  rw [feed, if_neg hu, h, Option.map_some]

/-- Four digits are a code unit. -/
theorem scan_code {a b c d : Char} {i j k l : ℕ} (s : JsString)
    (cs : List Char) (ha : digitValue a = some i)
    (hb : digitValue b = some j) (hc : digitValue c = some k)
    (hd : digitValue d = some l) :
    scan (.str s) (Json.backslash :: 'u' :: a :: b :: c :: d :: cs)
      = scan (.str (s ++ [UInt16.ofNat
          (16 * (16 * (16 * (16 * 0 + i) + j) + k) + l)])) cs := by
  rw [scan_backslash, scan_of_feed (q := .code s 0 3) _ rfl,
    scan_of_feed (q := .code s (16 * 0 + i) 2) _ (by rw [feed, ha]; rfl),
    scan_of_feed (q := .code s (16 * (16 * 0 + i) + j) 1) _
      (by rw [feed, hb]; rfl),
    scan_of_feed (q := .code s (16 * (16 * (16 * 0 + i) + j) + k) 0) _
      (by rw [feed, hc]; rfl)]
  apply scan_of_feed
  rw [feed, hd]
  rfl

/-- A character that stands for itself. -/
theorem scan_plain {c : Char} (s : JsString) (cs : List Char)
    (hquote : c ≠ Json.quoteMark) (hback : c ≠ Json.backslash)
    (hlow : ¬ c.toNat < 32) :
    scan (.str s) (c :: cs)
      = scan (.str (s ++ (Point.char c).units)) cs := by
  apply scan_of_feed
  rw [feed, if_neg hquote, if_neg hback, if_neg hlow]

/-- A character in a string is read back, -/
theorem scan_char (s : JsString) (c : Char) (cs : List Char) :
    scan (.str s) (Json.escape c ++ cs)
      = scan (.str (s ++ (Point.char c).units)) cs := by
  unfold Json.escape
  split
  · subst_vars
    exact scan_letter s cs (by decide) (by decide)
  split
  · subst_vars
    exact scan_letter s cs (by decide) (by decide)
  split
  · subst_vars
    exact scan_letter s cs (by decide) (by decide)
  split
  · subst_vars
    exact scan_letter s cs (by decide) (by decide)
  split
  · subst_vars
    exact scan_letter s cs (by decide) (by decide)
  split
  · subst_vars
    exact scan_letter s cs (by decide) (by decide)
  split
  · subst_vars
    exact scan_letter s cs (by decide) (by decide)
  split
  · have hhigh : digitValue (Nat.digitChar (c.toNat / 16))
        = some (c.toNat / 16) := digitValue_digitChar (by omega)
    have hlow : digitValue (Nat.digitChar (c.toNat % 16))
        = some (c.toNat % 16) := digitValue_digitChar (by omega)
    have hzero : digitValue '0' = some 0 := by decide
    have hunits : (Point.char c).units = [UInt16.ofNat c.toNat] := by
      rw [Point.units, codeUnits, if_pos (by omega), List.map_singleton]
    have hvalue : 16 * (16 * (16 * (16 * 0 + 0) + 0) + c.toNat / 16)
        + c.toNat % 16 = c.toNat := by omega
    refine (scan_code s cs hzero hzero hhigh hlow).trans ?_
    rw [hvalue, hunits]
  · rename_i hquote hback _ _ _ _ _ hlow
    exact scan_plain s cs hquote hback hlow

/-- so is a point, -/
theorem scan_point (s : JsString) (p : Point) (cs : List Char) :
    scan (.str s) (p.text ++ cs) = scan (.str (s ++ p.units)) cs := by
  cases p with
  | char c => exact scan_char s c cs
  | lone u h =>
      unfold IsHigh IsLow at h
      have hdigit : ∀ n : ℕ, digitValue (Nat.digitChar (n % 16))
          = some (n % 16) := fun n =>
        digitValue_digitChar (Nat.mod_lt n (by decide))
      have hd : digitValue 'd' = some 13 := by decide
      have hvalue : 16 * (16 * (16 * (16 * 0 + 13) + u.toNat / 256 % 16)
          + u.toNat / 16 % 16) + u.toNat % 16 = u.toNat := by omega
      refine (scan_code s cs hd (hdigit (u.toNat / 256))
        (hdigit (u.toNat / 16)) (hdigit u.toNat)).trans ?_
      rw [hvalue, UInt16.ofNat_toNat]
      rfl

/-- and so are points. -/
theorem scan_points (s : JsString) (ps : List Point) (cs : List Char) :
    scan (.str s) (ps.flatMap Point.text ++ cs)
      = scan (.str (s ++ ps.flatMap Point.units)) cs := by
  induction ps generalizing s with
  | nil => rw [List.flatMap_nil, List.flatMap_nil, List.append_nil]; rfl
  | cons p ps ih =>
      rw [List.flatMap_cons, List.flatMap_cons, List.append_assoc,
        scan_point, ih, List.append_assoc]

/-- A string is one token. -/
theorem scan_quote (s : JsString) (cs : List Char) :
    scan .idle (quote s ++ cs)
      = (scan .idle cs).map (Token.scalar (.str s) :: ·) := by
  rw [quote, List.cons_append, List.append_assoc,
    scan_of_feed (q := .str []) _ rfl, scan_points, flatMap_units_points,
    List.nil_append]
  exact scan_of_feed_token cs rfl

/-- No character of a word ends it. -/
theorem scan_word {w : List Char} (hw : ∀ c ∈ w, endsWord c = false)
    (v cs : List Char) :
    scan (.word v) (w ++ cs) = scan (.word (v ++ w)) cs := by
  induction w generalizing v with
  | nil => rw [List.nil_append, List.append_nil]
  | cons c w ih =>
      obtain ⟨hc, hw⟩ := List.forall_mem_cons.mp hw
      have hfeed : feed (.word v) c = some ([], .word (v ++ [c])) := by
        rw [feed, hc]
        rfl
      rw [List.cons_append, scan_of_feed _ hfeed, ih hw,
        List.append_assoc, List.singleton_append]

/-- Any other character begins a word. -/
theorem start_of_not_endsWord {c : Char} (h : endsWord c = false) :
    start c = ([], .word [c]) := by
  simp only [endsWord, Bool.or_eq_false_iff, decide_eq_false_iff_not,
    Option.isSome_eq_false_iff, Option.isNone_iff_eq_none] at h
  obtain ⟨⟨hblank, hpunctuation⟩, hquote⟩ := h
  rw [start, hblank, hpunctuation, if_neg Bool.false_ne_true]
  exact if_neg hquote

/-- A word is one token, before what may follow a value. -/
theorem scan_readWord {w : List Char} {a : Scalar} (hne : w ≠ [])
    (hw : ∀ c ∈ w, endsWord c = false) (hread : readWord w = some a)
    {cs : List Char} (hcs : Ends cs) :
    scan .idle (w ++ cs)
      = (scan .idle cs).map (Token.scalar a :: ·) := by
  cases w with
  | nil => exact (hne rfl).elim
  | cons c w =>
      obtain ⟨hc, hw⟩ := List.forall_mem_cons.mp hw
      have hstart : feed .idle c = some ([], .word [c]) := by
        rw [feed, start_of_not_endsWord hc]
      rw [List.cons_append, scan_of_feed _ hstart, scan_word hw,
        List.singleton_append]
      cases cs with
      | nil =>
          show (readWord (c :: w)).map (fun a => [Token.scalar a]) = _
          rw [hread]
          rfl
      | cons d cs =>
          have hends : endsWord d = true := by
            rcases hcs d rfl with rfl | rfl | rfl <;> rfl
          rw [scan, scan, feed, feed, hends, if_pos rfl, hread,
            Option.map_some, Option.bind_some, Option.bind_some,
            Option.map_map]
          rfl

/-- A digit is in a word, -/
theorem endsWord_digit {c : Char} (h : c.isDigit = true) :
    endsWord c = false := by
  have hne : ∀ d : Char, d.isDigit = false → c ≠ d := by
    rintro d hd rfl
    rw [h] at hd
    cases hd
  simp only [endsWord, isBlank, punctuation, if_neg (hne '[' rfl),
    if_neg (hne ']' rfl), if_neg (hne '\x7b' rfl),
    if_neg (hne '\x7d' rfl), if_neg (hne ',' rfl), if_neg (hne ':' rfl),
    decide_eq_false (hne ' ' rfl), decide_eq_false (hne '\x09' rfl),
    decide_eq_false (hne '\x0a' rfl), decide_eq_false (hne '\x0d' rfl),
    decide_eq_false (hne Json.quoteMark rfl), Option.isSome_none,
    Bool.or_false]

/-- A numeral has no character that ends a word. -/
theorem endsWord_layout {l : Layout}
    (hwhole : ∀ c ∈ l.whole, c.isDigit = true)
    (hfraction : ∀ c ∈ l.fraction, c.isDigit = true) :
    ∀ c ∈ l.text, endsWord c = false := by
  have hsign : ∀ e : ℤ, endsWord (Number.sign e) = false := by
    intro e
    unfold Number.sign
    split <;> rfl
  obtain ⟨w, f, x⟩ := l
  intro c hc
  rcases List.mem_append.mp hc with hc | hc
  · exact endsWord_digit (hwhole c hc)
  rcases List.mem_append.mp hc with hc | hc
  · cases f with
    | nil => cases hc
    | cons d f =>
        rcases List.mem_cons.mp hc with rfl | hc
        · rfl
        · exact endsWord_digit (hfraction c hc)
  · cases x with
    | none => cases hc
    | some e =>
        rcases List.mem_cons.mp hc with rfl | hc
        · rfl
        rcases List.mem_cons.mp hc with rfl | hc
        · exact hsign e
        · exact endsWord_digit (toDigits_digits _ c hc)

/-- and so is all of a number. -/
theorem endsWord_number (x : Number) :
    ∀ c ∈ x.text, endsWord c = false := by
  cases x with
  | zero =>
      intro c hc
      rw [List.mem_singleton.mp hc]
      rfl
  | decimal d =>
      intro c hc
      rcases List.mem_append.mp hc with hc | hc
      · by_cases hneg : d.negative = true
        · rw [if_pos hneg] at hc
          rw [List.mem_singleton.mp hc]
          rfl
        · rw [if_neg hneg] at hc
          cases hc
      · exact endsWord_layout (layout_digits d).1 (layout_digits d).2 c hc

/-- A number is read from its word. -/
theorem readWord_number (x : Number) :
    readWord x.text = some (Leaf.num x).read := by
  have hword : ∀ {c : Char} {cs : List Char},
      (c ≠ '-' ∧ ¬ c.isDigit = true) → x.text ≠ c :: cs := by
    intro c cs hc h
    exact num_ne (r := []) hc (by rw [List.append_nil]; exact h)
  rw [readWord, if_neg (hword (by decide)), if_neg (hword (by decide)),
    if_neg (hword (by decide))]
  exact readNumber_text x

/-- The letters of a word, looked at one by one. -/
theorem plain_word {w : List Char} (h : w.all (!endsWord ·) = true) :
    ∀ c ∈ w, endsWord c = false := by
  intro c hc
  exact Bool.not_eq_true' _ ▸ List.all_eq_true.mp h c hc

/-- A leaf is one token. -/
theorem scan_leaf (a : Leaf) {cs : List Char} (hcs : Ends cs) :
    scan .idle (a.text ++ cs)
      = (scan .idle cs).map (Token.scalar a.read :: ·) := by
  cases a with
  | null => exact scan_readWord (by decide) (plain_word rfl) rfl hcs
  | bool b =>
      cases b
      · exact scan_readWord (by decide) (plain_word rfl) rfl hcs
      · exact scan_readWord (by decide) (plain_word rfl) rfl hcs
  | num x =>
      refine scan_readWord ?_ (endsWord_number x) (readWord_number x) hcs
      intro h
      obtain ⟨c, hc, -⟩ := x.text_opens []
      rw [show x.text = [] from h] at hc
      cases hc
  | str s => exact scan_quote s cs

-- ================================================= the tokens of a value

/-- The lists with commas between them. -/
def commas : List (List Token) → List Token
  | [] => []
  | t :: ts => t ++ ts.flatMap (Token.comma :: ·)

mutual

/-- The tokens of a value's text. -/
def tokens : Value → List Token
  | .leaf a => [.scalar a.read]
  | .arr items => .openItems :: (commas (tokensItems items) ++ [.closeItems])
  | .obj fields =>
      .openFields :: (commas (tokensFields fields) ++ [.closeFields])

/-- The tokens of an array's items. -/
def tokensItems : List Value → List (List Token)
  | [] => []
  | v :: items => tokens v :: tokensItems items

/-- The tokens of an object's fields. -/
def tokensFields : List (JsString × Value) → List (List Token)
  | [] => []
  | (k, v) :: fields =>
      (.scalar (.str k) :: .colon :: tokens v) :: tokensFields fields

end

/-- The tokens of a field. -/
def tokensField (f : JsString × Value) : List Token :=
  .scalar (.str f.1) :: .colon :: tokens f.2

/-- Cutting items is a map over them. -/
theorem tokensItems_eq (items : List Value) :
    tokensItems items = items.map tokens := by
  induction items with
  | nil => rfl
  | cons v items ih => rw [tokensItems, ih, List.map_cons]

/-- Cutting fields is a map over them. -/
theorem tokensFields_eq (fields : List (JsString × Value)) :
    tokensFields fields = fields.map tokensField := by
  induction fields with
  | nil => rfl
  | cons f fields ih => rw [tokensFields, ih, List.map_cons, tokensField]

/-- The tokens of an array. -/
theorem tokens_arr (items : List Value) : tokens (.arr items)
    = .openItems :: (commas (items.map tokens) ++ [.closeItems]) := by
  rw [tokens, tokensItems_eq]

/-- The tokens of an object. -/
theorem tokens_obj (fields : List (JsString × Value)) :
    tokens (.obj fields)
      = .openFields
        :: (commas (fields.map tokensField) ++ [.closeFields]) := by
  rw [tokens, tokensFields_eq]

/-- A text is cut into the given tokens, before what may follow it. -/
def Scans (text : List Char) (ts : List Token) : Prop :=
  ∀ r, Ends r → scan .idle (text ++ r) = (scan .idle r).map (ts ++ ·)

/-- The rest of a list is scanned part by part. -/
theorem scan_rest {β : Type} {text : β → List Char} {ts : β → List Token}
    {xs : List β} (h : ∀ x ∈ xs, Scans (text x) (ts x)) {close : Char}
    (hclose : close = ']' ∨ close = '\x7d') (r : List Char) :
    scan .idle ((xs.map text).flatMap (',' :: ·) ++ close :: r)
      = (scan .idle (close :: r)).map
          ((xs.map ts).flatMap (Token.comma :: ·) ++ ·) := by
  induction xs with
  | nil => exact (Option.map_id' ..).symm
  | cons x xs ih =>
      obtain ⟨hx, hxs⟩ := List.forall_mem_cons.mp h
      rw [List.map_cons, List.map_cons, List.flatMap_cons,
        List.flatMap_cons, List.append_assoc, List.cons_append,
        scan_of_feed_token (t := .comma) (q := .idle) _ rfl,
        hx _ (ends_rest text xs hclose r), ih hxs, Option.map_map,
        Option.map_map]
      congr 1
      funext l
      simp

/-- A list of texts and the tokens of its entries. -/
theorem scan_join {β : Type} {text : β → List Char} {ts : β → List Token}
    {xs : List β} (h : ∀ x ∈ xs, Scans (text x) (ts x)) {close : Char}
    (hclose : close = ']' ∨ close = '\x7d') (r : List Char) :
    scan .idle (join (xs.map text) ++ close :: r)
      = (scan .idle (close :: r)).map (commas (xs.map ts) ++ ·) := by
  cases xs with
  | nil => exact (Option.map_id' ..).symm
  | cons x xs =>
      obtain ⟨hx, hxs⟩ := List.forall_mem_cons.mp h
      rw [List.map_cons, List.map_cons, join, commas, List.append_assoc,
        hx _ (ends_rest text xs hclose r), scan_rest hxs hclose,
        Option.map_map]
      congr 1
      funext l
      simp

/-- A value's text is cut into its tokens. -/
theorem scan_write (v : Value) : Scans (write texts v) (tokens v) := by
  induction v using Tree.induct with
  | leaf a =>
      intro r hr
      exact scan_leaf a hr
  | arr items ih =>
      intro r hr
      rw [write_arr, tokens_arr,
        scan_of_feed_token (t := .openItems) (q := .idle) _ rfl,
        scan_join ih (.inl rfl),
        scan_of_feed_token (t := .closeItems) (q := .idle) _ rfl,
        Option.map_map, Option.map_map]
      congr 1
      funext l
      simp
  | obj fields ih =>
      have hfield : ∀ f ∈ fields,
          Scans (writeField texts f) (tokensField f) := by
        intro f hf r hr
        have hkey : texts.key f.1 = quote f.1 := rfl
        rw [writeField, hkey, List.append_assoc, scan_quote,
          List.cons_append,
          scan_of_feed_token (t := .colon) (q := .idle) _ rfl, ih f hf r hr,
          Option.map_map, Option.map_map]
        rfl
      intro r hr
      rw [write_obj, tokens_obj,
        scan_of_feed_token (t := .openFields) (q := .idle) _ rfl,
        scan_join hfield (.inr rfl),
        scan_of_feed_token (t := .closeFields) (q := .idle) _ rfl,
        Option.map_map, Option.map_map]
      congr 1
      funext l
      simp

-- =============================================================== keys

section Keys

variable {β : Type _}

/-- No keys are proper keys. -/
theorem properKeys_nil : ProperKeys arrayIndex [] :=
  ⟨List.nodup_nil, .nil⟩

/-- Nor do fewer get in each other's way. -/
theorem properKeys_sublist {keys keys' : List JsString}
    (h : ProperKeys arrayIndex keys) (hsub : keys'.Sublist keys) :
    ProperKeys arrayIndex keys' :=
  ⟨h.nodup.sublist hsub, h.ordered.sublist hsub⟩

/-- A key that comes where JavaScript lists it is put there. -/
theorem put_append {fields : List (JsString × β)} {k : JsString} (v : β)
    (h : ProperKeys arrayIndex (fields.map Prod.fst ++ [k])) :
    put fields k v = fields ++ [(k, v)] := by
  have hnew : k ∉ fields.map Prod.fst := fun hk =>
    (List.nodup_append.mp h.nodup).2.2 k hk k (List.mem_singleton_self k)
      rfl
  have hlast : ∀ f ∈ fields, (!decide (Before arrayIndex k f.1)) = true := by
    intro f hf
    have hordered := (List.pairwise_append.mp h.ordered).2.2 f.1
      (List.mem_map_of_mem hf) k (List.mem_singleton_self k)
    rw [decide_eq_false hordered]
    rfl
  rw [put, if_neg hnew, List.takeWhile_eq_self_iff.mpr hlast,
    List.dropWhile_eq_nil_iff.mpr hlast]

/-- What is put is found by its key alone. -/
theorem put_map {γ : Type _} (g : β → γ) (fields : List (JsString × β))
    (k : JsString) (v : β) :
    (put fields k v).map (fun f => (f.1, g f.2))
      = put (fields.map fun f => (f.1, g f.2)) k (g v) := by
  have hkeys : (fields.map fun f => (f.1, g f.2)).map Prod.fst
      = fields.map Prod.fst := by
    rw [List.map_map]
    rfl
  unfold put
  rw [hkeys]
  split
  · rw [List.map_map, List.map_map]
    refine List.map_congr_left fun f _ => ?_
    simp only [Function.comp_apply]
    split <;> rfl
  · rw [List.map_append, List.map_cons, List.takeWhile_map,
      List.dropWhile_map]
    rfl

/-- Putting fields with other values. -/
theorem puts_map {γ : Type _} (g : β → γ) (fields : List (JsString × β)) :
    (puts fields).map (fun f => (f.1, g f.2))
      = puts (fields.map fun f => (f.1, g f.2)) := by
  induction fields using List.reverseRecOn with
  | nil => rfl
  | append_singleton fields f ih =>
      unfold puts at ih ⊢
      rw [List.foldl_append, List.map_append, List.foldl_append, ← ih]
      exact put_map g _ f.1 f.2

/-- Keys in JavaScript's order are listed as they come. -/
theorem puts_of_proper {fields : List (JsString × β)}
    (h : ProperKeys arrayIndex (fields.map Prod.fst)) :
    puts fields = fields := by
  induction fields using List.reverseRecOn with
  | nil => rfl
  | append_singleton fields f ih =>
      rw [List.map_append] at h
      have hfields := ih (properKeys_sublist h (List.sublist_append_left ..))
      unfold puts at hfields ⊢
      rw [List.foldl_append, hfields]
      exact put_append f.2 h

end Keys

-- ============================================================ building

/-- One token more. -/
theorem foldlM_step {p q : State} {t : Token} (ts : List Token)
    (h : step p t = some q) :
    (t :: ts).foldlM step p = ts.foldlM step q := by
  rw [List.foldlM_cons, h]
  rfl

/-- The tokens build the value, whatever is open around it. -/
def Builds (ts : List Token) (v : Parsed) : Prop :=
  ∀ st r, (ts ++ r).foldlM step (.value st) = r.foldlM step (.after v st)

/-- The rest of an array is built item by item, -/
theorem build_items {xs : List Value}
    (h : ∀ x ∈ xs, Builds (tokens x) (read (listed x))) (v : Parsed)
    (done : List Parsed) (st : List Frame) (r : List Token) :
    ((xs.map tokens).flatMap (Token.comma :: ·)
        ++ Token.closeItems :: r).foldlM step (.after v (.items done :: st))
      = r.foldlM step
          (.after (.arr (done ++ v :: xs.map (read ∘ listed))) st) := by
  induction xs generalizing v done with
  | nil => exact foldlM_step r rfl
  | cons x xs ih =>
      obtain ⟨hx, hxs⟩ := List.forall_mem_cons.mp h
      rw [List.map_cons, List.flatMap_cons, List.append_assoc,
        List.cons_append,
        foldlM_step (q := .value (.items (done ++ [v]) :: st)) _ rfl, hx,
        ih hxs, List.append_assoc, List.map_cons, List.singleton_append]
      rfl

/-- A value that begins after a bracket is the first item. -/
theorem firstItem_tokens (v : Value) (st : List Frame) (r : List Token) :
    (tokens v ++ r).foldlM step (.firstItem st)
      = (tokens v ++ r).foldlM step (.value (.items [] :: st)) := by
  cases v with
  | leaf a => rfl
  | arr items => rw [tokens_arr]; rfl
  | obj fields => rw [tokens_obj]; rfl

/-- the rest of an object field by field. -/
theorem build_fields {fields : List (JsString × Value)}
    (h : ∀ f ∈ fields, Builds (tokens f.2) (read (listed f.2)))
    (k : JsString) (v : Parsed) (done : List (JsString × Parsed))
    (st : List Frame) (r : List Token) :
    ((fields.map tokensField).flatMap (Token.comma :: ·)
        ++ Token.closeFields :: r).foldlM step
          (.after v (.fields done k :: st))
      = r.foldlM step (.after (.obj (fields.foldl
          (fun done f => put done f.1 (read (listed f.2)))
          (put done k v))) st) := by
  induction fields generalizing k v done with
  | nil => exact foldlM_step r rfl
  | cons f fields ih =>
      obtain ⟨hf, hfields⟩ := List.forall_mem_cons.mp h
      rw [List.map_cons, List.flatMap_cons, List.append_assoc,
        List.cons_append,
        foldlM_step (q := .field (put done k v) st) _ rfl, tokensField,
        List.cons_append,
        foldlM_step (q := .colon (put done k v) f.1 st) _ rfl,
        List.cons_append,
        foldlM_step (q := .value (.fields (put done k v) f.1 :: st)) _ rfl,
        hf, ih hfields, List.foldl_cons]

/-- The object that is built has each key once, where it first stood. -/
theorem read_listed_obj (fields : List (JsString × Value)) :
    read (listed (.obj fields)) = .obj (fields.foldl
      (fun done f => put done f.1 (read (listed f.2))) []) := by
  have hmap := puts_map read (fields.map fun f => (f.1, listed f.2))
  rw [List.map_map] at hmap
  rw [listed_obj, read_obj]
  show Tree.obj ((puts _).map fun f => (f.1, read f.2)) = _
  rw [hmap, puts, List.foldl_map]
  rfl

/-- The tokens of a value build it, with its objects as they are listed. -/
theorem build_tokens (v : Value) :
    Builds (tokens v) (read (listed v)) := by
  induction v using Tree.induct with
  | leaf a =>
      intro st r
      exact foldlM_step r rfl
  | arr items ih =>
      intro st r
      rw [tokens_arr, listed_arr, read_arr, List.map_map, List.cons_append,
        List.append_assoc, foldlM_step (q := .firstItem st) _ rfl]
      cases items with
      | nil => exact foldlM_step r rfl
      | cons x xs =>
          obtain ⟨hx, hxs⟩ := List.forall_mem_cons.mp ih
          rw [List.map_cons, commas, List.append_assoc, firstItem_tokens,
            hx]
          exact build_items hxs (read (listed x)) [] st r
  | obj fields ih =>
      intro st r
      rw [tokens_obj, read_listed_obj, List.cons_append, List.append_assoc,
        foldlM_step (q := .field [] st) _ rfl]
      cases fields with
      | nil => exact foldlM_step r rfl
      | cons f fields =>
          obtain ⟨hf, hrest⟩ := List.forall_mem_cons.mp ih
          rw [List.map_cons, commas, tokensField, List.append_assoc,
            List.cons_append,
            foldlM_step (q := .colon [] f.1 st) _ rfl, List.cons_append,
            foldlM_step (q := .value (.fields [] f.1 :: st)) _ rfl, hf]
          exact build_fields hrest f.1 (read (listed f.2)) [] st r

/-- What is written is parsed, whatever its keys. -/
theorem parse_text (v : Value) :
    parse (write texts v) = some (read (listed v)) := by
  have hscan := scan_write v [] ends_nil
  have hbuild := build_tokens v [] []
  rw [List.append_nil] at hscan hbuild
  rw [parse, hscan]
  show (some (tokens v ++ [])).bind (build (.value [])) = _
  rw [List.append_nil, Option.bind_some, build, hbuild]
  rfl

/-- A value with proper keys is listed as it is. -/
theorem listed_of_proper {v : Value}
    (h : v.AllKeys (ProperKeys arrayIndex)) : listed v = v := by
  induction v using Tree.induct with
  | leaf a => rfl
  | arr items ih =>
      have hitems : items.map listed = items.map id :=
        List.map_congr_left fun x hx => ih x hx ((allKeys_arr.mp h).2 x hx)
      rw [listed_arr, hitems, List.map_id]
  | obj fields ih =>
      obtain ⟨hkeys, hvalues⟩ := allKeys_obj.mp h
      have hfields : (fields.map fun f => (f.1, listed f.2))
          = fields.map id :=
        List.map_congr_left fun f hf =>
          Prod.ext rfl (ih f hf (hvalues f hf))
      rw [listed_obj, hfields, List.map_id, puts_of_proper hkeys]

/-- What `JSON.stringify` writes is parsed back. -/
theorem parse_write (v : JsonValue) :
    parse (write texts v.tree) = some (read v.tree) := by
  rw [parse_text, listed_of_proper v.proper]

end Lumix.Js
