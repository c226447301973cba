/-
Finite numbers and the decimals they are written as.

A number other than zero is written with the fewest digits that tell it
from the others: a significand that does not end in a zero, and the
place of the point. `layout` is the text of that decimal, with zeros, a
point or an exponent as `Number.prototype.toString` chooses them. A
number can be read back from its text, and the text ends before any
character that is no part of a numeral (`text_inj`).
-/
import Mathlib.Data.Nat.Basic
import Mathlib.Tactic.Common
import Mathlib.Tactic.Ring
import Mathlib.Tactic.Positivity

namespace Lumix

/-- `0.d₁d₂… · 10 ^ point`, for the digits of the significand. -/
@[ext]
structure ShortDecimal where
  negative : Bool
  significand : ℕ
  point : ℤ
  canonical : significand % 10 ≠ 0
deriving DecidableEq

/-- Zero has one sign. -/
inductive Number
  | zero
  | decimal (d : ShortDecimal)
deriving DecidableEq

/-- The digits of the significand. -/
def ShortDecimal.digits (d : ShortDecimal) : List Char :=
  Nat.toDigits 10 d.significand

namespace Number

-- ============================================================ layouts

/-- A numeral: its digits before and after the point, and its exponent. -/
structure Layout where
  whole : List Char
  fraction : List Char
  exponent : Option ℤ

/-- The sign that is written before an exponent. -/
def sign (e : ℤ) : Char := if e < 0 then '-' else '+'

/-- An exponent, if there is one. -/
def exponentText : Option ℤ → List Char
  | none => []
  | some e => 'e' :: sign e :: Nat.toDigits 10 e.natAbs

/-- A fraction, if there is one. -/
def fractionText : List Char → List Char
  | [] => []
  | c :: cs => '.' :: c :: cs

/-- The three parts in a row. -/
def Layout.text (l : Layout) : List Char :=
  l.whole ++ (fractionText l.fraction ++ exponentText l.exponent)

/-- `Number::toString`, without the sign -/
def layout (d : ShortDecimal) : Layout :=
  if d.digits.length ≤ d.point ∧ d.point ≤ 21 then
    ⟨d.digits ++ List.replicate (d.point.toNat - d.digits.length) '0', [],
      none⟩
  else if 0 < d.point ∧ d.point ≤ 21 then
    ⟨d.digits.take d.point.toNat, d.digits.drop d.point.toNat, none⟩
  else if -6 < d.point ∧ d.point ≤ 0 then
    ⟨['0'], List.replicate (-d.point).toNat '0' ++ d.digits, none⟩
  else ⟨d.digits.take 1, d.digits.drop 1, some (d.point - 1)⟩

/-- A number's text. -/
def text : Number → List Char
  | .zero => ['0']
  | .decimal d => (if d.negative then ['-'] else []) ++ (layout d).text

-- ============================================================ reading

/-- No digit comes first. -/
def NoDigit (r : List Char) : Prop := ∀ c ∈ r.head?, ¬ c.isDigit = true

/-- What may follow a numeral. -/
def Stops (r : List Char) : Prop :=
  ∀ c ∈ r.head?, ¬ c.isDigit = true ∧ c ≠ '.' ∧ c ≠ 'e'

/-- Digits end at the first character that is none. -/
theorem digits_inj {cs cs' r r' : List Char}
    (hcs : ∀ c ∈ cs, c.isDigit = true) (hcs' : ∀ c ∈ cs', c.isDigit = true)
    (hr : NoDigit r) (hr' : NoDigit r') (h : cs ++ r = cs' ++ r') :
    cs = cs' ∧ r = r' := by
  induction cs generalizing cs' with
  | nil =>
      cases cs' with
      | nil => exact ⟨rfl, h⟩
      | cons c cs' =>
          rw [List.nil_append] at h
          exact (hr c (by rw [h]; rfl) (hcs' c List.mem_cons_self)).elim
  | cons c cs ih =>
      cases cs' with
      | nil =>
          rw [List.nil_append] at h
          exact (hr' c (by rw [← h]; rfl) (hcs c List.mem_cons_self)).elim
      | cons c' cs' =>
          obtain ⟨rfl, htail⟩ := List.cons.inj h
          obtain ⟨rfl, hrr⟩ :=
            ih (fun c hc => hcs c (List.mem_cons_of_mem _ hc))
              (fun c hc => hcs' c (List.mem_cons_of_mem _ hc)) htail
          exact ⟨rfl, hrr⟩

/-- Numerals are of digits. -/
theorem toDigits_digits (n : ℕ) :
    ∀ c ∈ Nat.toDigits 10 n, c.isDigit = true := fun _ hc =>
  Nat.isDigit_of_mem_toDigits (by decide) (by decide) hc

/-- What a number stops at is no digit, -/
theorem noDigit_of_stops {r : List Char} (h : Stops r) : NoDigit r :=
  fun c hc => (h c hc).1

/-- nor is any other such character, -/
theorem noDigit_cons {c : Char} (h : ¬ c.isDigit = true) (r : List Char) :
    NoDigit (c :: r) := by
  intro d hd
  rw [List.head?_cons, Option.mem_some_iff] at hd
  exact hd ▸ h

/-- an exponent -/
theorem noDigit_exponent (x : Option ℤ) {r : List Char} (hr : Stops r) :
    NoDigit (exponentText x ++ r) := by
  cases x with
  | none => exact noDigit_of_stops hr
  | some e => exact noDigit_cons (by decide) _

/-- or a fraction. -/
theorem noDigit_fraction (f : List Char) (x : Option ℤ) {r : List Char}
    (hr : Stops r) : NoDigit (fractionText f ++ (exponentText x ++ r)) := by
  cases f with
  | nil => exact noDigit_exponent x hr
  | cons c cs => exact noDigit_cons (by decide) _

/-- A number is its sign and its size. -/
theorem sign_inj {e e' : ℤ} (hsign : sign e = sign e')
    (habs : e.natAbs = e'.natAbs) : e = e' := by
  unfold sign at hsign
  by_cases he : e < 0 <;> by_cases he' : e' < 0
  · omega
  · simp [he, he'] at hsign
  · simp [he, he'] at hsign
  · omega

/-- An exponent is read up to where the number stops. -/
theorem exponentText_inj {x x' : Option ℤ} {r r' : List Char}
    (hr : Stops r) (hr' : Stops r')
    (h : exponentText x ++ r = exponentText x' ++ r') : x = x' ∧ r = r' := by
  cases x with
  | none =>
      cases x' with
      | none => exact ⟨rfl, h⟩
      | some e =>
          have hhead : 'e' ∈ r.head? := by
            rw [show r = _ from h]
            rfl
          exact ((hr _ hhead).2.2 rfl).elim
  | some e =>
      cases x' with
      | none =>
          have hhead : 'e' ∈ r'.head? := by
            rw [← show _ = r' from h]
            rfl
          exact ((hr' _ hhead).2.2 rfl).elim
      | some e' =>
          obtain ⟨hsign, hdigits⟩ :=
            List.cons.inj (List.tail_eq_of_cons_eq h)
          obtain ⟨habs, hrr⟩ := digits_inj (toDigits_digits _)
            (toDigits_digits _) (noDigit_of_stops hr)
            (noDigit_of_stops hr') hdigits
          have hread := congrArg (Nat.ofDigitChars 10 · 0) habs
          simp only [Nat.ofDigitChars_ten_toDigits] at hread
          exact ⟨congrArg some (sign_inj hsign hread), hrr⟩

/-- It begins with no point. -/
theorem head?_exponent_ne (x : Option ℤ) {r : List Char} (hr : Stops r) :
    (exponentText x ++ r).head? ≠ some '.' := by
  cases x with
  | none => exact fun h => (hr '.' h).2.1 rfl
  | some e => exact fun h => absurd (Option.some.inj h) (by decide)

/-- A layout of digits is read back from its text. -/
theorem layoutText_inj {l l' : Layout} {r r' : List Char}
    (hwhole : ∀ c ∈ l.whole, c.isDigit = true)
    (hwhole' : ∀ c ∈ l'.whole, c.isDigit = true)
    (hfraction : ∀ c ∈ l.fraction, c.isDigit = true)
    (hfraction' : ∀ c ∈ l'.fraction, c.isDigit = true)
    (hr : Stops r) (hr' : Stops r') (h : l.text ++ r = l'.text ++ r') :
    l = l' ∧ r = r' := by
  obtain ⟨w, f, x⟩ := l
  obtain ⟨w', f', x'⟩ := l'
  simp only [Layout.text, List.append_assoc] at h
  obtain ⟨rfl, hrest⟩ := digits_inj hwhole hwhole'
    (noDigit_fraction f x hr) (noDigit_fraction f' x' hr') h
  have hfx : f = f' ∧ exponentText x ++ r = exponentText x' ++ r' := by
    cases f with
    | nil =>
        cases f' with
        | nil => exact ⟨rfl, hrest⟩
        | cons c' cs' =>
            exact (head?_exponent_ne x hr (congrArg List.head? hrest)).elim
    | cons c cs =>
        cases f' with
        | nil =>
            exact (head?_exponent_ne x' hr'
              (congrArg List.head? hrest).symm).elim
        | cons c' cs' =>
            exact digits_inj hfraction hfraction' (noDigit_exponent x hr)
              (noDigit_exponent x' hr') (List.tail_eq_of_cons_eq hrest)
  obtain ⟨rfl, hexponent⟩ := hfx
  obtain ⟨rfl, hrr⟩ := exponentText_inj hr hr' hexponent
  exact ⟨rfl, hrr⟩

-- ========================================================== the value

/-- The digits of a layout, as one number. -/
def Layout.value (l : Layout) : ℕ :=
  Nat.ofDigitChars 10 (l.whole ++ l.fraction) 0

/-- The power of ten the value is taken at. -/
def Layout.scale (l : Layout) : ℤ :=
  l.exponent.getD 0 - l.fraction.length

/-- The four layouts. -/
theorem layout_cases (d : ShortDecimal) :
    (layout d = ⟨d.digits
          ++ List.replicate (d.point.toNat - d.digits.length) '0', [], none⟩
        ∧ d.digits.length ≤ d.point)
      ∨ (layout d = ⟨d.digits.take d.point.toNat,
            d.digits.drop d.point.toNat, none⟩
          ∧ 0 < d.point ∧ d.point < d.digits.length)
      ∨ (layout d = ⟨['0'], List.replicate (-d.point).toNat '0' ++ d.digits,
            none⟩
          ∧ d.point ≤ 0)
      ∨ layout d = ⟨d.digits.take 1, d.digits.drop 1, some (d.point - 1)⟩ := by
  unfold layout
  by_cases hlong : d.digits.length ≤ d.point ∧ d.point ≤ 21
  · rw [if_pos hlong]
    exact .inl ⟨rfl, hlong.1⟩
  rw [if_neg hlong]
  by_cases hinner : 0 < d.point ∧ d.point ≤ 21
  · rw [if_pos hinner]
    exact .inr (.inl ⟨rfl, hinner.1, by omega⟩)
  rw [if_neg hinner]
  by_cases hsmall : -6 < d.point ∧ d.point ≤ 0
  · rw [if_pos hsmall]
    exact .inr (.inr (.inl ⟨rfl, hsmall.2⟩))
  · rw [if_neg hsmall]
    exact .inr (.inr (.inr rfl))

/-- Zeros are digits. -/
theorem replicate_digits {n : ℕ} {c : Char}
    (h : c ∈ List.replicate n '0') : c.isDigit = true := by
  rw [List.eq_of_mem_replicate h]
  rfl

/-- Both parts of a layout are of digits. -/
theorem layout_digits (d : ShortDecimal) :
    (∀ c ∈ (layout d).whole, c.isDigit = true)
      ∧ ∀ c ∈ (layout d).fraction, c.isDigit = true := by
  have hdigits := toDigits_digits d.significand
  rcases layout_cases d with ⟨h, -⟩ | ⟨h, -⟩ | ⟨h, -⟩ | h <;> rw [h]
  · exact ⟨fun c hc => (List.mem_append.mp hc).elim (hdigits c)
      replicate_digits, fun c hc => (List.not_mem_nil hc).elim⟩
  · exact ⟨fun c hc => hdigits c (List.mem_of_mem_take hc),
      fun c hc => hdigits c (List.mem_of_mem_drop hc)⟩
  · refine ⟨fun c hc => ?_, fun c hc => (List.mem_append.mp hc).elim
      replicate_digits (hdigits c)⟩
    rw [List.mem_singleton.mp hc]
    rfl
  · exact ⟨fun c hc => hdigits c (List.mem_of_mem_take hc),
      fun c hc => hdigits c (List.mem_of_mem_drop hc)⟩

/-- The digits are read as the significand. -/
theorem ofDigitChars_digits (d : ShortDecimal) :
    Nat.ofDigitChars 10 d.digits 0 = d.significand :=
  Nat.ofDigitChars_ten_toDigits

/-- The text spells the decimal, with zeros behind its digits. -/
theorem layout_value (d : ShortDecimal) : ∃ zeros : ℕ,
    (layout d).value = d.significand * 10 ^ zeros
      ∧ (layout d).scale = d.point - d.digits.length - zeros := by
  have hpos : 0 < d.digits.length := Nat.length_toDigits_pos
  rcases layout_cases d with ⟨h, hn⟩ | ⟨h, hn⟩ | ⟨h, hn⟩ | h <;> rw [h]
  · refine ⟨d.point.toNat - d.digits.length, ?_, ?_⟩
    · rw [Layout.value, List.append_nil, Nat.ofDigitChars_append,
        Nat.ofDigitChars_replicate_zero, ofDigitChars_digits, Nat.mul_comm]
    · simp only [Layout.scale, Option.getD_none, List.length_nil]
      omega
  · refine ⟨0, ?_, ?_⟩
    · rw [Layout.value, List.take_append_drop, ofDigitChars_digits,
        Nat.pow_zero, Nat.mul_one]
    · simp only [Layout.scale, Option.getD_none, List.length_drop]
      omega
  · refine ⟨0, ?_, ?_⟩
    · rw [Layout.value, Nat.ofDigitChars_append, Nat.ofDigitChars_append,
        Nat.ofDigitChars_replicate_zero]
      show Nat.ofDigitChars 10 d.digits (_ * 0) = _
      rw [Nat.mul_zero, ofDigitChars_digits, Nat.pow_zero, Nat.mul_one]
    · simp only [Layout.scale, Option.getD_none, List.length_append,
        List.length_replicate]
      omega
  · refine ⟨0, ?_, ?_⟩
    · rw [Layout.value, List.take_append_drop, ofDigitChars_digits,
        Nat.pow_zero, Nat.mul_one]
    · simp only [Layout.scale, Option.getD_some, List.length_drop]
      omega

/-- Numbers that end in no zero differ by no power of ten. -/
theorem significand_inj {s s' i j : ℕ} (hs : s % 10 ≠ 0)
    (hs' : s' % 10 ≠ 0) (h : s * 10 ^ i = s' * 10 ^ j) : s = s' ∧ i = j := by
  have hcancel : ∀ {a b m k : ℕ}, a % 10 ≠ 0 →
      a * 10 ^ m = b * 10 ^ (m + k) → a = b ∧ k = 0 := by
    intro a b m k ha hab
    have hab : a = b * 10 ^ k := by
      apply Nat.eq_of_mul_eq_mul_right (show 0 < 10 ^ m by positivity)
      rw [hab, Nat.pow_add]
      ring
    cases k with
    | zero => exact ⟨by rw [hab]; simp, rfl⟩
    | succ k =>
        rw [Nat.pow_succ, ← Nat.mul_assoc] at hab
        omega
  rcases Nat.le_total i j with hij | hij
  · obtain ⟨k, rfl⟩ := Nat.exists_eq_add_of_le hij
    obtain ⟨rfl, rfl⟩ := hcancel hs h
    exact ⟨rfl, rfl⟩
  · obtain ⟨k, rfl⟩ := Nat.exists_eq_add_of_le hij
    obtain ⟨rfl, rfl⟩ := hcancel hs' h.symm
    exact ⟨rfl, rfl⟩

/-- A decimal has a layout of its own. -/
theorem layout_inj {d d' : ShortDecimal} (hsign : d.negative = d'.negative)
    (h : layout d = layout d') : d = d' := by
  obtain ⟨i, hvalue, hscale⟩ := layout_value d
  obtain ⟨j, hvalue', hscale'⟩ := layout_value d'
  rw [h] at hvalue hscale
  obtain ⟨hs, rfl⟩ := significand_inj d.canonical d'.canonical
    (hvalue.symm.trans hvalue')
  have hdigits : d.digits = d'.digits := by
    rw [ShortDecimal.digits, ShortDecimal.digits, hs]
  rw [hdigits] at hscale
  exact ShortDecimal.ext hsign hs (by omega)

-- =========================================================== the text

/-- The layout of zero. -/
def zeroLayout : Layout := ⟨['0'], [], none⟩

/-- No other number has it. -/
theorem layout_ne_zero (d : ShortDecimal) : layout d ≠ zeroLayout := by
  intro h
  obtain ⟨zeros, hvalue, -⟩ := layout_value d
  rw [h] at hvalue
  have hzero : d.significand * 10 ^ zeros = 0 := hvalue.symm
  have hs : d.significand = 0 := by simpa using hzero
  exact d.canonical (by rw [hs])

/-- A layout begins with a digit. -/
theorem layout_whole_ne_nil (d : ShortDecimal) : (layout d).whole ≠ [] := by
  have hne : d.digits ≠ [] := Nat.toDigits_ne_nil
  have htake : ∀ n, 0 < n → d.digits.take n ≠ [] := by
    intro n hn h
    rcases List.take_eq_nil_iff.mp h with h | h
    · omega
    · exact hne h
  rcases layout_cases d with ⟨h, -⟩ | ⟨h, hn⟩ | ⟨h, -⟩ | h <;> rw [h]
  · exact fun h => hne (List.append_eq_nil_iff.mp h).1
  · exact htake _ (by omega)
  · exact List.cons_ne_nil _ _
  · exact htake 1 (by decide)

/-- The text of a layout begins with a digit. -/
theorem layoutText_opens (d : ShortDecimal) (r : List Char) :
    ∃ c ∈ ((layout d).text ++ r).head?, c.isDigit = true := by
  rw [Layout.text]
  cases hwhole : (layout d).whole with
  | nil => exact (layout_whole_ne_nil d hwhole).elim
  | cons c cs =>
      exact ⟨c, rfl, (layout_digits d).1 c
        (by rw [hwhole]; exact List.mem_cons_self)⟩

/-- It begins with no sign. -/
theorem layoutText_ne_minus (d : ShortDecimal) {r r' : List Char} :
    (layout d).text ++ r ≠ '-' :: r' := by
  intro h
  obtain ⟨c, hc, hdigit⟩ := layoutText_opens d r
  rw [h, List.head?_cons, Option.mem_some_iff] at hc
  exact absurd hdigit (by rw [← hc]; decide)

/-- The sign is in front. -/
theorem text_decimal (d : ShortDecimal) (r : List Char) :
    (decimal d).text ++ r
      = if d.negative then '-' :: ((layout d).text ++ r)
        else (layout d).text ++ r := by
  rw [text]
  by_cases hneg : d.negative = true
  · rw [if_pos hneg, if_pos hneg]
    rfl
  · rw [if_neg hneg, if_neg hneg]
    rfl

/-- The text of a number begins with a sign or a digit. -/
theorem text_opens (x : Number) (r : List Char) :
    ∃ c ∈ (x.text ++ r).head?, c = '-' ∨ c.isDigit = true := by
  cases x with
  | zero => exact ⟨'0', rfl, .inr rfl⟩
  | decimal d =>
      rw [text_decimal]
      by_cases hneg : d.negative = true
      · rw [if_pos hneg]
        exact ⟨'-', rfl, .inl rfl⟩
      · rw [if_neg hneg]
        obtain ⟨c, hc, hdigit⟩ := layoutText_opens d r
        exact ⟨c, hc, .inr hdigit⟩

/-- Zero's text is not a decimal's, -/
theorem layoutText_zero_ne (d : ShortDecimal) {r r' : List Char}
    (hr : Stops r) (hr' : Stops r') :
    zero.text ++ r ≠ (layout d).text ++ r' := by
  intro h
  obtain ⟨hlayout, -⟩ := layoutText_inj
    (l := zeroLayout) (fun c hc => by rw [List.mem_singleton.mp hc]; rfl)
    (layout_digits d).1 (fun c hc => (List.not_mem_nil hc).elim)
    (layout_digits d).2 hr hr' h
  exact layout_ne_zero d hlayout.symm

/-- signed or not. -/
theorem zero_text_ne (d : ShortDecimal) {r r' : List Char} (hr : Stops r)
    (hr' : Stops r') : zero.text ++ r ≠ (decimal d).text ++ r' := by
  rw [text_decimal]
  by_cases hneg : d.negative = true
  · rw [if_pos hneg]
    exact fun h => absurd (List.head_eq_of_cons_eq h) (by decide)
  · rw [if_neg hneg]
    exact layoutText_zero_ne d hr hr'

/-- A number is read back from its text. -/
theorem text_inj {x y : Number} {r r' : List Char} (hr : Stops r)
    (hr' : Stops r') (h : x.text ++ r = y.text ++ r') : x = y ∧ r = r' := by
  cases x with
  | zero =>
      cases y with
      | zero => exact ⟨rfl, List.tail_eq_of_cons_eq h⟩
      | decimal d => exact (zero_text_ne d hr hr' h).elim
  | decimal d =>
      cases y with
      | zero => exact (zero_text_ne d hr' hr h.symm).elim
      | decimal d' =>
          have hread : ∀ {s s' : List Char}, Stops s → Stops s' →
              (layout d).text ++ s = (layout d').text ++ s' →
              layout d = layout d' ∧ s = s' := fun hs hs' h =>
            layoutText_inj (layout_digits d).1 (layout_digits d').1
              (layout_digits d).2 (layout_digits d').2 hs hs' h
          rw [text_decimal, text_decimal] at h
          by_cases hneg : d.negative = true <;>
            by_cases hneg' : d'.negative = true
          · rw [if_pos hneg, if_pos hneg'] at h
            obtain ⟨hlayout, hrr⟩ := hread hr hr'
              (List.tail_eq_of_cons_eq h)
            exact ⟨congrArg decimal
              (layout_inj (hneg.trans hneg'.symm) hlayout), hrr⟩
          · rw [if_pos hneg, if_neg hneg'] at h
            exact (layoutText_ne_minus d' h.symm).elim
          · rw [if_neg hneg, if_pos hneg'] at h
            exact (layoutText_ne_minus d h).elim
          · rw [if_neg hneg, if_neg hneg'] at h
            obtain ⟨hlayout, hrr⟩ := hread hr hr' h
            rw [Bool.not_eq_true] at hneg hneg'
            exact ⟨congrArg decimal
              (layout_inj (hneg.trans hneg'.symm) hlayout), hrr⟩

example : (decimal ⟨true, 125, 1, by decide⟩).text = "-1.25".toList := by
  decide

example : (decimal ⟨false, 12, -7, by decide⟩).text = "1.2e-8".toList := by
  decide

end Number

end Lumix
