/-
Numbers as text: hexadecimal strings, their padding, and the strings
`BigInt` reads; and the order in which strings are sorted.

A number and a byte string read back as what they were written from
(`bigInt_toString`, `hexBytes_bytesHex`), and a number written with
padding reads back as its bytes (`hexBytes_padded`).
-/
import Mathlib.Data.List.TakeWhile
import Lumix.Lib.Digits

namespace Lumix.Text

open Digits

-- ============================================================= digits

/-- The digit a character stands for, in a base of up to sixteen. -/
def digitValue (c : Char) : Option ℕ :=
  if '0' ≤ c ∧ c ≤ '9' then some (c.toNat - 48)
  else if 'a' ≤ c ∧ c ≤ 'f' then some (c.toNat - 87)
  else if 'A' ≤ c ∧ c ≤ 'F' then some (c.toNat - 55)
  else none

/-- One digit more, most significant first. -/
def readDigit (base n : ℕ) (c : Char) : Option ℕ :=
  (digitValue c).bind fun d => if d < base then some (base * n + d) else none

/-- A nonempty string of digits. -/
def readDigits (base : ℕ) (cs : List Char) : Option ℕ :=
  if cs = [] then none else cs.foldlM (readDigit base) 0

/-- A digit is read back, -/
theorem digitValue_digitChar {d : ℕ} (h : d < 16) :
    digitValue (Nat.digitChar d) = some d := by
  revert d
  decide

/-- and added to those before it. -/
theorem readDigit_digitChar {base d : ℕ} (n : ℕ) (hd : d < base)
    (hbase : base ≤ 16) :
    readDigit base n (Nat.digitChar d) = some (base * n + d) := by
  unfold readDigit
  rw [digitValue_digitChar (by omega), Option.bind_some, if_pos hd]

/-- The digits of a number spell it. -/
theorem readDigits_toDigits {base : ℕ} (hpos : 1 < base)
    (hbase : base ≤ 16) (n : ℕ) :
    readDigits base (Nat.toDigits base n) = some n := by
  unfold readDigits
  rw [if_neg Nat.toDigits_ne_nil]
  induction n using Nat.strong_induction_on with
  | _ n ih =>
      rw [Nat.toDigits_eq_if hpos]
      by_cases hlt : n < base
      · rw [if_pos hlt, List.foldlM_cons,
          readDigit_digitChar 0 hlt hbase]
        simp
      · have hmod := Nat.mod_lt n (show 0 < base by omega)
        have hdiv := ih (n / base) (Nat.div_lt_self (by omega) hpos)
        rw [if_neg hlt, List.foldlM_append, hdiv]
        show [Nat.digitChar (n % base)].foldlM (readDigit base) (n / base)
          = some n
        rw [List.foldlM_cons, readDigit_digitChar _ hmod hbase,
          Nat.div_add_mod]
        rfl

-- ============================================================== BigInt

/-- The white space and the line terminators of ECMAScript. -/
def isSpace (c : Char) : Bool :=
  c.toNat ∈ [9, 10, 11, 12, 13, 32, 160, 0x1680, 0x2028, 0x2029, 0x202f,
    0x205f, 0x3000, 0xfeff] || (0x2000 ≤ c.toNat && c.toNat ≤ 0x200a)

/-- `trim()` -/
def trim (cs : List Char) : List Char :=
  ((cs.dropWhile isSpace).reverse.dropWhile isSpace).reverse

/-- A number without white space. Only a decimal one has a sign. -/
def readNumeral : List Char → Option ℤ
  | [] => some 0
  | '0' :: 'x' :: cs => (readDigits 16 cs).map Int.ofNat
  | '0' :: 'X' :: cs => (readDigits 16 cs).map Int.ofNat
  | '0' :: 'o' :: cs => (readDigits 8 cs).map Int.ofNat
  | '0' :: 'O' :: cs => (readDigits 8 cs).map Int.ofNat
  | '0' :: 'b' :: cs => (readDigits 2 cs).map Int.ofNat
  | '0' :: 'B' :: cs => (readDigits 2 cs).map Int.ofNat
  | '-' :: cs => (readDigits 10 cs).map fun n => -Int.ofNat n
  | '+' :: cs => (readDigits 10 cs).map Int.ofNat
  | cs => (readDigits 10 cs).map Int.ofNat

/-- `BigInt(s)`; none where it throws. -/
def bigInt (s : String) : Option ℤ := readNumeral (trim s.toList)

/-- Printable characters are no white space. -/
theorem isSpace_of_range {c : Char} (hlow : 48 ≤ c.toNat)
    (hhigh : c.toNat ≤ 126) : isSpace c = false := by
  unfold isSpace
  simp only [List.mem_cons, List.not_mem_nil, Bool.or_eq_false_iff,
    or_false, decide_eq_false_iff_not, Bool.and_eq_false_iff]
  omega

/-- Nothing is trimmed off what has no white space. -/
theorem trim_eq_self {cs : List Char} (h : ∀ c ∈ cs, isSpace c = false) :
    trim cs = cs := by
  have hdrop : ∀ ds : List Char, (∀ c ∈ ds, isSpace c = false) →
      ds.dropWhile isSpace = ds := by
    intro ds hds
    rw [List.dropWhile_eq_self_iff]
    intro hl
    rw [hds _ (List.getElem_mem hl)]
    exact Bool.false_ne_true
  unfold trim
  rw [hdrop cs h, hdrop cs.reverse, List.reverse_reverse]
  intro c hc
  exact h c (List.mem_reverse.mp hc)

/-- Digits have none around them. -/
theorem trim_digits {cs : List Char} (h : ∀ c ∈ cs, c.isDigit = true) :
    trim cs = cs := by
  apply trim_eq_self
  intro c hc
  obtain ⟨hlow, hhigh⟩ := Char.isDigit_iff_toNat.mp (h c hc)
  exact isSpace_of_range hlow (Nat.le_trans hhigh (by decide))

/-- Digits are a decimal numeral. -/
theorem readNumeral_digits {cs : List Char} (hne : cs ≠ [])
    (h : ∀ c ∈ cs, c.isDigit = true) :
    readNumeral cs = (readDigits 10 cs).map Int.ofNat := by
  have hnot : ∀ c, c.isDigit = false → c ∉ cs := by
    intro c hc hmem
    rw [h c hmem] at hc
    cases hc
  have hx := hnot 'x' rfl
  have hX := hnot 'X' rfl
  have ho := hnot 'o' rfl
  have hO := hnot 'O' rfl
  have hb := hnot 'b' rfl
  have hB := hnot 'B' rfl
  have hminus := hnot '-' rfl
  have hplus := hnot '+' rfl
  clear h hnot
  unfold readNumeral
  split
  · exact absurd rfl hne
  -- every other numeral has a character that is no digit
  all_goals first | rfl | simp at *

/-- A number's own text. -/
theorem bigInt_toString (n : ℕ) : bigInt (toString n) = some (n : ℤ) := by
  have hdigits : ∀ c ∈ Nat.toDigits 10 n, c.isDigit = true := fun c hc =>
    Nat.isDigit_of_mem_toDigits (by decide) (by decide) hc
  unfold bigInt
  rw [Nat.toString_eq_repr, Nat.toList_repr, trim_digits hdigits,
    readNumeral_digits Nat.toDigits_ne_nil hdigits,
    readDigits_toDigits (by decide) (by decide)]
  rfl

/-- `n.toString(16)` -/
def toString16 (n : ℤ) : String :=
  if n < 0 then "-" ++ String.ofList (Nat.toDigits 16 n.natAbs)
  else String.ofList (Nat.toDigits 16 n.natAbs)

/-- `s.padStart(n, "0")` -/
def padStart (n : ℕ) (s : String) : String :=
  String.ofList (s.toList.leftpad n '0')

-- =============================================================== bytes

/-- `s.startsWith("0x")` -/
def hasPrefix0x (s : String) : Bool :=
  match s.toList with
  | '0' :: 'x' :: _ => true
  | _ => false

/-- `s.startsWith("0x") ? s.slice(2) : s` -/
def stripHex (s : String) : String :=
  if hasPrefix0x s then String.ofList (s.toList.drop 2) else s

/-- `s.startsWith("0x") ? s : "0x" + s` -/
def with0x (s : String) : String := if hasPrefix0x s then s else "0x" ++ s

/-- The prefix is taken off. -/
theorem stripHex_append (s : String) : stripHex ("0x" ++ s) = s := by
  have htext : ("0x" ++ s).toList = '0' :: 'x' :: s.toList :=
    String.toList_append
  unfold stripHex hasPrefix0x
  rw [htext]
  exact String.ofList_toList

/-- Two digits a byte. -/
def readBytes : List Char → Option (List UInt8)
  | [] => some []
  | [_] => none
  | hi :: lo :: cs => do
      let h ← digitValue hi
      let l ← digitValue lo
      let bytes ← readBytes cs
      some (UInt8.ofNat (16 * h + l) :: bytes)

/-- The bytes a bare hexadecimal string spells. -/
def hexBytes (s : String) : Option (List UInt8) := readBytes s.toList

/-- A byte as two digits. -/
def byteHex (b : UInt8) : List Char :=
  [Nat.digitChar (b.toNat / 16), Nat.digitChar (b.toNat % 16)]

/-- Bytes in hexadecimal, without a prefix. -/
def bytesHex (bytes : List UInt8) : String :=
  String.ofList (bytes.flatMap byteHex)

/-- A byte is its two digits. -/
theorem byte_halves (b : UInt8) :
    UInt8.ofNat (16 * (b.toNat / 16) + b.toNat % 16) = b := by
  rw [Nat.div_add_mod]
  exact UInt8.ofNat_toNat

/-- Bytes are read back, by the strict reader -/
theorem readBytes_flatMap (bytes : List UInt8) :
    readBytes (bytes.flatMap byteHex) = some bytes := by
  induction bytes with
  | nil => rfl
  | cons b bytes ih =>
      have hlt := b.toNat_lt
      have hhi := digitValue_digitChar (d := b.toNat / 16) (by omega)
      have hlo := digitValue_digitChar (d := b.toNat % 16) (by omega)
      simp only [List.flatMap_cons, byteHex, List.cons_append,
        List.nil_append, readBytes, hhi, hlo, ih, Option.bind_eq_bind,
        Option.bind_some, byte_halves]

/-- What was written is read back. -/
@[simp]
theorem hexBytes_bytesHex (bytes : List UInt8) :
    hexBytes (bytesHex bytes) = some bytes := by
  unfold hexBytes bytesHex
  rw [String.toList_ofList]
  exact readBytes_flatMap bytes

/-- The `length` of a string: its UTF-16 code units. -/
def utf16Length (s : String) : ℕ :=
  (s.toList.map fun c => if c.toNat < 0x10000 then 1 else 2).sum

/-- The leading pairs of digits, up to the first that is none. -/
def readPairs : List Char → List UInt8
  | hi :: lo :: cs =>
      match digitValue hi, digitValue lo with
      | some h, some l => UInt8.ofNat (16 * h + l) :: readPairs cs
      | _, _ => []
  | _ => []

/-- `Buffer.from(s, "hex")` -/
def bufferFromHex (s : String) : List UInt8 := readPairs s.toList

/-- and by the lenient one. -/
theorem readPairs_flatMap (bytes : List UInt8) :
    readPairs (bytes.flatMap byteHex) = bytes := by
  induction bytes with
  | nil => rfl
  | cons b bytes ih =>
      have hlt := b.toNat_lt
      have hhi := digitValue_digitChar (d := b.toNat / 16) (by omega)
      have hlo := digitValue_digitChar (d := b.toNat % 16) (by omega)
      simp only [List.flatMap_cons, byteHex, List.cons_append,
        List.nil_append, readPairs, hhi, hlo, ih, byte_halves]

/-- So they are by `Buffer.from`. -/
@[simp]
theorem bufferFromHex_bytesHex (bytes : List UInt8) :
    bufferFromHex (bytesHex bytes) = bytes := by
  unfold bufferFromHex bytesHex
  rw [String.toList_ofList]
  exact readPairs_flatMap bytes

/-- A digit that is read. -/
theorem readDigit_some {base n m : ℕ} {c : Char}
    (h : readDigit base n c = some m) :
    ∃ d, digitValue c = some d ∧ d < base ∧ m = base * n + d := by
  unfold readDigit at h
  obtain ⟨d, hd, h⟩ := Option.bind_eq_some_iff.mp h
  by_cases hlt : d < base
  · rw [if_pos hlt] at h
    injection h with h
    exact ⟨d, hd, hlt, h.symm⟩
  · rw [if_neg hlt] at h
    cases h

/-- Digits that spell a number after `m` spell the same as bytes. -/
theorem readBytes_of_foldlM {k m v : ℕ} {cs : List Char}
    (hlen : cs.length = 2 * k)
    (h : cs.foldlM (readDigit 16) m = some v) :
    ∃ bs, readBytes cs = some bs ∧ bs.length = k
      ∧ v = m * 256 ^ k + beVal bs := by
  induction k generalizing cs m with
  | zero =>
      obtain rfl : cs = [] := List.length_eq_zero_iff.mp hlen
      injection h with h
      exact ⟨[], rfl, rfl, by simp [beVal, h]⟩
  | succ k ih =>
      obtain ⟨hi, lo, rest, rfl⟩ :
          ∃ hi lo rest, cs = hi :: lo :: rest := by
        cases cs with
        | nil =>
            rw [List.length_nil] at hlen
            omega
        | cons hi cs =>
            cases cs with
            | nil =>
                rw [List.length_singleton] at hlen
                omega
            | cons lo rest => exact ⟨hi, lo, rest, rfl⟩
      simp only [List.foldlM_cons, Option.bind_eq_bind,
        Option.bind_eq_some_iff] at h
      obtain ⟨_, hhi, _, hlo, h⟩ := h
      obtain ⟨d, hd, hd16, rfl⟩ := readDigit_some hhi
      obtain ⟨e, he, he16, rfl⟩ := readDigit_some hlo
      obtain ⟨bs, hbs, hlenbs, hv⟩ :=
        ih (by simp only [List.length_cons] at hlen; omega) h
      have hbyte : (UInt8.ofNat (16 * d + e)).toNat = 16 * d + e := by
        rw [UInt8.toNat_ofNat']
        exact Nat.mod_eq_of_lt (by omega)
      refine ⟨UInt8.ofNat (16 * d + e) :: bs, ?_,
        by rw [List.length_cons, hlenbs], ?_⟩
      · simp only [readBytes, hd, he, hbs, Option.bind_eq_bind,
          Option.bind_some]
      · rw [hv, beVal, hbyte, hlenbs]
        ring

/-- A hexadecimal digit is below sixteen, and an ASCII character. -/
theorem digitValue_range {c : Char} {d : ℕ} (h : digitValue c = some d) :
    d < 16 ∧ 48 ≤ c.toNat ∧ c.toNat ≤ 126 := by
  have hval : ∀ a b : Char, a ≤ b → a.toNat ≤ b.toNat := fun _ _ hab => hab
  have hchars : '0'.toNat = 48 ∧ '9'.toNat = 57 ∧ 'a'.toNat = 97
    ∧ 'f'.toNat = 102 ∧ 'A'.toNat = 65 ∧ 'F'.toNat = 70 := by decide
  unfold digitValue at h
  by_cases hdigit : '0' ≤ c ∧ c ≤ '9'
  · have hlow := hval _ _ hdigit.1
    have hhigh := hval _ _ hdigit.2
    rw [if_pos hdigit] at h
    injection h with h
    omega
  · rw [if_neg hdigit] at h
    by_cases hlower : 'a' ≤ c ∧ c ≤ 'f'
    · have hlow := hval _ _ hlower.1
      have hhigh := hval _ _ hlower.2
      rw [if_pos hlower] at h
      injection h with h
      omega
    · rw [if_neg hlower] at h
      by_cases hupper : 'A' ≤ c ∧ c ≤ 'F'
      · have hlow := hval _ _ hupper.1
        have hhigh := hval _ _ hupper.2
        rw [if_pos hupper] at h
        injection h with h
        omega
      · rw [if_neg hupper] at h
        cases h

/-- Two digits and the bytes after them. -/
theorem readBytes_cons {hi lo : Char} {cs : List Char}
    {bytes : List UInt8} (h : readBytes (hi :: lo :: cs) = some bytes) :
    ∃ d e rest, digitValue hi = some d ∧ digitValue lo = some e
      ∧ readBytes cs = some rest
      ∧ bytes = UInt8.ofNat (16 * d + e) :: rest := by
  simp only [readBytes, Option.bind_eq_bind, Option.bind_eq_some_iff,
    Option.some.injEq] at h
  obtain ⟨d, hd, e, he, rest, hrest, rfl⟩ := h
  exact ⟨d, e, rest, hd, he, hrest, rfl⟩

/-- Bytes read from a string are the leading pairs of its digits, are
read from a part of it as a part of them, and spell its number. -/
theorem readBytes_spells {cs : List Char} {bytes : List UInt8}
    (h : readBytes cs = some bytes) :
    (∀ c ∈ cs, isSpace c = false) ∧ readPairs cs = bytes
      ∧ (∀ k, readBytes (cs.take (2 * k)) = some (bytes.take k))
      ∧ ∀ m, cs.foldlM (readDigit 16) m
        = some (m * 256 ^ bytes.length + beVal bytes) := by
  induction cs using readBytes.induct generalizing bytes with
  | case1 =>
      cases h
      refine ⟨fun c hc => (by cases hc), rfl, fun k => ?_, fun m => ?_⟩
      · rw [List.take_nil, List.take_nil]
        rfl
      · simp [beVal]
  | case2 c => cases h
  | case3 hi lo cs ih =>
      obtain ⟨d, e, rest, hd, he, hrest, rfl⟩ := readBytes_cons h
      obtain ⟨hspace, hpairs, htake, hfold⟩ := ih hrest
      obtain ⟨hd16, hdlow, hdhigh⟩ := digitValue_range hd
      obtain ⟨he16, helow, hehigh⟩ := digitValue_range he
      refine ⟨?_, ?_, ?_, ?_⟩
      · exact List.forall_mem_cons.mpr ⟨isSpace_of_range hdlow hdhigh,
          List.forall_mem_cons.mpr
            ⟨isSpace_of_range helow hehigh, hspace⟩⟩
      · simp only [readPairs, hd, he, hpairs]
      · intro k
        cases k with
        | zero => rfl
        | succ k =>
            rw [Nat.mul_succ, List.take_succ_cons, List.take_succ_cons,
              List.take_succ_cons]
            simp only [readBytes, hd, he, htake, Option.bind_eq_bind,
              Option.bind_some]
      · intro m
        have hbyte : (UInt8.ofNat (16 * d + e)).toNat = 16 * d + e := by
          rw [UInt8.toNat_ofNat']
          exact Nat.mod_eq_of_lt (by omega)
        simp only [List.foldlM_cons, readDigit, hd, he, if_pos hd16,
          if_pos he16, Option.bind_some, Option.bind_eq_bind, hfold,
          List.length_cons, beVal, hbyte, Nat.pow_succ]
        congr 1
        ring

/-- `Buffer.from` reads a whole hexadecimal string. -/
theorem bufferFromHex_of_hexBytes {s : String} {bytes : List UInt8}
    (h : hexBytes s = some bytes) : bufferFromHex s = bytes :=
  (readBytes_spells h).2.1

/-- `BigInt` of bytes behind their prefix. -/
theorem bigInt_hex {cs : List Char} {bytes : List UInt8}
    (h : readBytes cs = some bytes) (hne : bytes ≠ []) :
    bigInt ("0x" ++ String.ofList cs) = some (beVal bytes : ℤ) := by
  obtain ⟨hspace, -, -, hfold⟩ := readBytes_spells h
  have htext : ("0x" ++ String.ofList cs).toList = '0' :: 'x' :: cs := by
    rw [String.toList_append, String.toList_ofList, String.toList_ofList]
    rfl
  have htrim : trim ('0' :: 'x' :: cs) = '0' :: 'x' :: cs := by
    apply trim_eq_self
    exact List.forall_mem_cons.mpr ⟨rfl,
      List.forall_mem_cons.mpr ⟨rfl, hspace⟩⟩
  have hcs : cs ≠ [] := by
    rintro rfl
    cases h
    exact hne rfl
  unfold bigInt
  rw [htext, htrim, readNumeral, readDigits, if_neg hcs, hfold 0, zero_mul,
    zero_add]
  rfl

/-- A number padded to the width of `k` bytes. -/
theorem hexBytes_padded {k n : ℕ} (hk : 0 < k) (hn : n < 256 ^ k) :
    ∃ bs, hexBytes (padStart (2 * k) (toString16 n)) = some bs
      ∧ bs.length = k ∧ beVal bs = n := by
  have hzeros : ∀ j : ℕ, (List.replicate j '0').foldlM (readDigit 16) 0
      = some 0 := by
    intro j
    induction j with
    | zero => rfl
    | succ j ih => exact ih
  have hdigits : (Nat.toDigits 16 n).foldlM (readDigit 16) 0 = some n := by
    have h := readDigits_toDigits (show 1 < 16 by decide) le_rfl n
    unfold readDigits at h
    rwa [if_neg Nat.toDigits_ne_nil] at h
  have hfits : (Nat.toDigits 16 n).length ≤ 2 * k := by
    rw [Nat.length_toDigits_le_iff (by decide) (by omega), pow_mul]
    exact hn
  have htext : (padStart (2 * k) (toString16 n)).toList
      = (Nat.toDigits 16 n).leftpad (2 * k) '0' := by
    unfold padStart toString16
    rw [if_neg (by omega), String.toList_ofList, String.toList_ofList,
      Int.natAbs_natCast]
  have hlength : ((Nat.toDigits 16 n).leftpad (2 * k) '0').length
      = 2 * k := by
    rw [List.length_leftpad, Nat.max_eq_left hfits]
  have hfold : ((Nat.toDigits 16 n).leftpad (2 * k) '0').foldlM
      (readDigit 16) 0 = some n := by
    unfold List.leftpad
    rw [List.foldlM_append, hzeros]
    exact hdigits
  obtain ⟨bs, hbs, hlen, hval⟩ := readBytes_of_foldlM hlength hfold
  refine ⟨bs, ?_, hlen, by omega⟩
  unfold hexBytes
  rw [htext, hbs]

-- ========================================================== lower case

/-- A digit in lower case. -/
def IsLowerDigit (c : Char) : Prop := ∃ d < 16, c = Nat.digitChar d

/-- Numerals are in lower case. -/
theorem isLowerDigit_of_mem_toDigits {n : ℕ} :
    ∀ c ∈ Nat.toDigits 16 n, IsLowerDigit c := by
  induction n using Nat.strong_induction_on with
  | _ n ih =>
      intro c hc
      rw [Nat.toDigits_eq_if (by decide)] at hc
      by_cases hlt : n < 16
      · rw [if_pos hlt, List.mem_singleton] at hc
        exact ⟨n, hlt, hc⟩
      · rw [if_neg hlt, List.mem_append, List.mem_singleton] at hc
        rcases hc with hc | hc
        · exact ih (n / 16) (Nat.div_lt_self (by omega) (by decide)) c hc
        · exact ⟨n % 16, Nat.mod_lt _ (by decide), hc⟩

/-- In lower case bytes are written in one way. -/
theorem flatMap_byteHex_of_readBytes {cs : List Char} {bytes : List UInt8}
    (h : readBytes cs = some bytes) (hlower : ∀ c ∈ cs, IsLowerDigit c) :
    bytes.flatMap byteHex = cs := by
  induction cs using readBytes.induct generalizing bytes with
  | case1 =>
      cases h
      rfl
  | case2 c => cases h
  | case3 high low cs ih =>
      obtain ⟨⟨a, ha, rfl⟩, ⟨b, hb, rfl⟩, hcs⟩ :
          IsLowerDigit high ∧ IsLowerDigit low
            ∧ ∀ c ∈ cs, IsLowerDigit c := by
        simpa only [List.forall_mem_cons] using hlower
      simp only [readBytes, digitValue_digitChar ha,
        digitValue_digitChar hb, Option.bind_eq_bind, Option.bind_some,
        Option.bind_eq_some_iff, Option.some.injEq] at h
      obtain ⟨rest, hrest, rfl⟩ := h
      have hbyte : (UInt8.ofNat (16 * a + b)).toNat = 16 * a + b := by
        rw [UInt8.toNat_ofNat']
        exact Nat.mod_eq_of_lt (by omega)
      have hhigh : (16 * a + b) / 16 = a := by omega
      have hlow : (16 * a + b) % 16 = b := by omega
      rw [List.flatMap_cons, ih hrest hcs, byteHex, hbyte, hhigh, hlow]
      rfl

/-- A number padded to a width is its bytes. -/
theorem padStart_toString16 {k n : ℕ} (hk : 0 < k) (hn : n < 256 ^ k) :
    padStart (2 * k) (toString16 n) = bytesHex (beBytes k n) := by
  obtain ⟨bs, hbs, hlength, hval⟩ := hexBytes_padded hk hn
  have hlower : ∀ c ∈ (padStart (2 * k) (toString16 n)).toList,
      IsLowerDigit c := by
    unfold padStart toString16
    rw [if_neg (by omega), String.toList_ofList, String.toList_ofList,
      Int.natAbs_natCast, List.leftpad]
    intro c hc
    rcases List.mem_append.mp hc with hc | hc
    · rw [List.eq_of_mem_replicate hc]
      exact ⟨0, by decide, rfl⟩
    · exact isLowerDigit_of_mem_toDigits c hc
  have htext := flatMap_byteHex_of_readBytes hbs hlower
  have hbytes : bs = beBytes k n := by
    rw [← hval, ← hlength, beBytes_beVal]
  rw [← hbytes, bytesHex, htext, String.ofList_toList]

/-- Bytes are written in lower case. -/
theorem toLower_bytesHex (bytes : List UInt8) :
    (bytesHex bytes).toLower = bytesHex bytes := by
  apply String.toList_injective
  unfold String.toLower bytesHex
  rw [String.toList_map, String.toList_ofList]
  have hdigits : ∀ c ∈ bytes.flatMap byteHex, c.toLower = c := by
    intro c hc
    obtain ⟨b, -, hc⟩ := List.mem_flatMap.mp hc
    have hlt := b.toNat_lt
    have hdigit : ∀ d < 16, (Nat.digitChar d).toLower = Nat.digitChar d := by
      decide
    simp only [byteHex, List.mem_cons, List.not_mem_nil, or_false] at hc
    rcases hc with rfl | rfl
    · exact hdigit _ (by omega)
    · exact hdigit _ (by omega)
  exact (List.map_congr_left hdigits).trans (List.map_id _)

/-- Bytes have hexadecimal of their own. -/
theorem bytesHex_inj {bs bs' : List UInt8} (h : bytesHex bs = bytesHex bs') :
    bs = bs' := by
  have hread := congrArg hexBytes h
  rwa [hexBytes_bytesHex, hexBytes_bytesHex, Option.some.injEq] at hread
-- =============================================================== UTF-8

/-- The bytes of a string. -/
def utf8 (s : String) : List UInt8 := s.toList.flatMap String.utf8EncodeChar

/-- A text has bytes of its own. -/
theorem utf8_inj {s t : String} (h : utf8 s = utf8 t) : s = t := by
  apply String.toByteArray_inj.mp
  rw [← String.utf8Encode_toList, ← String.utf8Encode_toList]
  exact congrArg List.toByteArray h

/-- An ASCII string has a byte a character. -/
theorem length_utf8 {s : String} (h : ∀ c ∈ s.toList, c.val ≤ 127) :
    (utf8 s).length = s.toList.length := by
  unfold utf8
  revert h
  generalize s.toList = cs
  intro h
  induction cs with
  | nil => rfl
  | cons c cs ih =>
      obtain ⟨hc, hcs⟩ := List.forall_mem_cons.mp h
      rw [List.flatMap_cons, List.length_append, ih hcs,
        String.length_utf8EncodeChar, Char.utf8Size_eq_one_iff.mpr hc,
        List.length_cons, Nat.add_comm]

-- ================================================= the order of strings

/-- A character in UTF-16. -/
def codeUnits (c : Char) : List ℕ :=
  if c.toNat < 0x10000 then [c.toNat]
  else
    [0xd800 + (c.toNat - 0x10000) / 0x400,
      0xdc00 + (c.toNat - 0x10000) % 0x400]

/-- A text in UTF-16. -/
def utf16 (s : String) : List ℕ := s.toList.flatMap codeUnits

/-- The order of code units, which is that of `sort`. -/
def unitsLe : List ℕ → List ℕ → Bool
  | [], _ => true
  | _ :: _, [] => false
  | a :: l, b :: r => a < b || (a == b && unitsLe l r)

/-- `[...l].sort()` -/
def sort (l : List String) : List String :=
  l.mergeSort fun s t => unitsLe (utf16 s) (utf16 t)

/-- No character is a surrogate. -/
theorem toNat_range (c : Char) :
    c.toNat < 0xd800 ∨ (0xdfff < c.toNat ∧ c.toNat < 0x110000) := c.valid

/-- A character is read from the front, -/
theorem codeUnits_append_inj {c d : Char} {l r : List ℕ}
    (h : codeUnits c ++ l = codeUnits d ++ r) : c = d ∧ l = r := by
  have hc := toNat_range c
  have hd := toNat_range d
  unfold codeUnits at h
  by_cases hcs : c.toNat < 0x10000
  · by_cases hds : d.toNat < 0x10000
    · rw [if_pos hcs, if_pos hds] at h
      obtain ⟨hunit, htail⟩ := List.cons_eq_cons.mp h
      exact ⟨Char.toNat_inj.mp hunit, htail⟩
    · rw [if_pos hcs, if_neg hds] at h
      obtain ⟨hunit, -⟩ := List.cons_eq_cons.mp h
      omega
  · by_cases hds : d.toNat < 0x10000
    · rw [if_neg hcs, if_pos hds] at h
      obtain ⟨hunit, -⟩ := List.cons_eq_cons.mp h
      omega
    · rw [if_neg hcs, if_neg hds] at h
      obtain ⟨hhigh, hrest⟩ := List.cons_eq_cons.mp h
      obtain ⟨hlow, htail⟩ := List.cons_eq_cons.mp hrest
      refine ⟨Char.toNat_inj.mp ?_, htail⟩
      omega

/-- so are several, -/
theorem flatMap_codeUnits_inj {l r : List Char}
    (h : l.flatMap codeUnits = r.flatMap codeUnits) : l = r := by
  induction l generalizing r with
  | nil =>
      cases r with
      | nil => rfl
      | cons d r =>
          exfalso
          rw [List.flatMap_cons, codeUnits] at h
          split at h <;> cases h
  | cons c l ih =>
      cases r with
      | nil =>
          exfalso
          rw [List.flatMap_cons, codeUnits] at h
          split at h <;> cases h
      | cons d r =>
          rw [List.flatMap_cons, List.flatMap_cons] at h
          obtain ⟨rfl, htail⟩ := codeUnits_append_inj h
          rw [ih htail]

/-- so is a text. -/
theorem utf16_inj {s t : String} (h : utf16 s = utf16 t) : s = t :=
  String.toList_injective (flatMap_codeUnits_inj h)

/-- The first unit decides, unless they are equal. -/
theorem unitsLe_cons {a b : ℕ} {l r : List ℕ} :
    unitsLe (a :: l) (b :: r) = true
      ↔ a < b ∨ (a = b ∧ unitsLe l r = true) := by
  simp [unitsLe]

/-- Any two are in order, -/
theorem unitsLe_total (l r : List ℕ) :
    unitsLe l r = true ∨ unitsLe r l = true := by
  induction l generalizing r with
  | nil => exact .inl rfl
  | cons a l ih =>
      cases r with
      | nil => exact .inr rfl
      | cons b r =>
          rw [unitsLe_cons, unitsLe_cons]
          have hih := ih r
          by_cases hab : a = b
          · subst hab
            rcases hih with h | h
            · exact .inl (.inr ⟨rfl, h⟩)
            · exact .inr (.inr ⟨rfl, h⟩)
          · omega

/-- in one order, -/
theorem unitsLe_trans {l m r : List ℕ} (h : unitsLe l m = true)
    (h' : unitsLe m r = true) : unitsLe l r = true := by
  induction l generalizing m r with
  | nil => rfl
  | cons a l ih =>
      cases m with
      | nil => cases h
      | cons b m =>
          cases r with
          | nil => cases h'
          | cons c r =>
              rw [unitsLe_cons] at h h' ⊢
              rcases h with h | ⟨rfl, h⟩
              · exact .inl (by omega)
              · rcases h' with h' | ⟨rfl, h'⟩
                · exact .inl h'
                · exact .inr ⟨rfl, ih h h'⟩

/-- and only equal ones in both. -/
theorem unitsLe_antisymm {l r : List ℕ} (h : unitsLe l r = true)
    (h' : unitsLe r l = true) : l = r := by
  induction l generalizing r with
  | nil =>
      cases r with
      | nil => rfl
      | cons b r => cases h'
  | cons a l ih =>
      cases r with
      | nil => cases h
      | cons b r =>
          rw [unitsLe_cons] at h h'
          have hab : a = b := by omega
          subst hab
          rw [ih (h.resolve_left (Nat.lt_irrefl a)).2
            (h'.resolve_left (Nat.lt_irrefl a)).2]

/-- Sorting forgets the order of a list and nothing else. -/
theorem sort_eq_iff {l r : List String} : sort l = sort r ↔ l.Perm r := by
  have hsorted (l : List String) :
      (sort l).Pairwise fun s t => unitsLe (utf16 s) (utf16 t) = true := by
    apply List.pairwise_mergeSort
    · intro s t u
      exact unitsLe_trans
    · intro s t
      rw [Bool.or_eq_true]
      exact unitsLe_total ..
  constructor
  · intro h
    exact ((List.mergeSort_perm l _).symm.trans (.of_eq h)).trans
      (List.mergeSort_perm r _)
  · intro h
    refine List.Perm.eq_of_pairwise ?_ (hsorted l) (hsorted r) ?_
    · intro s t _ _ hst hts
      exact utf16_inj (unitsLe_antisymm hst hts)
    · exact ((List.mergeSort_perm l _).trans h).trans
        (List.mergeSort_perm r _).symm

end Lumix.Text
