/-
Two readings of one byte string. The pool decodes public signals into
32-byte words and compares, stores and spends those words; the verifier
decodes the same bytes into field elements and checks the proof on
those. The layouts agree (`publicFromBytes_eq`): the verifier's vector
is the pool's, reduced word by word.

The reduction forgets how many times the order fits into a word.
`words_eq_iff` is the exact price of that: two strings the verifier
cannot tell apart are the same to the pool when, and only when, their
words agree in that quotient. Words below the order all have quotient
0; no code checks for it.
-/
import Lumix.Pool.Effects

namespace Lumix

open Exec Digits ProofVerifier

-- ====================================================== the two layouts

theorem takeScalars_eq (n : ℕ) (s : Bytes) :
    takeScalars n s = (takeWords n s).map (List.map Word.toFr) := by
  induction n generalizing s with
  | zero => rfl
  | succ n ih =>
      simp only [takeScalars, takeWords]
      cases takeBytes 32 s with
      | error t => rfl
      | ok arr =>
          obtain ⟨arr, rest⟩ := arr
          show (takeScalars n rest >>= _) = Except.map _ (takeWords n rest >>= _)
          rw [ih rest]
          cases takeWords n rest with
          | error t => rfl
          | ok ws => rfl

/-- The verifier reads the pool's words, reduced. -/
theorem publicFromBytes_eq (bytes : Bytes) :
    publicFromBytes bytes
      = (parsePublicSignals bytes).map (List.map Word.toFr) := by
  unfold publicFromBytes parsePublicSignals
  cases takeBytes 4 bytes with
  | error t => rfl
  | ok len => exact takeScalars_eq _ _

theorem publicFromBytes_of_parse {bytes : Bytes} {ws : List Word}
    (h : parsePublicSignals bytes = .ok ws) :
    publicFromBytes bytes = .ok (ws.map Word.toFr) := by
  rw [publicFromBytes_eq, h]
  rfl

-- ============================================================ encoding

/-- The `circom2soroban` layout of a list of words. -/
def encodeSignals (ws : List Word) : Bytes :=
  beBytes 4 ws.length ++ ws.flatMap Word.toBytes

theorem takeWords_encode (ws : List Word) :
    takeWords ws.length (ws.flatMap Word.toBytes) = .ok ws := by
  induction ws with
  | nil => rfl
  | cons w ws ih =>
      have htake := takeBytes_append w.toBytes (ws.flatMap Word.toBytes)
      rw [Word.length_toBytes] at htake
      simp only [List.flatMap_cons, List.length_cons, takeWords, htake]
      show (takeWords ws.length _ >>= _) = _
      rw [ih]
      show Except.ok (Word.ofBytes w.toBytes :: ws) = _
      rw [Word.ofBytes_toBytes]

/-- The pool reads back what was encoded. -/
theorem parse_encodeSignals {ws : List Word} (h : ws.length < 2 ^ 32) :
    parsePublicSignals (encodeSignals ws) = .ok ws := by
  have htake := takeBytes_append (beBytes 4 ws.length)
    (ws.flatMap Word.toBytes)
  rw [length_beBytes] at htake
  simp only [parsePublicSignals, encodeSignals, bind_eq_ok, Prod.exists]
  refine ⟨_, _, htake, ?_⟩
  have hlen : ws.length < 256 ^ 4 := by
    norm_num
    omega
  rw [beVal_beBytes hlen]
  exact takeWords_encode ws

-- =========================================================== ambiguity

/-- A word is its residue and its quotient. -/
theorem Word.eq_of_toFr_of_div {v w : Word} (hmod : Word.toFr v = Word.toFr w)
    (hdiv : v.toNat / r = w.toNat / r) : v = w := by
  rw [Word.toFr_eq_iff] at hmod
  apply BitVec.eq_of_toNat_eq
  rw [← Nat.div_add_mod v.toNat r, ← Nat.div_add_mod w.toNat r, hmod, hdiv]

/-- On strings with one verifier vector, the pool's words are the same
exactly when at every position the order fits into both words equally
often. -/
theorem words_eq_iff {s s' : Bytes} {ws ws' : List Word} {v : List Fr}
    (hs : parsePublicSignals s = .ok ws)
    (hs' : parsePublicSignals s' = .ok ws')
    (hv : publicFromBytes s = .ok v) (hv' : publicFromBytes s' = .ok v) :
    ws = ws'
      ↔ ws.map (fun w => w.toNat / r) = ws'.map fun w => w.toNat / r := by
  have hmod : ws.map Word.toFr = ws'.map Word.toFr := by
    rw [publicFromBytes_of_parse hs, ← hv', publicFromBytes_of_parse hs']
      at hv
    injection hv
  clear hs hs' hv hv'
  constructor
  · rintro rfl
    rfl
  · intro hdiv
    -- position by position
    induction ws generalizing ws' with
    | nil =>
        cases ws' with
        | nil => rfl
        | cons w' ws' => cases hmod
    | cons w ws ih =>
        cases ws' with
        | nil => cases hmod
        | cons w' ws' =>
            simp only [List.map_cons, List.cons.injEq] at hmod hdiv
            obtain ⟨hm, hmod⟩ := hmod
            obtain ⟨hd, hdiv⟩ := hdiv
            rw [Word.eq_of_toFr_of_div hm hd, ih hmod hdiv]

/-- The word one order above 1. -/
def oneAlias : Word := BitVec.ofNat 256 (1 + r)

theorem oneAlias_vector :
    publicFromBytes (encodeSignals [oneAlias])
      = .ok (([1] : List Word).map Word.toFr) := by
  rw [publicFromBytes_of_parse (parse_encodeSignals (by decide))]
  decide +kernel

theorem words_eq_iff_alias :
    ([1] : List Word) = [oneAlias]
      ↔ ([1] : List Word).map (fun w => w.toNat / r)
          = [oneAlias].map fun w => w.toNat / r :=
  words_eq_iff (parse_encodeSignals (by decide))
    (parse_encodeSignals (by decide))
    (publicFromBytes_of_parse (parse_encodeSignals (by decide)))
    oneAlias_vector

/-- One signal, 1 or 1 plus the order: one vector for the verifier, two
for the pool. -/
theorem words_ambiguous :
    ¬∀ (s s' : Bytes) (ws ws' : List Word) (v : List Fr),
      parsePublicSignals s = .ok ws → parsePublicSignals s' = .ok ws' →
      publicFromBytes s = .ok v → publicFromBytes s' = .ok v → ws = ws' := by
  intro hall
  have hone : parsePublicSignals (encodeSignals [1]) = .ok [1] :=
    parse_encodeSignals (by decide)
  have halias : parsePublicSignals (encodeSignals [oneAlias])
      = .ok [oneAlias] := parse_encodeSignals (by decide)
  have heq := hall _ _ _ _ _ hone halias (publicFromBytes_of_parse hone)
    oneAlias_vector
  revert heq
  decide +kernel

-- ======================================================= narrowed words

/-- A word whose low half is a 32-bit number denotes that number exactly
when its high half is empty: one or two orders do not end in 128 zero
bits. -/
theorem toFr_eq_iff_high_zero {w : Word} {n : ℕ} (hn : n < 2 ^ 32)
    (hw : fr32ToI128 w = n) : Word.toFr w = (n : Fr) ↔ w.high = 0 := by
  have hr : r = 0x73eda753299d7d483339d80809a1d80553bda402fffe5bfeffffffff00000001 :=
    rfl
  have hlow : fr32ToI128 w = ((w.toNat % 2 ^ 128 : ℕ) : ℤ) :=
    low_of_fr32ToI128_nonneg (by omega)
  have hres : Word.toFr w = (n : Fr) ↔ w.toNat % r = n := by
    unfold Word.toFr
    have hnr : n < r := by omega
    rw [ZMod.natCast_eq_natCast_iff', Nat.mod_eq_of_lt hnr]
  rw [hres]
  unfold Word.high
  have hlt := w.isLt
  constructor
  · intro hmod
    have hdiv := Nat.div_add_mod w.toNat r
    have hq : w.toNat / r < 3 := by
      rw [Nat.div_lt_iff_lt_mul (by omega)]
      omega
    generalize w.toNat / r = q at hdiv hq
    rcases (show q = 0 ∨ q = 1 ∨ q = 2 by omega) with rfl | rfl | rfl
    · omega
    · omega
    · omega
  · intro hhigh
    rw [Nat.mod_eq_of_lt (by omega)]
    omega

end Lumix
