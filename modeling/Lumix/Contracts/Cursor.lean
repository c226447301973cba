/-
The decoders of the verifier and of the pool, with the `u32` cursor the
source keeps.

Elsewhere the cursor is the bytes that are left, and can never overflow.
Here it is the number it is in the source: advanced by checked addition
and then used for a slice, so a read traps when its end does not fit 32
bits and when it is past the end of the bytes. On the bytes a contract
can be given, which have a `u32` length themselves, the two readings
return the same (`parsePublicSignals_agree` and its like).

What is read is a chunk after what was read before it (`take_append`),
as long as the cursor still fits; past that nothing is
(`takeEach_overflow`).
-/
import Lumix.Pool.State

namespace Lumix.Cursor

open Exec Digits ProofVerifier

-- ======================================================== the decoders

/-- `take`, and the slices of `read_u32_be` and `parse_public_signals`:
`n` bytes from `pos`, and the cursor after them. -/
def take (n : ℕ) (bytes : Bytes) (pos : ℕ) : Except Trap (Bytes × ℕ) := do
  let stop ← u32 (pos + n)
  panicIf (bytes.length < stop) .outOfRange
  pure ((bytes.drop pos).take n, stop)

/-- The loop of each decoder: `count` reads of `n` bytes. -/
def takeEach (n : ℕ) (bytes : Bytes) :
    (count : ℕ) → (pos : ℕ) → Except Trap (List Bytes × ℕ)
  | 0, pos => .ok ([], pos)
  | count + 1, pos => do
      let (arr, pos) ← take n bytes pos
      let (rest, pos) ← takeEach n bytes count pos
      pure (arr :: rest, pos)

/-- A verification key, point by point. -/
def vkFromBytes (bytes : Bytes) : Except Trap VerificationKey := do
  let (alpha, pos) ← take g1SerializedSize bytes 0
  let (beta, pos) ← take g2SerializedSize bytes pos
  let (gamma, pos) ← take g2SerializedSize bytes pos
  let (delta, pos) ← take g2SerializedSize bytes pos
  let (icLen, pos) ← take 4 bytes pos
  let (ic, _) ← takeEach g1SerializedSize bytes (beVal icLen) pos
  pure { alpha, beta, gamma, delta, ic }

/-- A proof's three points. -/
def proofFromBytes (bytes : Bytes) : Except Trap Proof := do
  let (a, pos) ← take g1SerializedSize bytes 0
  let (b, pos) ← take g2SerializedSize bytes pos
  let (c, _) ← take g1SerializedSize bytes pos
  pure { a, b, c }

/-- The signals as scalars. -/
def publicFromBytes (bytes : Bytes) : Except Trap (List Fr) := do
  let (len, pos) ← take 4 bytes 0
  let (signals, _) ← takeEach 32 bytes (beVal len) pos
  pure (signals.map fun arr => (Word.ofBytes arr).toFr)

/-- The signals as words. -/
def parsePublicSignals (bytes : Bytes) : Except Trap (List Word) := do
  let (len, pos) ← take 4 bytes 0
  let (signals, _) ← takeEach 32 bytes (beVal len) pos
  pure (signals.map Word.ofBytes)

-- ============================================================ one read

/-- When a piece is taken, and which. -/
theorem take_ok {n pos stop : ℕ} {bytes arr : Bytes} :
    take n bytes pos = .ok (arr, stop)
      ↔ stop = pos + n ∧ pos + n < 2 ^ 32 ∧ pos + n ≤ bytes.length
        ∧ arr = (bytes.drop pos).take n := by
  simp only [take, bind_eq_ok, u32_eq_ok, InU32, panicIf_eq_ok,
    pure_eq_ok, not_lt, Prod.mk.injEq, exists_and_left, exists_const]
  constructor
  · rintro ⟨_, ⟨hfits, rfl⟩, hlen, rfl, rfl⟩
    exact ⟨rfl, hfits, hlen, rfl⟩
  · rintro ⟨rfl, hfits, hlen, rfl⟩
    exact ⟨_, ⟨hfits, rfl⟩, hlen, rfl, rfl⟩

/-- A chunk is read where it stands. -/
theorem take_append {n pos : ℕ} {pre arr rest : Bytes}
    (hpos : pre.length = pos) (harr : arr.length = n)
    (hfits : pos + n < 2 ^ 32) :
    take n (pre ++ (arr ++ rest)) pos = .ok (arr, pos + n) := by
  apply take_ok.mpr
  refine ⟨rfl, hfits, ?_, ?_⟩
  · rw [List.length_append, List.length_append]
    omega
  · rw [← hpos, ← harr, List.drop_left, List.take_left]

/-- The cursor traps past 32 bits. -/
theorem take_overflow {n pos : ℕ} (bytes : Bytes)
    (h : 2 ^ 32 ≤ pos + n) : take n bytes pos = .error .overflow := by
  have hu32 : u32 (pos + n) = .error .overflow :=
    if_neg (Nat.not_lt.mpr h)
  unfold take
  rw [hu32]
  rfl

-- =========================================================== the loops

/-- Chunks of one size are read one after the other. -/
theorem takeEach_append {n pos : ℕ} {pre rest : Bytes}
    {chunks : List Bytes} (hpos : pre.length = pos)
    (hsize : ∀ c ∈ chunks, c.length = n)
    (hfits : pos + n * chunks.length < 2 ^ 32) :
    takeEach n (pre ++ (chunks.flatten ++ rest)) chunks.length pos
      = .ok (chunks, pos + n * chunks.length) := by
  induction chunks generalizing pre pos with
  | nil => rfl
  | cons c chunks ih =>
      obtain ⟨hc, hchunks⟩ := List.forall_mem_cons.mp hsize
      rw [List.length_cons, Nat.mul_succ] at hfits
      have htake := @take_append n pos pre c (chunks.flatten ++ rest)
        hpos hc (by omega)
      have hnext : (pre ++ c).length = pos + n := by
        rw [List.length_append, hpos, hc]
      have hrest := ih hnext hchunks (by omega)
      simp only [List.flatten_cons, List.append_assoc, List.length_cons,
        takeEach, bind_eq_ok, pure_eq_ok, Prod.exists, Prod.mk.injEq]
        at hrest ⊢
      refine ⟨c, pos + n, htake, chunks, _, hrest, rfl, ?_⟩
      rw [Nat.mul_succ]
      omega

/-- Where the last of the chunks ends past 32 bits, the cursor overflows
before it. -/
theorem takeEach_overflow {n pos : ℕ} {pre rest : Bytes}
    {chunks : List Bytes} (hpos : pre.length = pos) (hlow : pos < 2 ^ 32)
    (hsize : ∀ c ∈ chunks, c.length = n)
    (hover : 2 ^ 32 ≤ pos + n * chunks.length) :
    takeEach n (pre ++ (chunks.flatten ++ rest)) chunks.length pos
      = .error .overflow := by
  induction chunks generalizing pre pos with
  | nil =>
      rw [List.length_nil] at hover
      omega
  | cons c chunks ih =>
      obtain ⟨hc, hchunks⟩ := List.forall_mem_cons.mp hsize
      rw [List.length_cons, Nat.mul_succ] at hover
      rw [List.length_cons, takeEach]
      by_cases hfits : pos + n < 2 ^ 32
      · have htake := @take_append n pos pre c (chunks.flatten ++ rest)
          hpos hc hfits
        have hnext : (pre ++ c).length = pos + n := by
          rw [List.length_append, hpos, hc]
        have hrest := ih hnext hfits hchunks (by omega)
        rw [List.append_assoc] at hrest
        rw [List.flatten_cons, List.append_assoc, htake]
        show (takeEach n (pre ++ (c ++ (chunks.flatten ++ rest)))
          chunks.length (pos + n) >>= _) = _
        rw [hrest]
        rfl
      · rw [take_overflow _ (by omega)]
        rfl

-- ================================================= the bytes that are left

/-- The same without a cursor. -/
theorem takeBytes_ok {n : ℕ} {bytes arr rest : Bytes} :
    takeBytes n bytes = .ok (arr, rest)
      ↔ n ≤ bytes.length ∧ arr = bytes.take n ∧ rest = bytes.drop n := by
  induction n generalizing bytes arr rest with
  | zero => simp [takeBytes, eq_comm]
  | succ n ih =>
      cases bytes with
      | nil => simp [takeBytes]
      | cons b bytes =>
          rw [takeBytes, List.length_cons, List.take_succ_cons,
            List.drop_succ_cons]
          cases h : takeBytes n bytes with
          | ok p =>
              obtain ⟨bs, rest'⟩ := p
              obtain ⟨hlen, rfl, rfl⟩ := ih.mp h
              simp [hlen, eq_comm]
          | error t =>
              have hlen : ¬n ≤ bytes.length := by
                intro hlen
                rw [ih.mpr ⟨hlen, rfl, rfl⟩] at h
                cases h
              simp [hlen]

/-- What was read, with a cursor and with the bytes that are left. -/
def At {α : Type} (bytes : Bytes) (p : α × ℕ) (q : α × Bytes) : Prop :=
  p.1 = q.1 ∧ p.2 ≤ bytes.length ∧ q.2 = bytes.drop p.2

section Agreement

variable {bytes : Bytes} (hlen : bytes.length < 2 ^ 32)
include hlen

/-- On bytes of a `u32` length a read at a cursor is one of the bytes
that are left. -/
theorem take_agree {pos : ℕ} (n : ℕ) (hpos : pos ≤ bytes.length) :
    Agree (At bytes) (take n bytes pos)
      (takeBytes n (bytes.drop pos)) where
  left := by
    rintro ⟨arr, stop⟩ h
    obtain ⟨rfl, hfits, hle, rfl⟩ := take_ok.mp h
    refine ⟨_, takeBytes_ok.mpr ⟨?_, rfl, rfl⟩, rfl, hle, ?_⟩
    · rw [List.length_drop]
      omega
    · rw [List.drop_drop]
  right := by
    rintro ⟨arr, rest⟩ h
    obtain ⟨hle, rfl, rfl⟩ := takeBytes_ok.mp h
    rw [List.length_drop] at hle
    refine ⟨(_, pos + n), take_ok.mpr
      ⟨rfl, by omega, by omega, rfl⟩, rfl, ?_, ?_⟩
    · show pos + n ≤ bytes.length
      omega
    · rw [List.drop_drop]

/-- Pieces taken with a cursor are those taken off the front, -/
theorem takeEach_agree {pos : ℕ} (n count : ℕ) (hpos : pos ≤ bytes.length) :
    Agree (At bytes) (takeEach n bytes count pos)
      (takePoints n count (bytes.drop pos)) := by
  induction count generalizing pos with
  | zero => exact Agree.pure ⟨rfl, hpos, rfl⟩
  | succ count ih =>
      apply (take_agree hlen n hpos).bind
      rintro ⟨arr, stop⟩ ⟨_, rest⟩ ⟨rfl, hstop, rfl⟩
      apply (ih hstop).bind
      rintro ⟨chunks, last⟩ ⟨_, rest⟩ ⟨rfl, hlast, rfl⟩
      exact Agree.pure ⟨rfl, hlast, rfl⟩

/-- so a key is the same, -/
theorem vkFromBytes_agree : Agree Eq (vkFromBytes bytes)
    (ProofVerifier.vkFromBytes bytes) := by
  apply (take_agree hlen g1SerializedSize (Nat.zero_le _)).bind
  rintro ⟨alpha, pos₁⟩ ⟨_, _⟩ ⟨rfl, hpos₁, rfl⟩
  apply (take_agree hlen g2SerializedSize hpos₁).bind
  rintro ⟨beta, pos₂⟩ ⟨_, _⟩ ⟨rfl, hpos₂, rfl⟩
  apply (take_agree hlen g2SerializedSize hpos₂).bind
  rintro ⟨gamma, pos₃⟩ ⟨_, _⟩ ⟨rfl, hpos₃, rfl⟩
  apply (take_agree hlen g2SerializedSize hpos₃).bind
  rintro ⟨delta, pos₄⟩ ⟨_, _⟩ ⟨rfl, hpos₄, rfl⟩
  apply (take_agree hlen 4 hpos₄).bind
  rintro ⟨icLen, pos₅⟩ ⟨_, _⟩ ⟨rfl, hpos₅, rfl⟩
  apply (takeEach_agree hlen g1SerializedSize (beVal icLen) hpos₅).bind
  rintro ⟨ic, pos₆⟩ ⟨_, _⟩ ⟨rfl, -, rfl⟩
  exact Agree.pure rfl

/-- a proof -/
theorem proofFromBytes_agree : Agree Eq (proofFromBytes bytes)
    (ProofVerifier.proofFromBytes bytes) := by
  apply (take_agree hlen g1SerializedSize (Nat.zero_le _)).bind
  rintro ⟨a, pos₁⟩ ⟨_, _⟩ ⟨rfl, hpos₁, rfl⟩
  apply (take_agree hlen g2SerializedSize hpos₁).bind
  rintro ⟨b, pos₂⟩ ⟨_, _⟩ ⟨rfl, hpos₂, rfl⟩
  apply (take_agree hlen g1SerializedSize hpos₂).bind
  rintro ⟨c, pos₃⟩ ⟨_, _⟩ ⟨rfl, -, rfl⟩
  exact Agree.pure rfl

end Agreement

/-- The words are the chunks of 32 bytes. -/
theorem takeWords_eq (count : ℕ) (s : Bytes) :
    takeWords count s
      = (takePoints 32 count s).map fun p => p.1.map Word.ofBytes := by
  induction count generalizing s with
  | zero => rfl
  | succ count ih =>
      simp only [takeWords, takePoints, ih]
      cases takeBytes 32 s with
      | error t => rfl
      | ok p =>
          obtain ⟨arr, rest⟩ := p
          show (Except.map _ (takePoints 32 count rest) >>= _)
            = Except.map _ (takePoints 32 count rest >>= _)
          cases takePoints 32 count rest with
          | error t => rfl
          | ok q => rfl

/-- and signals. -/
theorem parsePublicSignals_agree {bytes : Bytes}
    (hlen : bytes.length < 2 ^ 32) :
    Agree Eq (parsePublicSignals bytes)
      (Lumix.parsePublicSignals bytes) := by
  apply (take_agree hlen 4 (Nat.zero_le _)).bind
  rintro ⟨len, pos₁⟩ ⟨_, _⟩ ⟨rfl, hpos₁, rfl⟩
  dsimp only
  rw [takeWords_eq]
  apply (takeEach_agree hlen 32 (beVal len) hpos₁).bind
  rintro ⟨signals, pos₂⟩ ⟨_, _⟩ ⟨rfl, -, rfl⟩
  exact Agree.pure rfl

/-- The two decoders of signals read the same words. -/
theorem publicFromBytes_eq (bytes : Bytes) :
    publicFromBytes bytes
      = (parsePublicSignals bytes).map (List.map Word.toFr) := by
  unfold publicFromBytes parsePublicSignals
  cases take 4 bytes 0 with
  | error t => rfl
  | ok p =>
      obtain ⟨len, pos⟩ := p
      show (takeEach 32 bytes (beVal len) pos >>= _)
        = Except.map _ (takeEach 32 bytes (beVal len) pos >>= _)
      cases takeEach 32 bytes (beVal len) pos with
      | error t => rfl
      | ok q =>
          show Except.ok _ = Except.ok _
          rw [List.map_map]
          rfl

end Lumix.Cursor
