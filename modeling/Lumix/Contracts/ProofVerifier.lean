/-
The ProofVerifier contract: a Groth16 verifier over BLS12-381 with a
stored verifying key. Points are the byte strings the contract slices
out; the group and pairing operations are host functions (`Bls12381`).

`publicFromBytes` is the verifier's reading of the public-signal bytes:
each 32-byte word becomes a scalar by reduction modulo the order.
-/
import Lumix.Contracts.Host

namespace Lumix

open Exec Digits

/-- The host's BLS12-381 operations on serialised points; they fail on
bytes that are no point. -/
structure Bls12381 where
  g1Mul : Bytes → Fr → Option Bytes
  g1Add : Bytes → Bytes → Option Bytes
  g1Neg : Bytes → Bytes
  pairingCheck : List Bytes → List Bytes → Option Bool

namespace ProofVerifier

/-- A decoded verifying key: `alpha` and `ic` in G1, the rest in G2. -/
structure VerificationKey where
  alpha : Bytes
  beta : Bytes
  gamma : Bytes
  delta : Bytes
  ic : List Bytes

/-- A proof's three points. -/
structure Proof where
  a : Bytes
  b : Bytes
  c : Bytes

/-- The bytes of a point of the one group, -/
def g1SerializedSize : ℕ := 96

/-- and of the other. -/
def g2SerializedSize : ℕ := 192

/-- `n` consecutive points of `size` bytes at the cursor. -/
def takePoints (size : ℕ) : ℕ → Bytes → Except Trap (List Bytes × Bytes)
  | 0, s => .ok ([], s)
  | n + 1, s => do
      let (p, s) ← takeBytes size s
      let (ps, s) ← takePoints size n s
      pure (p :: ps, s)

/-- A verification key, point by point. -/
def vkFromBytes (bytes : Bytes) : Except Trap VerificationKey := do
  let (alpha, s) ← takeBytes g1SerializedSize bytes
  let (beta, s) ← takeBytes g2SerializedSize s
  let (gamma, s) ← takeBytes g2SerializedSize s
  let (delta, s) ← takeBytes g2SerializedSize s
  let (icLen, s) ← takeBytes 4 s
  let (ic, _) ← takePoints g1SerializedSize (beVal icLen) s
  pure { alpha, beta, gamma, delta, ic }

/-- A proof's three points. -/
def proofFromBytes (bytes : Bytes) : Except Trap Proof := do
  let (a, s) ← takeBytes g1SerializedSize bytes
  let (b, s) ← takeBytes g2SerializedSize s
  let (c, _) ← takeBytes g1SerializedSize s
  pure { a, b, c }

/-- The loop of `public_from_bytes`. -/
def takeScalars : ℕ → Bytes → Except Trap (List Fr)
  | 0, _ => .ok []
  | n + 1, s => do
      let (arr, s) ← takeBytes 32 s
      let rest ← takeScalars n s
      pure ((Word.ofBytes arr).toFr :: rest)

/-- The signals as scalars. -/
def publicFromBytes (bytes : Bytes) : Except Trap (List Fr) := do
  let (len, s) ← takeBytes 4 bytes
  takeScalars (beVal len) s

/-- `vk_x = ic[0] + sum(pub_signals[i] * ic[i+1])`. -/
def linearCombination (bls : Bls12381) :
    Bytes → List Fr → List Bytes → Except Trap Bytes
  | acc, s :: ss, v :: vs => do
      let prod ← orPanic .crypto (bls.g1Mul v s)
      let acc ← orPanic .crypto (bls.g1Add acc prod)
      linearCombination bls acc ss vs
  | acc, _, _ => pure acc

/-- `verify` against the stored key, `none` when no key is stored. -/
def verify (bls : Bls12381) (vk : Option Bytes) (proof : Bytes)
    (publicInputs : Bytes) : Except Trap Bool :=
  if proof.length = 0 ∨ publicInputs.length = 0 then pure false
  else
    match vk with
    | none => pure false
    | some vkBytes => do
        let vk ← vkFromBytes vkBytes
        let proof ← proofFromBytes proof
        let pubSignals ← publicFromBytes publicInputs
        match vk.ic with
        | [] => pure false
        | ic0 :: ics =>
            if pubSignals.length ≠ ics.length then pure false
            else do
              let vkX ← linearCombination bls ic0 pubSignals ics
              -- e(-A, B) * e(alpha, beta) * e(vk_x, gamma) * e(C, delta) == 1
              orPanic .crypto (bls.pairingCheck
                [bls.g1Neg proof.a, vk.alpha, vkX, proof.c]
                [proof.b, vk.beta, vk.gamma, vk.delta])

-- ============================================================== failures

/-- Reading points raises no contract error, -/
theorem takePoints_codeless (size n : ℕ) (s : Bytes) :
    Codeless (takePoints size n s) := by
  induction n generalizing s with
  | zero => exact Codeless.ok _
  | succ n ih =>
      apply (takeBytes_codeless size s).bind
      intro ps
      apply (ih ps.2).bind
      intro rest
      exact Codeless.ok _

/-- nor reading a key, -/
theorem vkFromBytes_codeless (bytes : Bytes) :
    Codeless (vkFromBytes bytes) := by
  apply (takeBytes_codeless _ _).bind
  intro alpha
  apply (takeBytes_codeless _ _).bind
  intro beta
  apply (takeBytes_codeless _ _).bind
  intro gamma
  apply (takeBytes_codeless _ _).bind
  intro delta
  apply (takeBytes_codeless _ _).bind
  intro icLen
  apply (takePoints_codeless _ _ _).bind
  intro ic
  exact Codeless.ok _

/-- a proof, -/
theorem proofFromBytes_codeless (bytes : Bytes) :
    Codeless (proofFromBytes bytes) := by
  apply (takeBytes_codeless _ _).bind
  intro a
  apply (takeBytes_codeless _ _).bind
  intro b
  apply (takeBytes_codeless _ _).bind
  intro c
  exact Codeless.ok _

/-- scalars -/
theorem takeScalars_codeless (n : ℕ) (s : Bytes) :
    Codeless (takeScalars n s) := by
  induction n generalizing s with
  | zero => exact Codeless.ok _
  | succ n ih =>
      apply (takeBytes_codeless 32 s).bind
      intro arr
      apply (ih arr.2).bind
      intro rest
      exact Codeless.ok _

/-- or signals, -/
theorem publicFromBytes_codeless (bytes : Bytes) :
    Codeless (publicFromBytes bytes) := by
  apply (takeBytes_codeless 4 bytes).bind
  intro len
  exact takeScalars_codeless _ _

/-- nor combining them. -/
theorem linearCombination_codeless (bls : Bls12381) (acc : Bytes)
    (ss : List Fr) (vs : List Bytes) :
    Codeless (linearCombination bls acc ss vs) := by
  induction ss generalizing acc vs with
  | nil => exact Codeless.ok _
  | cons s ss ih =>
      cases vs with
      | nil => exact Codeless.ok _
      | cons v vs =>
          apply (Codeless.orPanic (t := .crypto) nofun _).bind
          intro prod
          apply (Codeless.orPanic (t := .crypto) nofun _).bind
          intro sum
          exact ih sum vs

/-- The verifier fails with no error code: it answers, or the host
traps. -/
theorem verify_codeless (bls : Bls12381) (vk : Option Bytes)
    (proof publicInputs : Bytes) :
    Codeless (verify bls vk proof publicInputs) := by
  unfold verify
  split
  · exact Codeless.ok _
  · cases vk with
    | none => exact Codeless.ok _
    | some vkBytes =>
        apply (vkFromBytes_codeless vkBytes).bind
        intro vk
        apply (proofFromBytes_codeless proof).bind
        intro proof
        apply (publicFromBytes_codeless publicInputs).bind
        intro pubSignals
        cases vk.ic with
        | nil => exact Codeless.ok _
        | cons ic0 ics =>
            show Codeless (if _ then _ else _)
            split
            · exact Codeless.ok _
            · apply (linearCombination_codeless bls ic0 pubSignals ics).bind
              intro vkX
              exact Codeless.orPanic (t := .crypto) nofun _

end ProofVerifier

end Lumix
