/-
Proofs do not travel. The verifier sees a statement, a vector of field
elements; the pool sees words, up to three of them for one element, and
compares their low halves with its own ids and with the code of the
entrypoint called. So one statement can be shown to two pools, or to two
entrypoints, in two different encodings, and each comparison looks at
128 bits that the encoder has some choice in.

The choice is not enough. Encodings of one element differ by one or two
orders, and neither of these is within `2 ^ 32` of a multiple of
`2 ^ 128` (`low_unique`), so the low halves that pass for a 32-bit number
pass for one number only.
-/
import Lumix.Pool.Testnet

namespace Lumix

open Exec ProofVerifier

-- ======================================================== aliased words

/-- Two words for one field element whose low halves are 32-bit numbers
have the same number there. -/
theorem low_unique {v w : Word} {m n : ℕ} (hm : m < 2 ^ 32)
    (hn : n < 2 ^ 32) (hv : fr32ToI128 v = m) (hw : fr32ToI128 w = n)
    (h : Word.toFr v = Word.toFr w) : m = n := by
  have hr : r = 0x73eda753299d7d483339d80809a1d80553bda402fffe5bfeffffffff00000001 :=
    rfl
  have hlowv := low_of_fr32ToI128_nonneg (w := v) (by omega)
  have hloww := low_of_fr32ToI128_nonneg (w := w) (by omega)
  rw [Word.toFr_eq_iff] at h
  have hltv := v.isLt
  have hltw := w.isLt
  have hdivv := Nat.div_add_mod v.toNat r
  have hdivw := Nat.div_add_mod w.toNat r
  have hqv : v.toNat / r < 3 := by
    rw [Nat.div_lt_iff_lt_mul (by omega)]
    omega
  have hqw : w.toNat / r < 3 := by
    rw [Nat.div_lt_iff_lt_mul (by omega)]
    omega
  rw [h] at hdivv
  generalize v.toNat / r = p at hdivv hqv
  generalize w.toNat / r = q at hdivw hqw
  generalize w.toNat % r = x at hdivv hdivw
  -- nine differences of quotients; only the equal ones leave the low
  -- halves within 32 bits of each other
  rcases (show p = 0 ∨ p = 1 ∨ p = 2 by omega) with rfl | rfl | rfl
  all_goals
    rcases (show q = 0 ∨ q = 1 ∨ q = 2 by omega) with rfl | rfl | rfl
    all_goals omega

-- ========================================================== statements

section Statements

variable {L₁ L₂ : Type} [TokenHost L₁] [TokenHost L₂]

/-- Two admitted calls shown to the verifier as one statement denote the
same field element at every place. -/
theorem toFr_signal_congr {env₁ env₂ : Env} {p₁ p₂ : Pool} {c₁ c₂ : Call}
    (h₁ : c₁.Admitted env₁ p₁) (h₂ : c₂.Admitted env₂ p₂)
    {s₁ s₂ : Bytes} {v : List Fr}
    (hs₁ : c₁.signalBytes = some s₁) (hs₂ : c₂.signalBytes = some s₂)
    (hv₁ : publicFromBytes s₁ = .ok v) (hv₂ : publicFromBytes s₂ = .ok v)
    (i : ℕ) : Word.toFr (c₁.signal i) = Word.toFr (c₂.signal i) := by
  have hread : ∀ {env : Env} {p : Pool} {c : Call} {s : Bytes},
      c.Admitted env p → c.signalBytes = some s →
      publicFromBytes s = .ok v → c.signals.map Word.toFr = v := by
    intro env p c s hadm hs hv
    obtain ⟨bytes, hbytes, hparse⟩ := hadm.decoded
    rw [hs] at hbytes
    injection hbytes with hbytes
    rw [← hbytes] at hparse
    rw [publicFromBytes_of_parse hparse] at hv
    injection hv
  have hsame : c₁.signals.map Word.toFr = c₂.signals.map Word.toFr :=
    (hread h₁ hs₁ hv₁).trans (hread h₂ hs₂ hv₂).symm
  have hat := congrArg (fun l => l[i]?.getD (Word.toFr 0)) hsame
  simp only [List.getElem?_map, Option.getD_map] at hat
  exact hat

/-- The operation code of an exit, the number its entrypoint demands. -/
def Call.exitCode : Call → ℕ
  | withdraw _ => 1
  | withdrawCctp _ => 2
  | rfqSettle _ => 3
  | rfqSettleAtomicSwap _ => 5
  | _ => 0

theorem Call.Admitted.exitCode {env : Env} {p : Pool} {c : Call}
    (h : c.Admitted env p) (hc : c.Exits) :
    fr32ToI128 (c.signal 1) = c.exitCode := by
  have hterms := h.terms
  cases c with
  | withdraw a => exact hterms
  | withdrawCctp a => exact hterms
  | rfqSettle a => exact hterms.1
  | rfqSettleAtomicSwap a => exact hterms.1
  | _ => exact hc.elim

theorem Call.Exits.domainAt {c : Call} (hc : c.Exits) :
    c.domainAt = (8, 9) := by
  cases c <;> first
    | rfl
    | exact hc.elim

theorem Call.exitCode_lt (c : Call) : c.exitCode < 2 ^ 32 := by
  unfold Call.exitCode
  split <;> decide

/-- Exits with one operation code are calls of one entrypoint. -/
theorem Call.ctorIdx_of_exitCode {c₁ c₂ : Call} (h₁ : c₁.Exits)
    (h₂ : c₂.Exits) (h : c₁.exitCode = c₂.exitCode) :
    c₁.ctorIdx = c₂.ctorIdx := by
  cases c₁ <;> first
    | exact h₁.elim
    | skip
  all_goals
    cases c₂ <;> first
      | exact h₂.elim
      | rfl
      | exact absurd h (by simp [Call.exitCode])

/-- No replay. If one withdraw statement is accepted twice, by exits of
any two pools and in any two encodings, then the pools have the same
pool id and chain id, and the calls are of the same entrypoint. -/
theorem no_replay {env₁ env₂ : Env} {ctx₁ ctx₂ : Ctx}
    {w₁ w₁' : World L₁} {w₂ w₂' : World L₂} {c₁ c₂ : Call}
    (h₁ : exec env₁ ctx₁ w₁ c₁ = .ok w₁')
    (h₂ : exec env₂ ctx₂ w₂ c₂ = .ok w₂')
    (hc₁ : c₁.Exits) (hc₂ : c₂.Exits) {s₁ s₂ : Bytes} {v : List Fr}
    (hs₁ : c₁.signalBytes = some s₁) (hs₂ : c₂.signalBytes = some s₂)
    (hv₁ : publicFromBytes s₁ = .ok v)
    (hv₂ : publicFromBytes s₂ = .ok v) :
    w₁.pool.poolId = w₂.pool.poolId ∧ w₁.pool.chainId = w₂.pool.chainId
      ∧ c₁.ctorIdx = c₂.ctorIdx := by
  obtain ⟨hadm₁, -⟩ := exec_ok h₁ hc₁.settles
  obtain ⟨hadm₂, -⟩ := exec_ok h₂ hc₂.settles
  have hsame := toFr_signal_congr hadm₁ hadm₂ hs₁ hs₂ hv₁ hv₂
  have hpool₁ := hadm₁.poolId
  have hchain₁ := hadm₁.chainId
  have hpool₂ := hadm₂.poolId
  have hchain₂ := hadm₂.chainId
  rw [hc₁.domainAt] at hpool₁ hchain₁
  rw [hc₂.domainAt] at hpool₂ hchain₂
  refine ⟨?_, ?_, ?_⟩
  · exact UInt32.toNat_inj.mp (low_unique w₁.pool.poolId.toNat_lt
      w₂.pool.poolId.toNat_lt hpool₁ hpool₂ (hsame 8))
  · exact UInt32.toNat_inj.mp (low_unique w₁.pool.chainId.toNat_lt
      w₂.pool.chainId.toNat_lt hchain₁ hchain₂ (hsame 9))
  · exact Call.ctorIdx_of_exitCode hc₁ hc₂ (low_unique c₁.exitCode_lt
      c₂.exitCode_lt (hadm₁.exitCode hc₁) (hadm₂.exitCode hc₂) (hsame 1))

end Statements

section Runs

open Run Testnet

/-- The withdrawal of 40 in canonical words. -/
def canonicalCall : Call :=
  .withdraw ⟨user, proofBytes, canonicalBytes (.withdraw withdraw40)⟩

/-- The same statement with the order added to the nullifier word. -/
def aliasedCall : Call :=
  .withdraw {
    toAddr := user
    proofBytes := proofBytes
    pubSignalsBytes := encodeSignals
      ((withdraw40.publicSignals.map Word.ofFr).modifyHead
        (· + BitVec.ofNat 256 r)) }

/-- One statement accepted in two encodings, by one pool at two
moments. -/
theorem no_replay_aliased :
    (run (step env) (genesis 100 0) depositRun).pool.poolId
        = (run (step env) (genesis 100 0) withdrawRun).pool.poolId
      ∧ (run (step env) (genesis 100 0) depositRun).pool.chainId
        = (run (step env) (genesis 100 0) withdrawRun).pool.chainId
      ∧ canonicalCall.ctorIdx = aliasedCall.ctorIdx := by
  have hruns : (exec env ctx (run (step env) (genesis 100 0) depositRun)
        canonicalCall).isOk
      ∧ (exec env ctx (run (step env) (genesis 100 0) withdrawRun)
        aliasedCall).isOk
      ∧ (∀ s ∈ canonicalCall.signalBytes,
        publicFromBytes s = .ok withdraw40.publicSignals)
      ∧ ∀ s ∈ aliasedCall.signalBytes,
        publicFromBytes s = .ok withdraw40.publicSignals := by
    decide +kernel
  obtain ⟨hok₁, hok₂, hv₁, hv₂⟩ := hruns
  obtain ⟨w₁, hw₁⟩ := exists_ok_of_isOk hok₁
  obtain ⟨w₂, hw₂⟩ := exists_ok_of_isOk hok₂
  exact no_replay hw₁ hw₂ trivial trivial rfl rfl (hv₁ _ rfl) (hv₂ _ rfl)

end Runs

end Lumix
