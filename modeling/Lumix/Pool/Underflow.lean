/-
When an exit underflows the note supply.

Success is analysed in the effects; a claim that a call does not fail
with a given error needs the failures. Only `adjust_note_supply` raises
`SupplyUnderflow`: the registry, the verifier, the tokens and the
decoder fail without a contract error code (`Codeless`), and every other
check of the pool has a code of its own. So an exit fails with
`SupplyUnderflow` only where its value exceeds the supply of its asset
(`exit_underflow`).
-/
import Lumix.Pool.Effects

namespace Lumix

open Exec

variable {L : Type} [TokenHost L]

-- ========================================================= error codes

@[simp]
theorem PoolError.trap_inj {e e' : PoolError} :
    e.trap = e'.trap ↔ e = e' := by
  constructor
  · intro h
    injection h with hcode
    have hidx : e.ctorIdx = e'.ctorIdx := Nat.succ.inj hcode
    rw [← PoolError.ofNat_ctorIdx e, hidx, PoolError.ofNat_ctorIdx]
  · rintro rfl
    rfl

theorem Codeless.ne_trap {α : Type} {x : Except Trap α} (h : Codeless x)
    (e : PoolError) : x = .error e.trap ↔ False :=
  iff_of_false (h _) id

theorem takeWords_codeless (n : ℕ) (s : Bytes) :
    Codeless (takeWords n s) := by
  induction n generalizing s with
  | zero => exact Codeless.ok _
  | succ n ih =>
      apply (takeBytes_codeless 32 s).bind
      intro arr
      apply (ih arr.2).bind
      intro rest
      exact Codeless.ok _

theorem parsePublicSignals_codeless (bytes : Bytes) :
    Codeless (parsePublicSignals bytes) := by
  apply (takeBytes_codeless 4 bytes).bind
  intro len
  exact takeWords_codeless _ _

theorem recipientHash_codeless (env : Env) (a : Address) :
    Codeless (recipientHash env a) := by
  apply (Codeless.panicIf (t := .outOfRange) nofun _).bind
  intro _
  exact Codeless.ok _

omit [TokenHost L] in
theorem spendNullifier_codeless (env : Env) (ctx : Ctx) (w : World L)
    (n : Word) : Codeless (spendNullifier env ctx w n) := by
  apply (NullifierRegistry.spend_codeless _ _ _ _).bind
  intro _
  exact Codeless.ok _

theorem invoke_codeless (w : World L) (op : TokenOp) :
    Codeless (w.invoke op) := by
  apply (TokenOp.perform_codeless _ _).bind
  intro _
  exact Codeless.ok _

-- ============================================================ underflow

@[simp]
theorem parsePublicSignals_ne_trap {bytes : Bytes} {e : PoolError} :
    parsePublicSignals bytes = .error e.trap ↔ False :=
  (parsePublicSignals_codeless bytes).ne_trap e

@[simp]
theorem unwrap_ne_trap {α : Type} {o : Option α} {e : PoolError} :
    orPanic .unwrapNone o = .error e.trap ↔ False :=
  (Codeless.orPanic (t := .unwrapNone) nofun _).ne_trap e

@[simp]
theorem sig_ne_trap {signals : List Word} {i : ℕ} {e : PoolError} :
    sig signals i = .error e.trap ↔ False :=
  unwrap_ne_trap

@[simp]
theorem i128_ne_trap {x : ℤ} {e : PoolError} :
    i128 x = .error e.trap ↔ False := by
  rw [i128_eq_error]
  exact iff_of_false (fun h => nomatch h.2) id

@[simp]
theorem u32_ne_trap {x : ℕ} {e : PoolError} :
    u32 x = .error e.trap ↔ False := by
  rw [u32_eq_error]
  exact iff_of_false (fun h => nomatch h.2) id

@[simp]
theorem requireAuth_ne_trap {ctx : Ctx} {a : Address} {e : PoolError} :
    ctx.requireAuth a = .error e.trap ↔ False :=
  (Codeless.panicIf (t := .auth) nofun _).ne_trap e

@[simp]
theorem recipientHash_ne_trap {env : Env} {a : Address} {e : PoolError} :
    recipientHash env a = .error e.trap ↔ False :=
  (recipientHash_codeless env a).ne_trap e

omit [TokenHost L] in
@[simp]
theorem spendNullifier_ne_trap {env : Env} {ctx : Ctx} {w : World L}
    {n : Word} {e : PoolError} :
    spendNullifier env ctx w n = .error e.trap ↔ False :=
  (spendNullifier_codeless env ctx w n).ne_trap e

@[simp]
theorem invoke_ne_trap {w : World L} {op : TokenOp} {e : PoolError} :
    w.invoke op = .error e.trap ↔ False :=
  (invoke_codeless w op).ne_trap e

@[simp]
theorem checkDomainCompliance_ne_underflow {p : Pool}
    {signals : List Word} :
    p.checkDomainCompliance signals
      = .error PoolError.supplyUnderflow.trap ↔ False := by
  simp [Pool.checkDomainCompliance, bind_eq_error]

omit [TokenHost L] in
@[simp]
theorem verifyProof_ne_underflow {env : Env} {w : World L}
    {verifier : Address} {pb sb : Bytes} :
    verifyProof env w verifier pb sb .proofInvalid
      = .error PoolError.supplyUnderflow.trap ↔ False := by
  refine iff_of_false ?_ id
  refine bind_ne_error (Codeless.orPanic (t := .noContract) nofun _ _) ?_
  intro vk _
  refine bind_ne_error (ProofVerifier.verify_codeless _ _ _ _ _) ?_
  intro ok _
  simp

@[simp]
theorem getAssetToken_ne_underflow {p : Pool} {asset : Word} :
    p.getAssetToken asset = .error PoolError.supplyUnderflow.trap
      ↔ False := by
  simp [Pool.getAssetToken]

/-- The one place `SupplyUnderflow` comes from. -/
theorem adjustNoteSupply_underflow {env : Env} {w : World L} {asset : Word}
    {delta : ℤ} (h : adjustNoteSupply env w asset delta
      = .error PoolError.supplyUnderflow.trap) :
    w.pool.noteSupply asset + delta < 0 := by
  simp only [adjustNoteSupply, bind_eq_error, getAssetToken_ne_underflow,
    false_or, i128_eq_error, i128_eq_ok, panicIf_eq_error, and_true,
    pure_eq_error, and_false, exists_false, or_false] at h
  obtain ⟨_, -, ⟨-, hne⟩ | ⟨_, ⟨-, rfl⟩, hneg | ⟨_, -, -, hne⟩⟩⟩ := h
  · cases hne
  · exact hneg
  · cases PoolError.trap_inj.mp hne

omit [TokenHost L] in
theorem spendNullifier_pool {env : Env} {ctx : Ctx} {w w' : World L}
    {n : Word} (h : spendNullifier env ctx w n = .ok w') :
    w'.pool = w.pool := by
  obtain ⟨-, rfl⟩ := spendNullifier_ok h
  rfl

theorem invoke_pool {w w' : World L} {op : TokenOp}
    (h : w.invoke op = .ok w') : w'.pool = w.pool := by
  obtain ⟨_, -, rfl⟩ := invoke_ok h
  rfl

theorem withdraw_underflow {env : Env} {ctx : Ctx} {a : WithdrawArgs}
    {w : World L} (h : withdraw env ctx a w
      = .error PoolError.supplyUnderflow.trap) :
    w.pool.noteSupply ((Call.withdraw a).signal 17)
      < fr32ToI128 ((Call.withdraw a).signal 2) := by
  simp only [withdraw, Pool.requireNotPaused, Pool.requireKnownRoot,
    bind_eq_error, panicIf_eq_error, PoolError.trap_inj, reduceCtorEq,
    parsePublicSignals_ne_trap, sig_ne_trap, requireAuth_ne_trap,
    recipientHash_ne_trap, checkDomainCompliance_ne_underflow,
    verifyProof_ne_underflow, spendNullifier_ne_trap,
    getAssetToken_ne_underflow, invoke_ne_trap, pure_eq_error, and_false,
    exists_false, false_or, or_false, sig_eq_ok, panicIf_eq_ok,
    exists_and_left, exists_eq_left', exists_const, and_assoc] at h
  obtain ⟨-, _, -, signals, hparse, -, -, -, -, -, -, -, -, -, -, -, _, -,
    -, _, -, -, _, -, w₁, hspend, _, -, -, w₂, hpay, hadjust⟩ := h
  obtain rfl := Call.signals_eq (c := .withdraw a) rfl hparse
  have hneg := adjustNoteSupply_underflow hadjust
  rw [invoke_pool hpay, spendNullifier_pool hspend] at hneg
  exact Int.lt_of_sub_neg hneg

theorem withdrawCctp_underflow {env : Env} {ctx : Ctx}
    {a : WithdrawCctpArgs} {w : World L} (h : withdrawCctp env ctx a w
      = .error PoolError.supplyUnderflow.trap) :
    w.pool.noteSupply ((Call.withdrawCctp a).signal 17)
      < fr32ToI128 ((Call.withdrawCctp a).signal 2) := by
  simp only [withdrawCctp, Pool.requireNotPaused, Pool.requireKnownRoot,
    bind_eq_error, panicIf_eq_error, PoolError.trap_inj, reduceCtorEq,
    parsePublicSignals_ne_trap, sig_ne_trap, requireAuth_ne_trap,
    recipientHash_ne_trap, checkDomainCompliance_ne_underflow,
    verifyProof_ne_underflow, spendNullifier_ne_trap, invoke_ne_trap,
    unwrap_ne_trap, i128_ne_trap, u32_ne_trap, pure_eq_error, and_false,
    exists_false, false_or, or_false, sig_eq_ok, panicIf_eq_ok,
    exists_and_left, exists_eq_left', exists_const, and_assoc] at h
  obtain ⟨-, _, -, signals, hparse, -, -, -, -, -, -, -, -, _, -, -, -, -,
    -, -, -, -, -, -, -, -, _, -, -, _, -, w₁, hspend, _, -, _, -, _, -, w₂,
    happrove, w₃, hburn, hadjust⟩ := h
  obtain rfl := Call.signals_eq (c := .withdrawCctp a) rfl hparse
  have hneg := adjustNoteSupply_underflow hadjust
  rw [invoke_pool hburn, invoke_pool happrove, spendNullifier_pool hspend]
    at hneg
  exact Int.lt_of_sub_neg hneg

theorem rfqSettle_ne_underflow {env : Env} {ctx : Ctx} {a : RfqSettleArgs}
    {w : World L} :
    rfqSettle env ctx a w ≠ .error PoolError.supplyUnderflow.trap := by
  intro h
  have hcrypto : ∀ e : PoolError, Trap.crypto = e.trap ↔ False :=
    fun e => iff_of_false nofun id
  simp only [rfqSettle, Pool.requireNotPaused, Pool.requireKnownRoot,
    bind_eq_error, panicIf_eq_error, PoolError.trap_inj, reduceCtorEq,
    hcrypto, parsePublicSignals_ne_trap, sig_ne_trap,
    checkDomainCompliance_ne_underflow, verifyProof_ne_underflow,
    spendNullifier_ne_trap, invoke_ne_trap, pure_eq_error, and_false,
    exists_false, or_false] at h

theorem rfqSettleAtomicSwap_underflow {env : Env} {ctx : Ctx}
    {a : AtomicSwapArgs} {w : World L}
    (h : rfqSettleAtomicSwap env ctx a w
      = .error PoolError.supplyUnderflow.trap) :
    w.pool.noteSupply ((Call.rfqSettleAtomicSwap a).signal 17)
      < fr32ToI128 ((Call.rfqSettleAtomicSwap a).signal 2) := by
  have hcrypto : ∀ e : PoolError, Trap.crypto = e.trap ↔ False :=
    fun e => iff_of_false nofun id
  simp only [rfqSettleAtomicSwap, Pool.requireNotPaused,
    Pool.requireKnownRoot, bind_eq_error, panicIf_eq_error,
    PoolError.trap_inj, reduceCtorEq, hcrypto, parsePublicSignals_ne_trap,
    sig_ne_trap, recipientHash_ne_trap, checkDomainCompliance_ne_underflow,
    verifyProof_ne_underflow, spendNullifier_ne_trap,
    getAssetToken_ne_underflow, invoke_ne_trap, pure_eq_error, and_false,
    exists_false, false_or, or_false, sig_eq_ok, panicIf_eq_ok,
    exists_and_left, exists_eq_left', exists_const, and_assoc] at h
  obtain ⟨-, -, -, _, -, -, signals, hparse, -, -, -, -, -, -, -, -, -, -,
    -, -, -, -, -, -, -, -, -, _, -, -, _, -, w₁, hspend, _, -, -, w₂, hout,
    _, -, -, w₃, hin, hadjust⟩ := h
  obtain rfl := Call.signals_eq (c := .rfqSettleAtomicSwap a) rfl hparse
  have hneg := adjustNoteSupply_underflow hadjust
  rw [invoke_pool hin, invoke_pool hout, spendNullifier_pool hspend]
    at hneg
  exact Int.lt_of_sub_neg hneg

/-- An exit fails with `SupplyUnderflow` only past the supply of its
note's asset. -/
theorem exit_underflow {env : Env} {ctx : Ctx} {w : World L} {c : Call}
    (hc : c.Exits)
    (h : exec env ctx w c = .error PoolError.supplyUnderflow.trap) :
    w.pool.noteSupply (c.signal 17) < fr32ToI128 (c.signal 2) := by
  cases c with
  | withdraw a => exact withdraw_underflow h
  | rfqSettle a => exact absurd h rfqSettle_ne_underflow
  | rfqSettleAtomicSwap a => exact rfqSettleAtomicSwap_underflow h
  | withdrawCctp a =>
      simp only [exec, bind_eq_error, pure_eq_error, and_false,
        exists_false, or_false] at h
      exact withdrawCctp_underflow h
  | _ => exact hc.elim

end Lumix
