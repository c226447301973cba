/-
What leaves the pool when a note is spent publicly.

Four entrypoints share the withdraw circuit and pay a note out. They
find the token in two ways: `withdraw` and `rfq_settle_atomic_swap` look
the note's asset up, `rfq_settle` and `withdraw_cctp` use the USDC
address the pool was constructed with. `payout_faithful_iff` says when
the second way pays the note's own asset.

`payout_bounded` bounds the amounts: no exit releases more than the
note's withdrawn value, save that a CCTP exit approves the messenger for
its fee on top.
-/
import Lumix.Pool.Testnet

namespace Lumix

open Exec Run

variable {L : Type} [TokenHost L]

-- =============================================================== exits

/-- The exits that pay in the pool's own USDC address. -/
def Call.PaysStoredUsdc : Call → Prop
  | withdrawCctp _ | rfqSettle _ => True
  | _ => False

/-- The token that moves. -/
def TokenOp.token : TokenOp → Address
  | transfer token _ _ _ => token
  | approve token _ _ _ _ => token
  | depositForBurn _ args => args.burnToken

/-- The output leg of an atomic swap: the quoted output, in the output
asset, to the user, all named in the solver-signed terms. -/
def Call.Delivers (env : Env) (p : Pool) : Call → TokenOp → Prop
  | rfqSettleAtomicSwap a, op => ∃ t, p.assetToken a.outputAssetId = some t
      ∧ op = .transfer t env.self a.userXlmRecipient a.quotedOutput.toInt
  | _, _ => False

theorem mem_payout {env : Env} {token : Option Address} {dst : Address}
    {x : ℤ} {op : TokenOp} (h : op ∈ payout env token dst x) :
    ∃ t, token = some t ∧ op = .transfer t env.self dst x := by
  obtain ⟨t, ht, rfl⟩ := List.mem_map.mp h
  exact ⟨t, Option.mem_toList.mp ht, rfl⟩

-- ============================================================== tokens

/-- Every token an accepted exit moved was the note's own, or was the
output leg of a swap, exactly when the exits that pay in the stored USDC
address spend a note whose asset is registered on it. -/
theorem payout_faithful_iff {env : Env} {ctx : Ctx} {w w' : World L}
    {c : Call} (h : exec env ctx w c = .ok w') (hc : c.Exits) :
    ∃ ops, w'.trace = w.trace ++ ops
      ∧ ((∀ op ∈ ops, w.pool.assetToken (c.signal 17) = some op.token
          ∨ c.Delivers env w.pool op)
        ↔ (c.PaysStoredUsdc →
          w.pool.assetToken (c.signal 17) = some w.pool.usdc)) := by
  obtain ⟨hadm, happ⟩ := exec_ok h hc.settles
  refine ⟨_, happ.trace, ?_⟩
  cases c with
  | withdraw a =>
      refine iff_of_true ?_ fun hpays => hpays.elim
      intro op ho
      obtain ⟨t, ht, rfl⟩ := mem_payout ho
      exact Or.inl ht
  | rfqSettleAtomicSwap a =>
      refine iff_of_true ?_ fun hpays => hpays.elim
      intro op ho
      rcases List.mem_append.mp ho with ho | ho
      · obtain ⟨t, ht, rfl⟩ := mem_payout ho
        exact Or.inr ⟨t, ht, rfl⟩
      · obtain ⟨t, ht, rfl⟩ := mem_payout ho
        exact Or.inl ht
  | rfqSettle a =>
      constructor
      · intro hall _
        rcases hall _ (List.mem_singleton_self _) with htoken | hdel
        · exact htoken
        · exact hdel.elim
      · intro husdc op ho
        obtain ⟨t, ht, rfl⟩ := mem_payout ho
        injection ht with ht
        subst ht
        exact Or.inl (husdc trivial)
  | withdrawCctp a =>
      obtain ⟨-, -, hset⟩ := hadm.amounts
      obtain ⟨tmm, htmm⟩ := Option.isSome_iff_exists.mp hset
      have hops := burnOut_eq env ctx a
        (fr32ToI128 ((Call.withdrawCctp a).signal 2)) htmm
      simp only [Call.effect, hops]
      constructor
      · intro hall _
        rcases hall _ (List.mem_cons_self ..) with htoken | hdel
        · exact htoken
        · exact hdel.elim
      · intro husdc op ho
        rcases List.mem_pair.mp ho with rfl | rfl
        · exact Or.inl (husdc trivial)
        · exact Or.inl (husdc trivial)
  | _ => exact hc.elim

section Runs

open Testnet

/-- 40 of the USDC note, credited to a solver. -/
def rfqU : Withdraw :=
  exit 3 noteU (Opening.ofTwo env.poseidon 12 false
    (noteX.commitment env.poseidon)) 40 0

/-- 40 of the XLM note, credited to a solver. -/
def rfqX : Withdraw :=
  exit 3 noteX (Opening.ofTwo env.poseidon 12 true
    (noteU.commitment env.poseidon)) 40 0

/-- Both credits are accepted. The USDC note's asset resolves to the token
paid out, the XLM note's does not. -/
theorem rfqs_evaluated :
    ((exec env ctx twoNotes (.rfqSettle (rfqArgs rfqU))).isOk
      ∧ twoNotes.pool.assetToken
        ((Call.rfqSettle (rfqArgs rfqU)).signal 17)
        = some twoNotes.pool.usdc)
    ∧ (exec env ctx twoNotes (.rfqSettle (rfqArgs rfqX))).isOk
      ∧ Proven env.poseidon 12 2 (.rfqSettle (rfqArgs rfqX))
        (.withdraw rfqX)
      ∧ twoNotes.pool.assetToken
        ((Call.rfqSettle (rfqArgs rfqX)).signal 17) = some xlm
      ∧ twoNotes.pool.usdc = usdc := by
  decide +kernel

/-- The USDC note is paid out in USDC. -/
theorem payout_faithful_rfq :
    ∃ w' ops, exec env ctx twoNotes (.rfqSettle (rfqArgs rfqU))
        = .ok w'
      ∧ w'.trace = twoNotes.trace ++ ops
      ∧ ∀ op ∈ ops, twoNotes.pool.assetToken
          ((Call.rfqSettle (rfqArgs rfqU)).signal 17) = some op.token
        ∨ (Call.rfqSettle (rfqArgs rfqU)).Delivers env twoNotes.pool
          op := by
  obtain ⟨⟨hok, husdc⟩, -⟩ := rfqs_evaluated
  obtain ⟨w', hw'⟩ := exists_ok_of_isOk hok
  obtain ⟨ops, htrace, hiff⟩ := payout_faithful_iff hw' trivial
  exact ⟨w', ops, hw', htrace, hiff.mpr fun _ => husdc⟩

/-- The XLM note is paid out in USDC as well. -/
theorem payout_unfaithful_rfq :
    (genesis 100 2500).Constructed
      ∧ Proven env.poseidon 12 2 (.rfqSettle (rfqArgs rfqX))
        (.withdraw rfqX)
      ∧ ∃ w' ops, exec env ctx twoNotes (.rfqSettle (rfqArgs rfqX))
          = .ok w'
        ∧ w'.trace = twoNotes.trace ++ ops
        ∧ ¬∀ op ∈ ops, twoNotes.pool.assetToken
            ((Call.rfqSettle (rfqArgs rfqX)).signal 17) = some op.token
          ∨ (Call.rfqSettle (rfqArgs rfqX)).Delivers env
            twoNotes.pool op := by
  obtain ⟨-, hok, hproven, hxlm, husdc⟩ := rfqs_evaluated
  obtain ⟨w', hw'⟩ := exists_ok_of_isOk hok
  obtain ⟨-, happ⟩ := exec_ok hw' trivial
  refine ⟨genesis_constructed 100 2500, hproven, w', _, hw', happ.trace,
    ?_⟩
  intro hall
  rcases hall _ (List.mem_singleton_self _) with htoken | hdel
  · rw [hxlm] at htoken
    injection htoken with htoken
    have heq : xlm = usdc := htoken.trans husdc
    exact absurd heq (by decide)
  · exact hdel.elim

end Runs

-- ============================================================= amounts

/-- What an invocation transfers. -/
def TokenOp.transferred : TokenOp → ℤ
  | transfer _ _ _ amount => amount
  | approve _ _ _ _ _ | depositForBurn _ _ => 0

/-- What an invocation approves. -/
def TokenOp.granted : TokenOp → ℤ
  | approve _ _ _ amount _ => amount
  | transfer _ _ _ _ | depositForBurn _ _ => 0

/-- What an exit grants on top of the withdrawn value by design: a CCTP
exit approves a positive fee as well. -/
def Call.feeBudget : Call → ℤ
  | withdrawCctp a => if a.maxFee.toInt > 0 then a.maxFee.toInt else 0
  | _ => 0

/-- What the pool lets go of in the given invocations: transfers and
allowances. -/
def released (ops : List TokenOp) : ℤ :=
  (ops.map TokenOp.transferred).sum + (ops.map TokenOp.granted).sum

/-- A transfer out, if its asset resolves, is of the given amount. -/
theorem released_payout_le {env : Env} {token : Option Address}
    {dst : Address} {x bound : ℤ} (hx : x ≤ bound) (hb : 0 ≤ bound) :
    released (payout env token dst x) ≤ bound := by
  cases token with
  | none => exact hb
  | some t =>
      simpa [released, TokenOp.transferred, TokenOp.granted] using hx

/-- Of a spend whose value word is canonical: apart from the output leg
of a swap, transfers and allowances together are at most the withdrawn
value, plus a positive fee for a CCTP exit; and the withdrawn value is
at most the note's. -/
theorem payout_bounded {env : Env} {ctx : Ctx} {w w' : World L} {c : Call}
    {x : Withdraw} {treeDepth associationDepth : ℕ}
    (h : exec env ctx w c = .ok w') (hc : c.Exits)
    (hp : Proven env.poseidon treeDepth associationDepth c (.withdraw x))
    (hcan : (c.signal 2).Canonical) :
    ∃ delivery ops, w'.trace = w.trace ++ (delivery ++ ops)
      ∧ (∀ op ∈ delivery, c.Delivers env w.pool op)
      ∧ released ops ≤ x.withdrawnValue.val + c.feeBudget
      ∧ x.withdrawnValue.val ≤ x.note.value.val := by
  obtain ⟨hadm, happ⟩ := exec_ok h hc.settles
  have hle := Withdraw.Satisfied.withdrawn_le hp.satisfied
  cases c with
  | withdraw a =>
      obtain ⟨hv, hf, -⟩ := hadm.amounts
      have hnarrow := narrow_withdrawn hp hadm hcan hv
      refine ⟨[], _, happ.trace, by simp, ?_, hle⟩
      simp only [Call.feeBudget, add_zero]
      exact released_payout_le (by omega) (by omega)
  | rfqSettle a =>
      obtain ⟨hv, -, -⟩ := hadm.amounts
      have hnarrow := narrow_withdrawn hp hadm hcan hv
      refine ⟨[], payout env (some w.pool.usdc) a.toSolver
        (fr32ToI128 ((Call.rfqSettle a).signal 2)), happ.trace, by simp,
        ?_, hle⟩
      simp only [Call.feeBudget, add_zero]
      exact released_payout_le hnarrow.le (by omega)
  | rfqSettleAtomicSwap a =>
      obtain ⟨hv, hf, -⟩ := hadm.amounts
      have hnarrow := narrow_withdrawn hp hadm hcan hv
      refine ⟨_, _, happ.trace, ?_, ?_, hle⟩
      · intro op ho
        obtain ⟨t, ht, rfl⟩ := mem_payout ho
        exact ⟨t, ht, rfl⟩
      · simp only [Call.feeBudget, add_zero]
        exact released_payout_le (by omega) (by omega)
  | withdrawCctp a =>
      obtain ⟨hv, -, hset⟩ := hadm.amounts
      obtain ⟨tmm, htmm⟩ := Option.isSome_iff_exists.mp hset
      have hnarrow := narrow_withdrawn hp hadm hcan hv
      have hops := burnOut_eq env ctx a
        (fr32ToI128 ((Call.withdrawCctp a).signal 2)) htmm
      have htrace := happ.trace
      simp only [Call.effect, hops] at htrace
      refine ⟨[], _, htrace, by simp, ?_, hle⟩
      simp [released, TokenOp.transferred, TokenOp.granted, pullAmount,
        Call.feeBudget, hnarrow]
  | _ => exact hc.elim

section Amounts

open Testnet

/-- The testnet pool with the USDC note deposited. -/
def depositedU : World SacLedger :=
  run (step env) (genesis 100 0) depositRun

/-- 40 of the USDC note burned out through CCTP, with a fee of 10. -/
def burn40 : Withdraw := exit 2 noteU openU 40 10

/-- A withdrawal of 40 to another chain. -/
def burnCall : Call :=
  .withdrawCctp {
    toAddr := user
    proofBytes := proofBytes
    pubSignalsBytes := canonicalBytes (.withdraw burn40)
    destinationDomain := 3
    destinationRecipient := 7
    maxFee := 10
    minFinalityThreshold := 1000 }

/-- The burn is proven and accepted; it lets go of more than 40. -/
theorem burn_evaluated :
    (exec env ctx depositedU burnCall).isOk
    ∧ Proven env.poseidon 12 2 burnCall (.withdraw burn40)
    ∧ (burnCall.signal 2).Canonical
    ∧ ¬released (burnCall.effect env ctx depositedU.pool).ops
      ≤ burn40.withdrawnValue.val := by
  decide +kernel

/-- The exit releases at most the withdrawn value and the fee. -/
theorem payout_bounded_burn :
    ∃ w' delivery ops, exec env ctx depositedU burnCall = .ok w'
      ∧ w'.trace = depositedU.trace ++ (delivery ++ ops)
      ∧ (∀ op ∈ delivery, burnCall.Delivers env depositedU.pool op)
      ∧ released ops ≤ 40 + 10
      ∧ burn40.withdrawnValue.val ≤ noteU.value.val := by
  obtain ⟨hok, hp, hcan, -⟩ := burn_evaluated
  obtain ⟨w', hw'⟩ := exists_ok_of_isOk hok
  obtain ⟨delivery, ops, htrace, hdel, hreleased, hle⟩ :=
    payout_bounded hw' trivial hp hcan
  exact ⟨w', delivery, ops, hw', htrace, hdel, hreleased, hle⟩

/-- It does release more than the withdrawn value: the messenger is
approved for 50. -/
theorem burn_exceeds_withdrawn :
    Proven env.poseidon 12 2 burnCall (.withdraw burn40)
      ∧ ∃ w' ops, exec env ctx depositedU burnCall = .ok w'
        ∧ w'.trace = depositedU.trace ++ ops
        ∧ ¬released ops ≤ burn40.withdrawnValue.val := by
  obtain ⟨hok, hp, -, hmore⟩ := burn_evaluated
  obtain ⟨w', hw'⟩ := exists_ok_of_isOk hok
  obtain ⟨-, happ⟩ := exec_ok hw' trivial
  exact ⟨hp, w', _, hw', happ.trace, hmore⟩

end Amounts

end Lumix
