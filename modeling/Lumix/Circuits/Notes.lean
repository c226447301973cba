/-
The three single-note circuits: `Withdraw` (shared by every public
exit), `PrivateTransfer` and `DepositNoteMint`. A structure holds one
assignment of a circuit's input and output signals, `Satisfied` its
constraints, one field each, and `publicSignals` the order in which the
verifier sees them: outputs first, then the declared public inputs.

Squares such as `opBind <== operationType * operationType` define a
fresh signal and constrain nothing; the signals they bind are public
inputs here and no more.

What the constraints say about amounts as integers is one lemma per
circuit: a withdrawal takes no more than its note
(`Withdraw.Satisfied.withdrawn_le`), a transfer conserves value
(`PrivateTransfer.Satisfied.value_eq`), and a deposit's note lies within
2^128 below `amount7dp` (`DepositNoteMint.Satisfied.amount_eq`).
-/
import Mathlib.Tactic.MkIffOfInductiveProp
import Lumix.Circuits.Gadgets

namespace Lumix

variable (H : List Fr → Fr) (treeDepth associationDepth : ℕ)

-- =========================================================== Withdraw

/-- The signals of `withdraw_public`. -/
structure Withdraw where
  operationType : Fr
  withdrawnValue : Fr
  recipientHash : Fr
  relayerFee : Fr
  deadlineLedger : Fr
  stateRoot : Fr
  associationRoot : Fr
  poolId : Fr
  chainId : Fr
  quoteHash : Fr
  intentHash : Fr
  fillReceiptHash : Fr
  destinationDomain : Fr
  destinationRecipient : Fr
  maxFee : Fr
  minFinalityThreshold : Fr
  /-- public `assetId`, private `value`, `label`, `nullifier`,
  `secret` -/
  note : Note
  state : Opening
  association : Opening
  nullifierHash : Fr

namespace Withdraw

/-- Its constraints. -/
@[mk_iff]
structure Satisfied (a : Withdraw) : Prop where
  nullifierHash : a.nullifierHash = a.note.nullifierHash H a.poolId a.chainId
  stateRoot : MerkleProof H treeDepth (a.note.commitment H) a.state
    a.stateRoot
  associationRoot : MerkleProof H associationDepth a.note.label
    a.association a.associationRoot
  remainingValueRangeCheck : InRange 128 (a.note.value - a.withdrawnValue)
  withdrawnValueRangeCheck : InRange 128 a.withdrawnValue
  netRangeCheck : InRange 128 (a.withdrawnValue - a.relayerFee)
  feeRangeCheck : InRange 128 a.relayerFee

instance (a : Withdraw) :
    Decidable (a.Satisfied H treeDepth associationDepth) :=
  decidable_of_iff _ (satisfied_iff H treeDepth associationDepth a).symm

/-- What is public, in order. -/
def publicSignals (a : Withdraw) : List Fr :=
  [a.nullifierHash, a.operationType, a.withdrawnValue, a.recipientHash,
    a.relayerFee, a.deadlineLedger, a.stateRoot, a.associationRoot,
    a.poolId, a.chainId, a.quoteHash, a.intentHash, a.fillReceiptHash,
    a.destinationDomain, a.destinationRecipient, a.maxFee,
    a.minFinalityThreshold, a.note.assetId]

/-- What it hashes. -/
def hashInputs (a : Withdraw) : List (List Fr) :=
  a.note.hashInputs H ++ [[a.note.nullifier, a.poolId, a.chainId]]
    ++ a.state.hashInputs H (a.note.commitment H)
    ++ a.association.hashInputs H a.note.label

end Withdraw

-- ==================================================== PrivateTransfer

/-- The signals of `private_transfer`. -/
structure PrivateTransfer where
  outputCommitment : Fr
  feePublic : Fr
  stateRoot : Fr
  associationRoot : Fr
  poolId : Fr
  chainId : Fr
  /-- public `inputAssetId`, private `inValue`, `inLabel`,
  `inNullifier`, `inSecret` -/
  input : Note
  /-- public `outputAssetId`, private `outValue`, `outLabel`,
  `outNullifier`, `outSecret` -/
  output : Note
  state : Opening
  association : Opening
  nullifierHash : Fr

namespace PrivateTransfer

/-- Its constraints. -/
@[mk_iff]
structure Satisfied (a : PrivateTransfer) : Prop where
  sameAsset : a.input.assetId = a.output.assetId
  stateRoot : MerkleProof H treeDepth (a.input.commitment H) a.state
    a.stateRoot
  nullifierHash : a.nullifierHash
    = a.input.nullifierHash H a.poolId a.chainId
  outputCommitment : a.outputCommitment = a.output.commitment H
  conservation : a.input.value = a.output.value + a.feePublic
  outRange : InRange 128 a.output.value
  feeRange : InRange 128 a.feePublic
  associationRoot : MerkleProof H associationDepth a.input.label
    a.association a.associationRoot

instance (a : PrivateTransfer) :
    Decidable (a.Satisfied H treeDepth associationDepth) :=
  decidable_of_iff _ (satisfied_iff H treeDepth associationDepth a).symm

/-- What is public, in order. -/
def publicSignals (a : PrivateTransfer) : List Fr :=
  [a.nullifierHash, a.outputCommitment, a.feePublic, a.stateRoot,
    a.associationRoot, a.poolId, a.chainId, a.input.assetId,
    a.output.assetId]

/-- What it hashes. -/
def hashInputs (a : PrivateTransfer) : List (List Fr) :=
  a.input.hashInputs H ++ [[a.input.nullifier, a.poolId, a.chainId]]
    ++ a.output.hashInputs H
    ++ a.state.hashInputs H (a.input.commitment H)
    ++ a.association.hashInputs H a.input.label

end PrivateTransfer

-- ==================================================== DepositNoteMint

/-- The signals of `deposit_note_mint`. -/
structure DepositNoteMint where
  operationType : Fr
  sourceDomain : Fr
  destinationDomain : Fr
  cctpNonceHash : Fr
  burnTxHashHash : Fr
  amount6dp : Fr
  amount7dp : Fr
  recipientPool : Fr
  encryptedNotePayloadHash : Fr
  policyIdHash : Fr
  poolId : Fr
  chainId : Fr
  /-- public `assetIdHash`, private `value`, `label`, `nullifier`,
  `secret` -/
  note : Note
  commitment : Fr

namespace DepositNoteMint

/-- Its constraints. -/
@[mk_iff]
structure Satisfied (a : DepositNoteMint) : Prop where
  commitment : a.commitment = a.note.commitment H
  surplusRangeCheck : InRange 128 (a.amount7dp - a.note.value)
  valueRangeCheck : InRange 128 a.note.value

instance (a : DepositNoteMint) : Decidable (a.Satisfied H) :=
  decidable_of_iff _ (satisfied_iff H a).symm

/-- What is public, in order. -/
def publicSignals (a : DepositNoteMint) : List Fr :=
  [a.commitment, a.operationType, a.sourceDomain, a.destinationDomain,
    a.cctpNonceHash, a.burnTxHashHash, a.amount6dp, a.amount7dp,
    a.note.assetId, a.recipientPool, a.encryptedNotePayloadHash,
    a.policyIdHash, a.poolId, a.chainId]

/-- What it hashes. -/
def hashInputs (a : DepositNoteMint) : List (List Fr) :=
  a.note.hashInputs H

end DepositNoteMint

-- ============================================================ amounts

variable {H treeDepth associationDepth}

/-- Two range-checked parts add up to their whole over the integers:
their sum stays below 2^129, far below the order. -/
theorem val_eq_of_parts {whole part : Fr}
    (hpart : InRange 128 part) (hrest : InRange 128 (whole - part)) :
    whole.val = part.val + (whole - part).val := by
  rw [inRange_iff] at hpart hrest
  have hr := two_pow_254_lt_r
  rcases Fr.val_sub_cases whole part with h | h
  · omega
  · omega

/-- A withdrawal takes no more than its note holds. -/
theorem Withdraw.Satisfied.withdrawn_le {a : Withdraw}
    (h : a.Satisfied H treeDepth associationDepth) :
    a.withdrawnValue.val ≤ a.note.value.val := by
  have hparts := val_eq_of_parts h.withdrawnValueRangeCheck
    h.remainingValueRangeCheck
  omega

/-- A transfer conserves value over the integers. -/
theorem PrivateTransfer.Satisfied.value_eq {a : PrivateTransfer}
    (h : a.Satisfied H treeDepth associationDepth) :
    a.input.value.val = a.output.value.val + a.feePublic.val := by
  have hrest : InRange 128 (a.input.value - a.output.value) := by
    rw [h.conservation, add_sub_cancel_left]
    exact h.feeRange
  have hparts := val_eq_of_parts h.outRange hrest
  rw [h.conservation, add_sub_cancel_left, ← h.conservation] at hparts
  exact hparts

/-- A deposit's note and its surplus, each below 2^128, make up
`amount7dp`. -/
theorem DepositNoteMint.Satisfied.amount_eq {a : DepositNoteMint}
    (h : a.Satisfied H) :
    ∃ surplus < 2 ^ 128, a.note.value.val < 2 ^ 128
      ∧ a.amount7dp.val = a.note.value.val + surplus :=
  ⟨(a.amount7dp - a.note.value).val, inRange_iff.mp h.surplusRangeCheck,
    inRange_iff.mp h.valueRangeCheck,
    val_eq_of_parts h.valueRangeCheck h.surplusRangeCheck⟩

end Lumix
