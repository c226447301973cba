/-
The entrypoints of the ShieldedPool contract, statement by statement in
the order of the source, since the order decides which error a bad call
ends with. Every entrypoint takes the world and returns the new one, or
traps and changes nothing.

The `upgrade` entrypoint replaces the contract's code and is not part of
the model; read-only entrypoints are the storage fields themselves, with
`vaultBalance` and `proofOfReserves` the two that call out.
-/
import Lumix.Pool.State

namespace Lumix

open Exec Digits

variable {L : Type} [TokenHost L]

-- =========================================================== arguments

/-- The arguments of `receive_cctp_deposit`. -/
structure DepositArgs where
  sourceDomain : UInt32
  cctpNonce : Word
  asset : Address
  amount : I128
  commitment : Word
  newRoot : Word
  encryptedNotePayloadHash : Word
  policyId : Word
  proofBytes : Bytes
  pubSignalsBytes : Bytes

/-- The arguments of `withdraw`. -/
structure WithdrawArgs where
  toAddr : Address
  proofBytes : Bytes
  pubSignalsBytes : Bytes

/-- The arguments of `withdraw_cctp`. -/
structure WithdrawCctpArgs where
  toAddr : Address
  proofBytes : Bytes
  pubSignalsBytes : Bytes
  destinationDomain : UInt32
  destinationRecipient : Word
  maxFee : I128
  minFinalityThreshold : UInt32

/-- The arguments of `rfq_settle`. -/
structure RfqSettleArgs where
  toSolver : Address
  proofBytes : Bytes
  pubSignalsBytes : Bytes
  quoteHash : Word
  intentHash : Word
  fillReceiptHash : Word
  solverPubkey : Word
  solverSig : Signature

/-- The arguments of `rfq_settle_atomic_swap`. -/
structure AtomicSwapArgs where
  userXlmRecipient : Address
  solverUsdcRecipient : Address
  proofBytes : Bytes
  pubSignalsBytes : Bytes
  quoteHash : Word
  intentHash : Word
  fillReceiptHash : Word
  outputAssetId : Word
  quotedOutput : I128
  minOutput : I128
  priceScaled : I128
  solverPubkey : Word
  solverSig : Signature

/-- The arguments of `private_transfer_settle`. -/
structure TransferArgs where
  proofBytes : Bytes
  pubSignalsBytes : Bytes
  newRoot : Word

/-- The arguments of `mpc_settle` and of `mpc_settle_priced`. -/
structure MpcArgs where
  nullifierA : Word
  nullifierB : Word
  outputCommitmentA : Word
  outputCommitmentB : Word
  newRoot : Word
  batchHash : Word
  signerPubkeys : List Word
  signatures : List Signature
  proofBytes : Option Bytes
  pubSignalsBytes : Option Bytes

-- ============================================================ deposits

/-- `receive_cctp_deposit`. Returns the leaf index. -/
def receiveCctpDeposit (env : Env) (ctx : Ctx) (a : DepositArgs)
    (w : World L) : Except Trap (ℕ × World L) := do
  w.pool.requireNotPaused
  w.pool.requireAdmin ctx
  panicIf (a.amount.toInt ≤ 0) PoolError.badAmount.trap
  panicIf (w.pool.deposit a.cctpNonce = true)
    PoolError.duplicateDeposit.trap
  let signals ← parsePublicSignals a.pubSignalsBytes
  panicIf ((← sig signals 0) ≠ a.commitment) PoolError.wrongCommitment.trap
  panicIf (fr32ToI128 (← sig signals 1) ≠ opDepositNoteMint)
    PoolError.wrongOperation.trap
  panicIf (fr32ToI128 (← sig signals 2) ≠ a.sourceDomain.toNat)
    PoolError.wrongDepositField.trap
  panicIf (fr32ToI128 (← sig signals 7) ≠ a.amount.toInt)
    PoolError.wrongDepositField.trap
  panicIf (fr32ToI128 (← sig signals 3) ≠ stellarCctpDomain)
    PoolError.wrongDepositField.trap
  panicIf (fr32ToI128 (← sig signals 5) = 0)
    PoolError.wrongDepositField.trap
  -- `amount6 <= 0 || amount6 * 10 < amount`, the product overflow-checked
  let amount6 := fr32ToI128 (← sig signals 6)
  panicIf (amount6 ≤ 0) PoolError.wrongDepositField.trap
  let scaled ← i128 (amount6 * 10)
  panicIf (scaled < a.amount.toInt) PoolError.wrongDepositField.trap
  panicIf (hashToField a.cctpNonce ≠ (← sig signals 4))
    PoolError.wrongDepositField.trap
  panicIf (hashToField a.encryptedNotePayloadHash ≠ (← sig signals 10))
    PoolError.wrongDepositField.trap
  panicIf (hashToField a.policyId ≠ (← sig signals 11))
    PoolError.wrongDepositField.trap
  let assetHash ← recipientHash env a.asset
  panicIf (assetHash ≠ (← sig signals 8)) PoolError.wrongDepositField.trap
  let poolHash ← recipientHash env env.self
  panicIf (poolHash ≠ (← sig signals 9)) PoolError.wrongDepositField.trap
  panicIf (fr32ToI128 (← sig signals 12) ≠ w.pool.poolId.toNat)
    PoolError.wrongDomain.trap
  panicIf (fr32ToI128 (← sig signals 13) ≠ w.pool.chainId.toNat)
    PoolError.wrongDomain.trap
  let depVerifier ← orPanic .unwrapNone w.pool.depositVerifier
  verifyProof env w depVerifier a.proofBytes a.pubSignalsBytes .proofInvalid
  let leafIndex := w.pool.leafCount
  let leafCount ← u32 (leafIndex + 1)
  let (computedRoot, pool) ←
    { w.pool with leafCount }.appendLeaf env a.commitment
  panicIf (a.newRoot ≠ computedRoot) PoolError.rootMismatch.trap
  let w := { w with pool := { pool with
    deposit := Function.update pool.deposit a.cctpNonce true } }
  let w ← adjustNoteSupply env w (← sig signals 8) a.amount.toInt
  pure (leafIndex, w.emit (.deposit a.sourceDomain a.cctpNonce a.asset
    a.amount.toInt a.commitment a.encryptedNotePayloadHash a.policyId
    leafIndex computedRoot))

-- ========================================================= withdrawals

/-- `withdraw`: a note is paid out, less the relayer's fee. -/
def withdraw (env : Env) (ctx : Ctx) (a : WithdrawArgs) (w : World L) :
    Except Trap (World L) := do
  w.pool.requireNotPaused
  ctx.requireAuth a.toAddr
  let signals ← parsePublicSignals a.pubSignalsBytes
  let opType := fr32ToI128 (← sig signals 1)
  let nullifierHash ← sig signals 0
  let withdrawnValue := fr32ToI128 (← sig signals 2)
  let recipientHashIn ← sig signals 3
  let relayerFee := fr32ToI128 (← sig signals 4)
  let deadlineLedger := fr32ToI128 (← sig signals 5)
  let stateRoot ← sig signals 6
  let assetId ← sig signals 17
  panicIf (opType ≠ opWithdrawPublic) PoolError.wrongOperation.trap
  panicIf (withdrawnValue ≤ 0 ∨ relayerFee < 0
    ∨ relayerFee > withdrawnValue) PoolError.badAmount.trap
  panicIf ((ctx.sequence.toNat : ℤ) > deadlineLedger)
    PoolError.expired.trap
  let recipient ← recipientHash env a.toAddr
  panicIf (recipientHashIn ≠ recipient) PoolError.wrongRecipient.trap
  w.pool.checkDomainCompliance signals
  w.pool.requireKnownRoot stateRoot
  verifyProof env w w.pool.verifier a.proofBytes a.pubSignalsBytes
    .proofInvalid
  let w ← spendNullifier env ctx w nullifierHash
  let net := withdrawnValue - relayerFee
  let token ← w.pool.getAssetToken assetId
  panicIf (TokenHost.balance w.tokens token env.self < net)
    PoolError.insufficientBalance.trap
  let w ← w.invoke (.transfer token env.self a.toAddr net)
  let w ← adjustNoteSupply env w assetId (-withdrawnValue)
  pure (w.emit (.withdraw a.toAddr nullifierHash net relayerFee))

/-- `withdraw_cctp`. Returns the amount burned. -/
def withdrawCctp (env : Env) (ctx : Ctx) (a : WithdrawCctpArgs)
    (w : World L) : Except Trap (ℤ × World L) := do
  w.pool.requireNotPaused
  ctx.requireAuth a.toAddr
  let signals ← parsePublicSignals a.pubSignalsBytes
  let opType := fr32ToI128 (← sig signals 1)
  let nullifierHash ← sig signals 0
  let amount := fr32ToI128 (← sig signals 2)
  let deadlineLedger := fr32ToI128 (← sig signals 5)
  let stateRoot ← sig signals 6
  let assetId ← sig signals 17
  panicIf (amount ≤ 0) PoolError.badAmount.trap
  panicIf (opType ≠ opWithdrawCctp) PoolError.wrongOperation.trap
  let usdcId ← recipientHash env w.pool.usdc
  panicIf (assetId ≠ usdcId) PoolError.unknownAsset.trap
  panicIf ((ctx.sequence.toNat : ℤ) > deadlineLedger)
    PoolError.expired.trap
  panicIf (a.destinationDomain ≠ arbitrumSepoliaDomain)
    PoolError.unsupportedDomain.trap
  panicIf (fr32ToI128 (← sig signals 13) ≠ a.destinationDomain.toNat)
    PoolError.wrongDestDomain.trap
  panicIf ((← sig signals 14) ≠ a.destinationRecipient)
    PoolError.wrongDestRecipient.trap
  panicIf (fr32ToI128 (← sig signals 15) ≠ a.maxFee.toInt)
    PoolError.wrongMaxFee.trap
  panicIf (fr32ToI128 (← sig signals 16) ≠ a.minFinalityThreshold.toNat)
    PoolError.wrongFinality.trap
  w.pool.checkDomainCompliance signals
  w.pool.requireKnownRoot stateRoot
  verifyProof env w w.pool.verifier a.proofBytes a.pubSignalsBytes
    .proofInvalid
  let w ← spendNullifier env ctx w nullifierHash
  -- the messenger pulls from the pool, so it is approved for the amount
  -- and the fee before the burn
  let tmm ← orPanic .unwrapNone w.pool.messenger
  let pullAmount ←
    i128 (amount + if a.maxFee.toInt > 0 then a.maxFee.toInt else 0)
  let expiration ← u32 (ctx.sequence.toNat + 200)
  let w ← w.invoke
    (.approve w.pool.usdc env.self tmm pullAmount expiration)
  let w ← w.invoke (.depositForBurn tmm {
    caller := env.self
    amount := amount
    destinationDomain := a.destinationDomain
    mintRecipient := a.destinationRecipient
    burnToken := w.pool.usdc
    destinationCaller := 0
    maxFee := a.maxFee.toInt
    minFinalityThreshold := a.minFinalityThreshold })
  let w ← adjustNoteSupply env w assetId (-amount)
  pure (amount, w.emit (.cctpout a.destinationDomain a.toAddr nullifierHash
    a.destinationRecipient amount))

-- ================================================================ RFQ

/-- `rfq_settle`: a note is paid to an authorised solver, against a
quote it signed. -/
def rfqSettle (env : Env) (ctx : Ctx) (a : RfqSettleArgs) (w : World L) :
    Except Trap (World L) := do
  w.pool.requireNotPaused
  panicIf (w.pool.solver a.solverPubkey = false)
    PoolError.unauthorizedSolver.trap
  panicIf (env.ed25519Verify a.solverPubkey a.quoteHash.toBytes a.solverSig
    = false) .crypto
  let signals ← parsePublicSignals a.pubSignalsBytes
  let opType := fr32ToI128 (← sig signals 1)
  let nullifierHash ← sig signals 0
  let credit := fr32ToI128 (← sig signals 2)
  let relayerFee := fr32ToI128 (← sig signals 4)
  let deadlineLedger := fr32ToI128 (← sig signals 5)
  let stateRoot ← sig signals 6
  panicIf (credit ≤ 0 ∨ relayerFee < 0 ∨ relayerFee > credit)
    PoolError.badAmount.trap
  panicIf (opType ≠ opRfqSettlement) PoolError.wrongOperation.trap
  panicIf ((ctx.sequence.toNat : ℤ) > deadlineLedger)
    PoolError.expired.trap
  panicIf (hashToField a.quoteHash ≠ (← sig signals 10))
    PoolError.wrongQuote.trap
  panicIf (hashToField a.intentHash ≠ (← sig signals 11))
    PoolError.wrongIntent.trap
  panicIf (hashToField a.fillReceiptHash ≠ (← sig signals 12))
    PoolError.wrongFillReceipt.trap
  w.pool.checkDomainCompliance signals
  w.pool.requireKnownRoot stateRoot
  verifyProof env w w.pool.verifier a.proofBytes a.pubSignalsBytes
    .proofInvalid
  let w ← spendNullifier env ctx w nullifierHash
  -- the pool's own USDC address, whatever asset the note is of, and no
  -- supply adjustment
  let usdc := w.pool.usdc
  panicIf (TokenHost.balance w.tokens usdc env.self < credit)
    PoolError.insufficientBalance.trap
  let w ← w.invoke (.transfer usdc env.self a.toSolver credit)
  pure (w.emit (.rfq a.quoteHash a.toSolver nullifierHash credit))

/-- The solver-signed terms of an atomic swap, hashed. -/
def swapHash (env : Env) (a : AtomicSwapArgs) (recipientH : Word) : Word :=
  env.sha256 (a.quoteHash.toBytes ++ a.outputAssetId.toBytes
    ++ a.quotedOutput.toBeBytes ++ a.minOutput.toBeBytes
    ++ a.priceScaled.toBeBytes ++ recipientH.toBytes)

/-- `rfq_settle_atomic_swap`: both payments in one call. -/
def rfqSettleAtomicSwap (env : Env) (ctx : Ctx) (a : AtomicSwapArgs)
    (w : World L) : Except Trap (World L) := do
  w.pool.requireNotPaused
  panicIf (w.pool.solver a.solverPubkey = false)
    PoolError.unauthorizedSolver.trap
  let quotedOutput := a.quotedOutput.toInt
  panicIf (quotedOutput ≤ 0 ∨ a.minOutput.toInt ≤ 0
    ∨ quotedOutput < a.minOutput.toInt ∨ a.priceScaled.toInt ≤ 0)
    PoolError.underDelivered.trap
  let recipientH ← recipientHash env a.userXlmRecipient
  panicIf (env.ed25519Verify a.solverPubkey
    (swapHash env a recipientH).toBytes a.solverSig = false) .crypto
  let signals ← parsePublicSignals a.pubSignalsBytes
  let opType := fr32ToI128 (← sig signals 1)
  let nullifierHash ← sig signals 0
  let withdrawnValue := fr32ToI128 (← sig signals 2)
  let relayerFee := fr32ToI128 (← sig signals 4)
  let deadlineLedger := fr32ToI128 (← sig signals 5)
  let stateRoot ← sig signals 6
  let inputAssetId ← sig signals 17
  panicIf (opType ≠ opRfqAtomicSwap) PoolError.wrongOperation.trap
  panicIf (withdrawnValue ≤ 0 ∨ relayerFee < 0
    ∨ relayerFee > withdrawnValue) PoolError.badAmount.trap
  panicIf ((ctx.sequence.toNat : ℤ) > deadlineLedger)
    PoolError.expired.trap
  panicIf (¬InI128 (withdrawnValue * a.priceScaled.toInt))
    PoolError.badAmount.trap
  let expectedOutput :=
    (withdrawnValue * a.priceScaled.toInt).tdiv priceScale
  panicIf (quotedOutput ≠ expectedOutput) PoolError.wrongPrice.trap
  panicIf (a.outputAssetId = inputAssetId) PoolError.sameAssetSwap.trap
  panicIf (hashToField a.quoteHash ≠ (← sig signals 10))
    PoolError.wrongQuote.trap
  panicIf (hashToField a.intentHash ≠ (← sig signals 11))
    PoolError.wrongIntent.trap
  panicIf (hashToField a.fillReceiptHash ≠ (← sig signals 12))
    PoolError.wrongFillReceipt.trap
  w.pool.checkDomainCompliance signals
  w.pool.requireKnownRoot stateRoot
  verifyProof env w w.pool.verifier a.proofBytes a.pubSignalsBytes
    .proofInvalid
  let w ← spendNullifier env ctx w nullifierHash
  let outToken ← w.pool.getAssetToken a.outputAssetId
  panicIf (TokenHost.balance w.tokens outToken env.self < quotedOutput)
    PoolError.insufficientBalance.trap
  let w ← w.invoke
    (.transfer outToken env.self a.userXlmRecipient quotedOutput)
  let credit := withdrawnValue - relayerFee
  let inToken ← w.pool.getAssetToken inputAssetId
  panicIf (TokenHost.balance w.tokens inToken env.self < credit)
    PoolError.insufficientBalance.trap
  let w ← w.invoke
    (.transfer inToken env.self a.solverUsdcRecipient credit)
  let w ← adjustNoteSupply env w inputAssetId (-withdrawnValue)
  pure (w.emit (.rfqswap a.quoteHash a.userXlmRecipient
    a.solverUsdcRecipient nullifierHash quotedOutput credit))

-- =========================================================== transfers

/-- `private_transfer_settle`: one note for another. -/
def privateTransferSettle (env : Env) (ctx : Ctx) (a : TransferArgs)
    (w : World L) : Except Trap (World L) := do
  w.pool.requireNotPaused
  w.pool.requireAdmin ctx
  let signals ← parsePublicSignals a.pubSignalsBytes
  let nullifierHash ← sig signals 0
  let outputCommitment ← sig signals 1
  let stateRoot ← sig signals 3
  let assocIn ← sig signals 4
  panicIf (assocIn ≠ w.pool.getAssociationRoot)
    PoolError.wrongAssociation.trap
  let poolIn := fr32ToI128 (← sig signals 5)
  let chainIn := fr32ToI128 (← sig signals 6)
  panicIf (poolIn ≠ w.pool.poolId.toNat ∨ chainIn ≠ w.pool.chainId.toNat)
    PoolError.wrongDomain.trap
  w.pool.requireKnownRoot stateRoot
  let verifier ← orPanic .unwrapNone w.pool.transferVerifier
  verifyProof env w verifier a.proofBytes a.pubSignalsBytes .proofInvalid
  let w ← spendNullifier env ctx w nullifierHash
  let leafIndex := w.pool.leafCount
  let leafCount ← u32 (leafIndex + 1)
  let (computedRoot, pool) ←
    { w.pool with leafCount }.appendLeaf env outputCommitment
  panicIf (a.newRoot ≠ computedRoot) PoolError.rootMismatch.trap
  let w := { w with pool }
  pure (w.emit (.xfer nullifierHash outputCommitment leafIndex
    computedRoot))

-- ================================================================ MPC

/-- Append both output commitments of a committee settlement and require
the caller's root. -/
def appendOutputs (env : Env) (a : MpcArgs) (p : Pool) :
    Except Trap (Word × Pool) := do
  let leafCount ← u32 (p.leafCount + 2)
  let (_, p) ← { p with leafCount }.appendLeaf env a.outputCommitmentA
  let (computedRoot, p) ← p.appendLeaf env a.outputCommitmentB
  panicIf (a.newRoot ≠ computedRoot) PoolError.rootMismatch.trap
  pure (computedRoot, p)

/-- `mpc_settle`: two notes of one asset are crossed, against a batch
the committee signed. -/
def mpcSettle (env : Env) (ctx : Ctx) (a : MpcArgs) (w : World L) :
    Except Trap (World L) := do
  w.pool.requireNotPaused
  verifyCommitteeThreshold env w.pool a.batchHash a.signerPubkeys
    a.signatures
  let mpcVerifier ← orPanic PoolError.mpcProofInvalid.trap
    w.pool.mpcVerifier
  let pb ← orPanic PoolError.mpcProofInvalid.trap a.proofBytes
  let sb ← orPanic PoolError.mpcProofInvalid.trap a.pubSignalsBytes
  verifyProof env w mpcVerifier pb sb .mpcProofInvalid
  let signals ← parsePublicSignals sb
  panicIf ((← sig signals 0) ≠ a.nullifierA) PoolError.mpcSignalMismatch.trap
  panicIf ((← sig signals 1) ≠ a.nullifierB) PoolError.mpcSignalMismatch.trap
  panicIf ((← sig signals 2) ≠ a.outputCommitmentA)
    PoolError.mpcSignalMismatch.trap
  panicIf ((← sig signals 3) ≠ a.outputCommitmentB)
    PoolError.mpcSignalMismatch.trap
  let stateRoot ← sig signals 4
  w.pool.requireKnownRoot stateRoot
  -- unlike the other spends, an unset association root fails here
  let assocRoot ← sig signals 5
  let canonicalAssoc ← orPanic PoolError.wrongAssociation.trap
    w.pool.associationRoot
  panicIf (assocRoot ≠ canonicalAssoc) PoolError.wrongAssociation.trap
  panicIf ((← sig signals 6) ≠ hashToField a.batchHash)
    PoolError.mpcSignalMismatch.trap
  let poolIn := fr32ToI128 (← sig signals 7)
  let chainIn := fr32ToI128 (← sig signals 8)
  panicIf (poolIn ≠ w.pool.poolId.toNat ∨ chainIn ≠ w.pool.chainId.toNat)
    PoolError.wrongDomain.trap
  let deadlineLedger := fr32ToI128 (← sig signals 10)
  panicIf ((ctx.sequence.toNat : ℤ) > deadlineLedger)
    PoolError.expired.trap
  let w ← spendNullifier env ctx w a.nullifierA
  let w ← spendNullifier env ctx w a.nullifierB
  let (computedRoot, pool) ← appendOutputs env a w.pool
  let w := { w with pool }
  pure (w.emit (.mpc a.batchHash a.nullifierA a.nullifierB
    a.outputCommitmentA a.outputCommitmentB computedRoot))

/-- `mpc_settle_priced`: two notes of different assets are crossed at a
price. -/
def mpcSettlePriced (env : Env) (ctx : Ctx) (a : MpcArgs) (w : World L) :
    Except Trap (World L) := do
  w.pool.requireNotPaused
  verifyCommitteeThreshold env w.pool a.batchHash a.signerPubkeys
    a.signatures
  let pverifier ← orPanic PoolError.mpcProofInvalid.trap
    w.pool.mpcPricedVerifier
  let pb ← orPanic PoolError.mpcProofInvalid.trap a.proofBytes
  let sb ← orPanic PoolError.mpcProofInvalid.trap a.pubSignalsBytes
  verifyProof env w pverifier pb sb .mpcProofInvalid
  let signals ← parsePublicSignals sb
  panicIf ((← sig signals 0) ≠ a.nullifierA) PoolError.mpcSignalMismatch.trap
  panicIf ((← sig signals 1) ≠ a.nullifierB) PoolError.mpcSignalMismatch.trap
  panicIf ((← sig signals 2) ≠ a.outputCommitmentA)
    PoolError.mpcSignalMismatch.trap
  panicIf ((← sig signals 3) ≠ a.outputCommitmentB)
    PoolError.mpcSignalMismatch.trap
  let stateRoot ← sig signals 4
  w.pool.requireKnownRoot stateRoot
  let assocRoot ← sig signals 5
  let canonical ← orPanic PoolError.wrongAssociation.trap
    w.pool.associationRoot
  panicIf (assocRoot ≠ canonical) PoolError.wrongAssociation.trap
  panicIf ((← sig signals 6) ≠ hashToField a.batchHash)
    PoolError.mpcSignalMismatch.trap
  panicIf (fr32ToI128 (← sig signals 7) ≠ w.pool.poolId.toNat)
    PoolError.wrongDomain.trap
  panicIf (fr32ToI128 (← sig signals 8) ≠ w.pool.chainId.toNat)
    PoolError.wrongDomain.trap
  panicIf ((ctx.sequence.toNat : ℤ) > fr32ToI128 (← sig signals 9))
    PoolError.expired.trap
  let inputA ← sig signals 10
  let inputB ← sig signals 12
  panicIf (inputA = inputB) PoolError.notCrossAsset.trap
  let _ ← w.pool.getAssetToken inputA
  let _ ← w.pool.getAssetToken inputB
  let matchedA := fr32ToI128 (← sig signals 14)
  let matchedB := fr32ToI128 (← sig signals 15)
  let w ← spendNullifier env ctx w a.nullifierA
  let w ← spendNullifier env ctx w a.nullifierB
  panicIf (matchedA ≤ 0 ∨ matchedB ≤ 0) PoolError.badAmount.trap
  let (computedRoot, pool) ← appendOutputs env a w.pool
  let w := { w with pool }
  pure (w.emit (.mpcprice a.batchHash a.nullifierA a.nullifierB
    a.outputCommitmentA a.outputCommitmentB computedRoot))

-- =============================================================== admin

/-- The admin entrypoints that only write configuration. -/
inductive AdminCall
  | setCctpMessenger (tokenMessengerMinter : Address)
  | setTransferVerifier (verifier : Address)
  | setDepositVerifier (verifier : Address)
  | setAuthorizedSolver (solverPubkey : Word) (allowed : Bool)
  | setAssociationRoot (associationRoot : Word)
  | setCommittee (pubkeys : List Word)
  | setMpcVerifier (verifier : Address)
  | setMpcPricedVerifier (verifier : Address)
  | pause
  | unpause
  | transferAdmin (newAdmin : Address)

/-- The storage write of an admin entrypoint. -/
def AdminCall.write (p : Pool) : AdminCall → Pool
  | setCctpMessenger m => { p with messenger := some m }
  | setTransferVerifier v => { p with transferVerifier := some v }
  | setDepositVerifier v => { p with depositVerifier := some v }
  | setAuthorizedSolver pk allowed =>
      { p with solver := Function.update p.solver pk allowed }
  | setAssociationRoot root => { p with associationRoot := some root }
  | setCommittee pubkeys => { p with committee := some pubkeys }
  | setMpcVerifier v => { p with mpcVerifier := some v }
  | setMpcPricedVerifier v => { p with mpcPricedVerifier := some v }
  | pause => { p with paused := true }
  | unpause => { p with paused := false }
  | transferAdmin newAdmin => { p with admin := newAdmin }

omit [TokenHost L] in

/-- The calls that only the admin may make. -/
def administer (ctx : Ctx) (c : AdminCall) (w : World L) :
    Except Trap (World L) := do
  w.pool.requireAdmin ctx
  pure { w with pool := c.write w.pool }

omit [TokenHost L] in
/-- `register_asset`: a fresh asset starts with no supply. -/
def registerAsset (ctx : Ctx) (assetId : Word) (token : Address)
    (w : World L) : Except Trap (World L) := do
  w.pool.requireAdmin ctx
  panicIf ((w.pool.assetToken assetId).isSome = true)
    PoolError.assetAlreadyRegistered.trap
  let w := { w with pool := { w.pool with
    assetToken := Function.update w.pool.assetToken assetId (some token)
    noteSupply := Function.update w.pool.noteSupply assetId 0 } }
  pure (w.emit (.regasset assetId token))

-- =============================================================== views

/-- `vault_balance` -/
def vaultBalance (env : Env) (w : World L) (assetId : Word) :
    Except Trap ℤ := do
  let token ← w.pool.getAssetToken assetId
  pure (TokenHost.balance w.tokens token env.self)

/-- `proof_of_reserves`: what the notes claim, and what is there. -/
def proofOfReserves (env : Env) (w : World L) (assetId : Word) :
    Except Trap (ℤ × ℤ) := do
  let balance ← vaultBalance env w assetId
  pure (w.pool.noteSupply assetId, balance)

-- =============================================================== calls

/-- A call of the pool. -/
inductive Call
  | receiveCctpDeposit (a : DepositArgs)
  | withdraw (a : WithdrawArgs)
  | withdrawCctp (a : WithdrawCctpArgs)
  | rfqSettle (a : RfqSettleArgs)
  | rfqSettleAtomicSwap (a : AtomicSwapArgs)
  | privateTransferSettle (a : TransferArgs)
  | mpcSettle (a : MpcArgs)
  | mpcSettlePriced (a : MpcArgs)
  | registerAsset (assetId : Word) (token : Address)
  | admin (c : AdminCall)

/-- Run a call, dropping its return value. -/
def exec (env : Env) (ctx : Ctx) (w : World L) :
    Call → Except Trap (World L)
  | .receiveCctpDeposit a => do
      let (_, w) ← receiveCctpDeposit env ctx a w
      pure w
  | .withdraw a => withdraw env ctx a w
  | .withdrawCctp a => do
      let (_, w) ← withdrawCctp env ctx a w
      pure w
  | .rfqSettle a => rfqSettle env ctx a w
  | .rfqSettleAtomicSwap a => rfqSettleAtomicSwap env ctx a w
  | .privateTransferSettle a => privateTransferSettle env ctx a w
  | .mpcSettle a => mpcSettle env ctx a w
  | .mpcSettlePriced a => mpcSettlePriced env ctx a w
  | .registerAsset assetId token => registerAsset ctx assetId token w
  | .admin c => administer ctx c w

/-- The public-signal bytes a call hands to its verifier. -/
def Call.signalBytes : Call → Option Bytes
  | receiveCctpDeposit a => some a.pubSignalsBytes
  | withdraw a => some a.pubSignalsBytes
  | withdrawCctp a => some a.pubSignalsBytes
  | rfqSettle a => some a.pubSignalsBytes
  | rfqSettleAtomicSwap a => some a.pubSignalsBytes
  | privateTransferSettle a => some a.pubSignalsBytes
  | mpcSettle a => a.pubSignalsBytes
  | mpcSettlePriced a => a.pubSignalsBytes
  | registerAsset _ _ => none
  | admin _ => none

end Lumix
