/-
The ShieldedPool contract: its errors, its storage, the world one of its
invocations runs in, and the helpers its entrypoints share.

The world holds everything an invocation can read or change: the pool's
own storage, the nullifier registry it was constructed with, the
verifier contracts, and the ledger of the tokens. Two histories are kept
beside the state, the token invocations the pool made (`trace`) and the
events it published (`events`); no contract code reads either.

Storage keys the constructor sets are plain fields, keys it leaves unset
are options. Persistent maps are functions with the default the source
reads for a missing key.
-/
import Lumix.Contracts.LeanIMT
import Lumix.Contracts.NullifierRegistry
import Lumix.Contracts.ProofVerifier

namespace Lumix

open Exec Digits

-- ============================================================== errors

/-- `Error`, in the order of its codes. -/
inductive PoolError
  | notInitialized
  | paused
  | duplicateDeposit
  | unknownRoot
  | proofInvalid
  | nullifierUsed
  | insufficientBalance
  | badAmount
  | wrongDomain
  | wrongAssociation
  | wrongOperation
  | wrongRecipient
  | expired
  | wrongQuote
  | wrongIntent
  | wrongFillReceipt
  | wrongDestDomain
  | wrongDestRecipient
  | wrongMaxFee
  | wrongFinality
  | wrongCommitment
  | wrongDepositField
  | unauthorizedSolver
  | mpcThreshold
  | mpcUnknownSigner
  | mpcProofInvalid
  | mpcSignalMismatch
  | mpcDuplicateSigner
  | unknownAsset
  | assetAlreadyRegistered
  | sameAssetSwap
  | underDelivered
  | wrongPrice
  | unsupportedDomain
  | notCrossAsset
  | supplyUnderflow
  | reserveBroken
  | treeFull
  | rootMismatch
  deriving DecidableEq, Repr

/-- The `u32` code of an error: `NotInitialized = 1` and so on. -/
def PoolError.code (e : PoolError) : ℕ := e.ctorIdx + 1

/-- `panic_err`. -/
def PoolError.trap (e : PoolError) : Trap := .contract e.code

-- =========================================================== constants

/-- The operation types a proof may be of. -/
def opWithdrawPublic : ℤ := 1

def opWithdrawCctp : ℤ := 2

def opRfqSettlement : ℤ := 3

def opDepositNoteMint : ℤ := 4

def opRfqAtomicSwap : ℤ := 5

/-- Prices are scaled by this. -/
def priceScale : ℤ := 1000000000

/-- Circle's number for Stellar. -/
def stellarCctpDomain : ℤ := 27

/-- Circle's number for Arbitrum Sepolia. -/
def arbitrumSepoliaDomain : UInt32 := 3

-- ============================================================= storage

/-- The pool's storage. -/
structure Pool where
  admin : Address
  usdc : Address
  verifier : Address
  nullifierRegistry : Address
  paused : Bool
  poolId : UInt32
  chainId : UInt32
  treeDepth : UInt32
  treeRoot : Word
  treeLeaves : List Word
  leafCount : ℕ
  knownRoot : Word → Bool
  /-- `TMM`, the CCTP TokenMessengerMinter -/
  messenger : Option Address
  associationRoot : Option Word
  transferVerifier : Option Address
  depositVerifier : Option Address
  committee : Option (List Word)
  mpcVerifier : Option Address
  mpcPricedVerifier : Option Address
  /-- `DataKey::Deposit`, by CCTP nonce -/
  deposit : Word → Bool
  /-- `DataKey::Solver`, by ed25519 public key -/
  solver : Word → Bool
  assetToken : Word → Option Address
  noteSupply : Word → ℤ

/-- `__constructor`. The root of the empty pool is recorded as the zero
word. -/
def Pool.construct (admin usdcSac verifier nullifierRegistry : Address)
    (depth poolId chainId : UInt32) : Pool where
  admin := admin
  usdc := usdcSac
  verifier := verifier
  nullifierRegistry := nullifierRegistry
  paused := false
  poolId := poolId
  chainId := chainId
  treeDepth := depth
  treeRoot := 0
  treeLeaves := []
  leafCount := 0
  knownRoot := Function.update (fun _ => false) 0 true
  messenger := none
  associationRoot := none
  transferVerifier := none
  depositVerifier := none
  committee := none
  mpcVerifier := none
  mpcPricedVerifier := none
  deposit _ := false
  solver _ := false
  assetToken _ := none
  noteSupply _ := 0

theorem Pool.construct_knownRoot {admin usdcSac verifier nullreg : Address}
    {depth poolId chainId : UInt32} {x : Word} (hx : x ≠ 0) :
    (Pool.construct admin usdcSac verifier nullreg depth poolId
      chainId).knownRoot x = false := by
  simp only [Pool.construct]
  rw [Function.update_of_ne hx]

-- =============================================================== world

/-- Host functions that are not the repository's code. -/
structure Host where
  poseidon : List Fr → Fr
  sha256 : Bytes → Word
  ed25519Verify : (publicKey : Word) → (message : Bytes) → Signature → Bool
  /-- `Address::to_string` -/
  strkey : Address → Bytes
  bls : Bls12381

/-- The deployment a pool runs in: the host, and the pool's own
address. -/
structure Env extends Host where
  self : Address

/-- What it publishes. -/
inductive PoolEvent
  | deposit (sourceDomain : UInt32) (cctpNonce : Word) (asset : Address)
      (amount : ℤ) (commitment encryptedNotePayloadHash policyId : Word)
      (leafIndex : ℕ) (root : Word)
  | withdraw (toAddr : Address) (nullifierHash : Word) (net relayerFee : ℤ)
  | cctpout (destinationDomain : UInt32) (toAddr : Address)
      (nullifierHash destinationRecipient : Word) (amount : ℤ)
  | rfq (quoteHash : Word) (toSolver : Address) (nullifierHash : Word)
      (credit : ℤ)
  | rfqswap (quoteHash : Word) (user solver : Address)
      (nullifierHash : Word) (quotedOutput credit : ℤ)
  | xfer (nullifierHash outputCommitment : Word) (leafIndex : ℕ)
      (root : Word)
  | mpc (batchHash nullifierA nullifierB outputCommitmentA
      outputCommitmentB root : Word)
  | mpcprice (batchHash nullifierA nullifierB outputCommitmentA
      outputCommitmentB root : Word)
  | regasset (assetId : Word) (token : Address)

/-- The pool with the contracts it calls. -/
structure World (L : Type) where
  pool : Pool
  /-- the contract at `pool.nullifierRegistry` -/
  registry : NullifierRegistry
  /-- the verifier contracts, each with the key it stores, if any -/
  verifiers : Address → Option (Option Bytes)
  tokens : L
  trace : List TokenOp
  events : List PoolEvent

variable {L : Type} [TokenHost L]

/-- Invoke a token or the messenger. -/
def World.invoke (w : World L) (op : TokenOp) :
    Except Trap (World L) := do
  let tokens ← op.perform w.tokens
  pure { w with tokens, trace := w.trace ++ [op] }

omit [TokenHost L] in

/-- An event is published. -/
def World.emit (w : World L) (e : PoolEvent) : World L :=
  { w with events := w.events ++ [e] }

-- ============================================================= signals

/-- The loop of `parse_public_signals`. -/
def takeWords : ℕ → Bytes → Except Trap (List Word)
  | 0, _ => .ok []
  | n + 1, s => do
      let (arr, s) ← takeBytes 32 s
      let rest ← takeWords n s
      pure (Word.ofBytes arr :: rest)

/-- `parse_public_signals`: `u32_be(len) | sig_i (32 bytes)...`. -/
def parsePublicSignals (bytes : Bytes) : Except Trap (List Word) := do
  let (len, s) ← takeBytes 4 bytes
  takeWords (beVal len) s

/-- `signals.get(i).unwrap()`. -/
def sig (signals : List Word) (i : ℕ) : Except Trap Word :=
  orPanic .unwrapNone signals[i]?

/-- Signal `i` of a decoded list, zero past its end. -/
def sigAt (signals : List Word) (i : ℕ) : Word := signals[i]?.getD 0

@[simp]
theorem sig_eq_ok {signals : List Word} {i : ℕ} {w : Word} :
    sig signals i = .ok w
      ↔ i < signals.length ∧ sigAt signals i = w := by
  unfold sig sigAt
  rw [orPanic_eq_ok]
  by_cases hi : i < signals.length
  · rw [List.getElem?_eq_getElem hi]
    simp [hi]
  · rw [List.getElem?_eq_none (by omega)]
    simp [hi]

-- ====================================================== shared helpers

namespace Pool

/-- A paused pool refuses. -/
def requireNotPaused (p : Pool) : Except Trap Unit :=
  panicIf (p.paused = true) PoolError.paused.trap

/-- The admin has to sign. -/
def requireAdmin (p : Pool) (ctx : Ctx) : Except Trap Unit :=
  ctx.requireAuth p.admin

/-- The `KnownRoot` check of every spend. -/
def requireKnownRoot (p : Pool) (root : Word) : Except Trap Unit :=
  panicIf (p.knownRoot root = false) PoolError.unknownRoot.trap

/-- The token of a registered asset. -/
def getAssetToken (p : Pool) (assetId : Word) : Except Trap Address :=
  orPanic PoolError.unknownAsset.trap (p.assetToken assetId)

/-- `get_association_root`, also the value spends are held to. -/
def getAssociationRoot (p : Pool) : Word := p.associationRoot.getD 0

/-- `check_domain_compliance`, on the withdraw-family layout. -/
def checkDomainCompliance (p : Pool) (signals : List Word) :
    Except Trap Unit := do
  let assocIn ← sig signals 7
  let poolIn ← sig signals 8
  let chainIn ← sig signals 9
  panicIf (fr32ToI128 poolIn ≠ p.poolId.toNat
    ∨ fr32ToI128 chainIn ≠ p.chainId.toNat) PoolError.wrongDomain.trap
  panicIf (assocIn ≠ p.getAssociationRoot) PoolError.wrongAssociation.trap

/-- `append_leaf`: rebuild the tree from the stored leaves, insert, and
record the new root as known. -/
def appendLeaf (env : Env) (p : Pool) (commitment : Word) :
    Except Trap (Word × Pool) := do
  let tree := LeanIMT.new env.poseidon p.treeDepth.toNat
  let tree ← orPanic PoolError.treeFull.trap
    (tree.insertAll env.poseidon p.treeLeaves)
  let tree ← orPanic PoolError.treeFull.trap
    (tree.insert env.poseidon commitment)
  let newRoot := tree.root
  pure (newRoot, { p with
    treeLeaves := p.treeLeaves ++ [commitment]
    treeRoot := newRoot
    knownRoot := Function.update p.knownRoot newRoot true })

end Pool

/-- `recipient_hash`. The strkey is copied into 56 bytes; any other
length traps. -/
def recipientHash (env : Env) (a : Address) : Except Trap Word := do
  panicIf ((env.strkey a).length ≠ 56) .outOfRange
  pure (hashToField (env.sha256 (env.strkey a)))

/-- Invoke `verify` of a verifier contract and require `true`. -/
def verifyProof (env : Env) (w : World L) (verifier : Address)
    (proofBytes pubSignalsBytes : Bytes) (e : PoolError) :
    Except Trap Unit := do
  let vk ← orPanic .noContract (w.verifiers verifier)
  let ok ← ProofVerifier.verify env.bls vk proofBytes pubSignalsBytes
  panicIf (ok = false) e.trap

/-- Invoke `spend` of the registry, the pool as caller. -/
def spendNullifier (env : Env) (ctx : Ctx) (w : World L) (n : Word) :
    Except Trap (World L) := do
  let registry ← w.registry.spend (ctx.invokedBy env.self) env.self n
  pure { w with registry }

/-- `adjust_note_supply`. -/
def adjustNoteSupply (env : Env) (w : World L) (assetId : Word)
    (delta : ℤ) : Except Trap (World L) := do
  let token ← w.pool.getAssetToken assetId
  let next ← i128 (w.pool.noteSupply assetId + delta)
  panicIf (next < 0) PoolError.supplyUnderflow.trap
  panicIf (next > TokenHost.balance w.tokens token env.self)
    PoolError.reserveBroken.trap
  pure { w with pool := { w.pool with
    noteSupply := Function.update w.pool.noteSupply assetId next } }

/-- The signer loop of `verify_committee_threshold`: the number of
signatures verified after the keys already `seen`. -/
def verifySigners (env : Env) (committee : List Word) (msg : Bytes) :
    (signers : List Word) → (signatures : List Signature) →
    (seen : List Word) → Except Trap ℕ
  | [], _, _ => pure 0
  | pk :: pks, sigs, seen => do
      panicIf (pk ∉ committee) PoolError.mpcUnknownSigner.trap
      panicIf (pk ∈ seen) PoolError.mpcDuplicateSigner.trap
      let signature ← orPanic .unwrapNone sigs.head?
      panicIf (env.ed25519Verify pk msg signature = false) .crypto
      let verified ← verifySigners env committee msg pks sigs.tail
        (seen ++ [pk])
      pure (verified + 1)

/-- `verify_committee_threshold`: at least `ceil(2n/3)` distinct
registered signatures over the batch hash. -/
def verifyCommitteeThreshold (env : Env) (p : Pool) (batchHash : Word)
    (signerPubkeys : List Word) (signatures : List Signature) :
    Except Trap Unit := do
  let committee ← orPanic PoolError.notInitialized.trap p.committee
  panicIf (committee.length = 0) PoolError.notInitialized.trap
  let doubled ← u32 (committee.length * 2)
  let raised ← u32 (doubled + 2)
  let threshold := raised / 3
  panicIf (signerPubkeys.length < threshold
    ∨ signatures.length < threshold) PoolError.mpcThreshold.trap
  let verified ← verifySigners env committee batchHash.toBytes
    signerPubkeys signatures []
  panicIf (verified < threshold) PoolError.mpcThreshold.trap

end Lumix
