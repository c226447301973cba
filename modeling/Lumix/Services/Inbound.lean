/-
The inbound bridge: USDC burned on Arbitrum is minted into the pool on
Stellar and registered there as a note.

`runCctpInbound` burns with the operator's key and goes on to the note;
`runPostUserBurnCctpInbound` starts from a burn the user has signed, once
`validateInboundBurnTx` has looked at it. Everything they do to the
outside is a call: a transaction, a read, a poll, a file, the prover. A
program is what is between the calls, and keeps no record of how far it
has come.

`exec` answers a call. A choice decides whether it fails, leaving the
chains as they were, or takes effect while its answer is lost, and
supplies what the chains leave open. The forwarder refuses a message of
a burn it has already received, the pool a message it has already
registered.
-/
import Lumix.Lib.Solo
import Lumix.Proving.MpcSettlement
import Lumix.Services.Queue

namespace Lumix.Services.Inbound

open Text
open Proving (GeneratedCoin)

-- ========================================================= on Arbitrum

/-- The arguments of `depositForBurnWithHook`. -/
structure BurnArgs where
  amount : ℤ
  destinationDomain : ℕ
  mintRecipient : String
  burnToken : String
  destinationCaller : String
  maxFee : ℤ
  minFinalityThreshold : ℕ
  hookData : String
deriving DecidableEq

/-- What the interface makes of a transaction's data: null where the
selector is another one, an exception where the data is malformed. -/
inductive Calldata
  | burn (args : BurnArgs)
  | null
  | malformed
deriving DecidableEq

/-- What `getTransaction` returns of a transaction on Arbitrum. -/
structure ArbTx where
  sender : String
  target : Option String
  data : Calldata
deriving DecidableEq

-- ========================================================== on Stellar

/-- A CCTP message: the burn it is of, where it is forwarded to, and the
amount it mints there, the fee taken off. -/
structure Message where
  burnTxHash : String
  forwardRecipient : String
  amount7 : ℕ
deriving DecidableEq

/-- A message and Circle's attestation of it. -/
structure CctpAttestation where
  message : Message
  attestation : String
deriving DecidableEq

/-- What `buildDepositProof` returns. -/
structure DepositProof where
  proofHex : String
  publicHex : String
  locallyVerified : Bool
deriving DecidableEq

/-- What a deposit proof is bound to. -/
structure DepositBinding where
  sourceDomain : ℕ
  destinationDomain : ℕ
  cctpNonce : String
  burnTxHashHex : String
  amount6dp : ℤ
  amount7dp : ℤ
  assetStrkey : String
  poolStrkey : String
  encryptedNotePayloadHashHex : String
  policyIdHex : String
  poolId : String
  chainId : String
deriving DecidableEq

/-- The arguments of `receive_cctp_deposit`. -/
structure ReceiveArgs where
  sourceDomain : ℕ
  cctpNonce : String
  asset : String
  amount : ℤ
  commitment : String
  newRoot : Option String
  encryptedNotePayloadHash : String
  policyId : String
  proof : Option (String × String)
deriving DecidableEq

-- ============================================================== calls

/-- Where a flow reads the pool's balance: `before` the mint, or `after`
it, in one of the polls that follow. `polls` and `tries` are how many are
left; the label `before` of the later reads is what was read first. -/
inductive ReadAt
  | before (tries : ℕ)
  | after (before : ℤ) (polls tries : ℕ)
deriving DecidableEq

/-- The queue's calls are those on the row of the job at hand. The label
`pool` of `mintAndForward` is the contract whose balance is watched, the
label `message` of `receiveCctpDeposit` what the flow had attested. -/
inductive Call
  | usdcBalance
  | usdcAllowance (spender : String)
  | approve (spender : String) (amount : ℤ)
  | approved
  | depositForBurnWithHook (messenger : String) (args : BurnArgs)
  | burnReceipt (burnTxHash : String)
  | getTransaction (burnTxHash : String)
  | getTransactionReceipt (burnTxHash : String)
  | pollAttestation (sourceDomain : ℕ) (burnTxHash : String)
  | sacBalance (point : ReadAt) (sac contract : String)
  | mintAndForward (pool forwarder : String) (att : CctpAttestation)
  | buildDepositProof (coin : GeneratedCoin) (binding : DepositBinding)
  | receiveCctpDeposit (message : Message) (contract : String)
      (args : ReceiveArgs)
  | readRoot (contract method : String)
  | readCoin (path : String)
  | updateStatus (status : String)
  | event (status : JobStatus)
  | completeJob
  | jobAttempts
  | failTerminal
  | failRetry

/-- A receipt is its status; of a Stellar transaction the flows use the
hash and, for the deposit, the leaf index. -/
@[reducible]
def Call.Answer : Call → Type
  | .usdcBalance => ℕ
  | .usdcAllowance _ => ℕ
  | .depositForBurnWithHook _ _ => String
  | .getTransaction _ => Option ArbTx
  | .getTransactionReceipt _ => Option ℕ
  | .pollAttestation _ _ => CctpAttestation
  | .sacBalance _ _ _ => Option ℕ
  | .mintAndForward _ _ _ => String
  | .buildDepositProof _ _ => DepositProof
  | .receiveCctpDeposit _ _ _ => String × String
  | .readRoot _ _ => String
  | .readCoin _ => GeneratedCoin
  | .jobAttempts => ℕ × ℕ
  | _ => Unit

/-- A program of the bridge; what it throws is the text of its error. -/
abbrev Flow : Type → Type := Prog Call.Answer String

/-- One call of the outside world. -/
abbrev ask (q : Call) : Flow q.Answer := Prog.query q

/-- What needs no call. -/
def ofExcept {α : Type} : Except String α → Flow α
  | .ok a => pure a
  | .error message => throw message

/-- `if (c) throw new Error(message)` -/
def check (c : Prop) [Decidable c] (message : String) :
    Except String Unit :=
  if c then .error message else .ok ()

/-- A check passes when its condition fails. -/
@[simp]
theorem check_eq_ok {c : Prop} [Decidable c] {message : String} {u : Unit} :
    check c message = .ok u ↔ ¬c := by
  unfold check
  by_cases h : c <;> simp [h]

-- ========================================================== constants

/-- Circle's number for Arbitrum Sepolia. -/
def arbitrumSepoliaDomain : ℕ := 3

/-- Circle's number for Stellar. -/
def stellarDomain : ℕ := 27

/-- USDC on Arbitrum Sepolia. -/
def arbitrumSepoliaUsdc : String :=
  "0x75faf114eafb1BDbe2F0316DF893fd58CE46AA4d"

/-- The contract that burns it. -/
def arbitrumSepoliaTokenMessenger : String :=
  "0x8FE6B999Dc680CcFDD5Bf7EB0974218be2542DAA"

/-- The contract that mints on Stellar and forwards. -/
def stellarCctpForwarder : String :=
  "CA66Q2WFBND6V4UEB7RD4SAXSVIWMD6RA4X3U32ELVFGXV5PJK4T4VSZ"

/-- Attested when the burn is final. -/
def FINALITY_THRESHOLD_FINALIZED : ℕ := 2000

/-- Attested when it is confirmed, for a fee. -/
def FINALITY_THRESHOLD_CONFIRMED : ℕ := 1000

/-- USDC has six decimals on Arbitrum and seven on Stellar. -/
def usdc6ToStellar7 (amount6 : ℤ) : ℤ := amount6 * 10

-- ======================================================== the encodings

/-- What the flows use of their packages: Stellar's reading of its text
keys, and `keccak256` of a message. -/
structure Libraries where
  isValidContract : String → Bool
  decodeContract : String → List UInt8
  keccak256 : Message → String

/-- A contract as the 32 bytes a burn names it by. -/
def stellarContractToBytes32 (lib : Libraries) (contractId : String) :
    Except String String :=
  if lib.isValidContract contractId then
    .ok ("0x" ++ bytesHex (lib.decodeContract contractId))
  else
    .error ("Expected Stellar contract strkey, got " ++ contractId)

/-- `writeUInt32BE` -/
def bigEndian32 (n : ℕ) : List UInt8 :=
  [UInt8.ofNat (n / 2 ^ 24), UInt8.ofNat (n / 2 ^ 16),
   UInt8.ofNat (n / 2 ^ 8), UInt8.ofNat n]

/-- The hook: 24 zeros, version zero, the length of the recipient's
strkey and the strkey. -/
def encodeStellarForwardHook (lib : Libraries) (forwardRecipient : String) :
    Except String String :=
  if lib.isValidContract forwardRecipient then
    let recipient := forwardRecipient.toUTF8.data.toList
    .ok ("0x" ++ bytesHex (List.replicate 24 0 ++ List.replicate 4 0
      ++ bigEndian32 recipient.length ++ recipient))
  else
    .error "forwardRecipient must be a Stellar C contract"

/-- `s.toLowerCase()`, for text in ASCII. -/
def toLowerCase (s : String) : String :=
  String.ofList (s.toList.map Char.toLower)

-- ======================================================== environment

/-- The environment's variables. -/
abbrev EnvMap := String → Option String

/-- A variable that has to be set, and not to the empty text. -/
def need (env : EnvMap) (key : String) : Except String String :=
  match (env key).filter (· ≠ "") with
  | none => .error ("missing env " ++ key)
  | some v => .ok v

-- ==================================================== the shared steps

/-- A read may come back empty, and is tried five times; zero then. -/
def sacBalance (point : ℕ → ReadAt) (sac contract : String) :
    ℕ → Flow ℤ
  | 0 => pure 0
  | tries + 1 => do
      let read : Option ℕ ← ask (.sacBalance (point tries) sac contract)
      match read with
      | some balance => pure balance
      | none => sacBalance point sac contract tries

/-- Read again while no mint shows. -/
def pollBalance (sac contract : String) (before : ℤ) :
    ℕ → ℤ → Flow ℤ
  | 0, after => pure after
  | polls + 1, after =>
      if after ≤ before then do
        let again ← sacBalance (.after before polls) sac contract 5
        pollBalance sac contract before polls again
      else
        pure after

/-- What `mintForward` observed. -/
structure Minted where
  txHash : String
  before : ℤ
  after : ℤ

/-- `mint_and_forward` between two readings of the balance. -/
def mintForward (sac pool forwarder : String) (att : CctpAttestation) :
    Flow Minted := do
  let before ← sacBalance .before sac pool 5
  let txHash : String ← ask (.mintAndForward pool forwarder att)
  let first ← sacBalance (.after before 10) sac pool 5
  let after ← pollBalance sac pool before 10 first
  pure ⟨txHash, before, after⟩

/-- What a flow returns when it is through. -/
structure InboundResult where
  burnTxHash : String
  attestation : CctpAttestation
  cctpNonceHex : String
  mintForwardTxHash : String
  vaultUsdcBefore : ℤ
  vaultUsdcAfter : ℤ
  receiveDepositTxHash : String
  leafIndex : String
  root : String
  amount7 : ℤ

-- =================================================== the operator's burn

/-- The arguments of `runCctpInbound`. -/
structure InboundParams where
  amount6 : ℤ
  commitmentHex : String
  encryptedNotePayloadHashHex : String
  policyIdHex : String
  fast : Option Bool
  maxFee6 : Option ℤ
  targetContract : Option String
  rootMethod : Option String
  newRootHex : Option String
  coin : Option GeneratedCoin
  poolId : Option String
  chainId : Option String

/-- The fee of a fast burn is a thousandth of the amount, at least one,
unless it is given. -/
def maxFee (amount6 : ℤ) (fast : Bool) (maxFee6 : Option ℤ) : ℤ :=
  if fast then
    maxFee6.getD (if amount6.tdiv 1000 > 0 then amount6.tdiv 1000 else 1)
  else
    0

/-- A fast burn need only be confirmed. -/
def finalityThreshold (fast : Bool) : ℕ :=
  if fast then FINALITY_THRESHOLD_CONFIRMED
  else FINALITY_THRESHOLD_FINALIZED

/-- What the flow reads from its environment. -/
structure Contracts where
  forwarder : String
  vault : String
  sac : String
  usdcAddr : String
  tokenMessenger : String

/-- The variables `runCctpInbound` reads before it burns. -/
def readContracts (env : EnvMap) (targetContract : Option String) :
    Except String Contracts := do
  check ((env "ARB_SEPOLIA_PRIVATE_KEY" <|> env "ETH_PRIVATE_KEY").getD ""
      = "")
    "ARB_SEPOLIA_PRIVATE_KEY/ETH_PRIVATE_KEY required"
  let forwarder ← need env "STELLAR_CCTP_FORWARDER_CONTRACT"
  let vault ← targetContract.elim
    (need env "LUMIXPROTOCOL_VAULT_CONTRACT") .ok
  let sac ← need env "STELLAR_TESTNET_USDC_SAC_CONTRACT"
  let _relayerSecret ← need env "STELLAR_RELAYER_SECRET"
  pure
    { forwarder, vault, sac
      usdcAddr :=
        (env "ARB_SEPOLIA_USDC_ADDRESS").getD arbitrumSepoliaUsdc
      tokenMessenger :=
        (env "ARB_SEPOLIA_CCTP_TOKEN_MESSENGER").getD
          arbitrumSepoliaTokenMessenger }

/-- Let the messenger pull the amount, where it may not yet. -/
def approveIfNeeded (messenger : String) (amount6 : ℤ) : Flow Unit := do
  let allowance : ℕ ← ask (.usdcAllowance messenger)
  if allowance < amount6 then do
    ask (.approve messenger (amount6 * 100))
    ask .approved
  else
    pure ()

/-- The arguments of `depositForBurnWithHook`: both addresses are the
forwarder's, and the hook is the vault's. -/
def burnArgs (lib : Libraries) (c : Contracts) (amount6 : ℤ) (fast : Bool)
    (maxFee6 : Option ℤ) : Except String BurnArgs := do
  let mintRecipient ← stellarContractToBytes32 lib c.forwarder
  let destinationCaller ← stellarContractToBytes32 lib c.forwarder
  let hookData ← encodeStellarForwardHook lib c.vault
  pure
    { amount := amount6
      destinationDomain := stellarDomain
      mintRecipient
      burnToken := c.usdcAddr
      destinationCaller
      maxFee := maxFee amount6 fast maxFee6
      minFinalityThreshold := finalityThreshold fast
      hookData }

/-- The funds, the allowance and the burn. -/
def submitBurn (lib : Libraries) (c : Contracts) (p : InboundParams) :
    Flow String := do
  let bal : ℕ ← ask .usdcBalance
  ofExcept (check (bal < p.amount6)
    ("insufficient USDC: have " ++ toString bal ++ ", need "
      ++ toString p.amount6))
  approveIfNeeded c.tokenMessenger p.amount6
  let args ← ofExcept
    (burnArgs lib c p.amount6 (p.fast.getD true) p.maxFee6)
  ask (.depositForBurnWithHook c.tokenMessenger args)

/-- The deposit proof, made for the pool only. -/
def depositProofArgs (lib : Libraries) (c : Contracts) (p : InboundParams)
    (burnTxHash : String) (att : CctpAttestation) (amount7 : ℤ) :
    Flow (Option (String × String)) :=
  match p.targetContract with
  | none => pure none
  | some target =>
      match p.coin with
      | none => throw
          "P1.8: coin (note opening) required for shielded_pool deposit proof"
      | some coin => do
          let dep : DepositProof ← ask
            (.buildDepositProof coin
              { sourceDomain := arbitrumSepoliaDomain
                destinationDomain := stellarDomain
                cctpNonce := lib.keccak256 att.message
                burnTxHashHex := burnTxHash
                amount6dp := p.amount6
                amount7dp := amount7
                assetStrkey := c.sac
                poolStrkey := target
                encryptedNotePayloadHashHex :=
                  p.encryptedNotePayloadHashHex
                policyIdHex := p.policyIdHex
                poolId := p.poolId.getD "1"
                chainId := p.chainId.getD "148" })
          ofExcept (check (dep.locallyVerified = false)
            "P1.8 deposit proof failed local verification")
          pure (some (dep.proofHex, dep.publicHex))

/-- A deposit into a given contract needs a new root. -/
def newRootArg (p : InboundParams) : Except String (Option String) :=
  match p.targetContract, p.newRootHex with
  | none, _ => .ok none
  | some _, some root => .ok (some (stripHex root))
  | some _, none => .error "newRootHex required for shielded_pool deposit"

/-- The proof, `receive_cctp_deposit` and the root. -/
def registerInbound (lib : Libraries) (env : EnvMap) (c : Contracts)
    (p : InboundParams) (burnTxHash : String) (att : CctpAttestation) (m : Minted) :
    Flow InboundResult := do
  let amount7 := m.after - m.before
  let proof ← depositProofArgs lib c p burnTxHash att amount7
  let newRoot ← ofExcept (newRootArg p)
  let receive : String × String ← ask
    (.receiveCctpDeposit att.message c.vault
      { sourceDomain := arbitrumSepoliaDomain
        cctpNonce := stripHex (lib.keccak256 att.message)
        asset := c.sac
        amount := amount7
        commitment := stripHex p.commitmentHex
        newRoot
        encryptedNotePayloadHash := stripHex p.encryptedNotePayloadHashHex
        policyId := stripHex p.policyIdHex
        proof })
  let rootContract ← ofExcept
    (p.targetContract.elim (need env "COMMITMENT_TREE_CONTRACT") .ok)
  let rootMethod := p.rootMethod.getD
    (if p.targetContract.isSome then "get_root" else "get_latest_root")
  let root : String ← ask (.readRoot rootContract rootMethod)
  pure
    { burnTxHash
      attestation := att
      cctpNonceHex := lib.keccak256 att.message
      mintForwardTxHash := m.txHash
      vaultUsdcBefore := m.before
      vaultUsdcAfter := m.after
      receiveDepositTxHash := receive.1
      leafIndex := receive.2
      root
      amount7 }

/-- The Stellar side of a submitted burn. -/
def completeInbound (lib : Libraries) (env : EnvMap) (c : Contracts)
    (p : InboundParams) (burnTxHash : String) : Flow InboundResult := do
  ask (.burnReceipt burnTxHash)
  let att : CctpAttestation ← ask
    (.pollAttestation arbitrumSepoliaDomain burnTxHash)
  let m ← mintForward c.sac c.vault c.forwarder att
  let mintedDelta7 := m.after - m.before
  let expectedMax7 := usdc6ToStellar7 p.amount6
  ofExcept (check (mintedDelta7 ≤ 0 ∨ mintedDelta7 > expectedMax7)
    ("vault USDC delta " ++ toString mintedDelta7 ++ " not in (0, "
      ++ toString expectedMax7 ++ "]"))
  registerInbound lib env c p burnTxHash att m

/-- The operator's flow: burn, then complete. -/
def runCctpInbound (lib : Libraries) (env : EnvMap) (p : InboundParams) :
    Flow InboundResult := do
  let c ← ofExcept (readContracts env p.targetContract)
  let burnTxHash ← submitBurn lib c p
  completeInbound lib env c p burnTxHash

-- ======================================================= the user's burn

/-- What a user's burn is compared with. -/
structure ExpectedBurn where
  burnTxHash : String
  expectedSender : String
  expectedAmount6 : ℤ
  pool : String
  expectedMaxFee6 : Option ℤ
  expectedFinality : Option ℤ
deriving DecidableEq

/-- What `validateInboundBurnTx` returns. -/
structure BurnValidation where
  burnTxHash : String
  sender : String
  args : BurnArgs
deriving DecidableEq

/-- The checks on a transaction that was found. A threshold in the
environment that is no number equals none. -/
def validateBurn (lib : Libraries) (env : EnvMap) (a : ExpectedBurn)
    (tx : ArbTx) (status : ℕ) : Except String BurnValidation := do
  check (status ≠ 1) "burn tx reverted"
  check (toLowerCase tx.sender ≠ toLowerCase a.expectedSender)
    "burn sender != deposit user wallet"
  let tokenMessenger := toLowerCase
    ((env "ARB_SEPOLIA_CCTP_TOKEN_MESSENGER").getD
      arbitrumSepoliaTokenMessenger)
  check (toLowerCase (tx.target.getD "") ≠ tokenMessenger)
    "burn tx target != CCTP TokenMessenger"
  let d ←
    match tx.data with
    | .malformed => .error "burn tx is not depositForBurnWithHook"
    | .null => .error "could not decode burn calldata"
    | .burn args => .ok args
  let forwarder :=
    (env "STELLAR_CCTP_FORWARDER_CONTRACT").getD stellarCctpForwarder
  let usdc := toLowerCase
    ((env "ARB_SEPOLIA_USDC_ADDRESS").getD arbitrumSepoliaUsdc)
  let expMint ← stellarContractToBytes32 lib forwarder
  let expHook ← encodeStellarForwardHook lib a.pool
  check (d.amount ≠ a.expectedAmount6) "burn amount != deposit amount"
  check (d.destinationDomain ≠ stellarDomain)
    "burn destination domain != Stellar"
  check (toLowerCase d.mintRecipient ≠ toLowerCase expMint)
    "burn mintRecipient != Stellar CCTP Forwarder"
  check (toLowerCase d.burnToken ≠ usdc) "burn burnToken != expected USDC"
  check (toLowerCase d.destinationCaller ≠ toLowerCase expMint)
    "burn destinationCaller != Stellar CCTP Forwarder"
  check (∃ maxFee ∈ a.expectedMaxFee6, d.maxFee > maxFee)
    "burn maxFee exceeds prepared maxFee"
  let expectedFinality : Option ℤ :=
    match a.expectedFinality with
    | some n => some n
    | none =>
        match (env "EXPECTED_CCTP_FINALITY_THRESHOLD").filter (· ≠ "") with
        | some text => bigInt text
        | none => some FINALITY_THRESHOLD_CONFIRMED
  check (expectedFinality ≠ some (d.minFinalityThreshold : ℤ))
    ("burn minFinalityThreshold " ++ toString d.minFinalityThreshold
      ++ " != expected " ++ expectedFinality.elim "NaN" toString)
  check (toLowerCase d.hookData ≠ toLowerCase expHook)
    "burn hookData forwardRecipient != LumixProtocolPool"
  pure ⟨a.burnTxHash, tx.sender, d⟩

/-- A burn that is on Arbitrum with a receipt, and is the one
expected. -/
def validateInboundBurnTx (lib : Libraries) (env : EnvMap)
    (a : ExpectedBurn) : Flow BurnValidation := do
  let tx : Option ArbTx ← ask (.getTransaction a.burnTxHash)
  let receipt : Option ℕ ← ask (.getTransactionReceipt a.burnTxHash)
  match tx, receipt with
  | some tx, some status => ofExcept (validateBurn lib env a tx status)
  | _, _ => throw "burn tx not found on Arbitrum"

/-- The arguments of `runPostUserBurnCctpInbound`. -/
structure PostUserBurnParams where
  burnTxHash : String
  pool : String
  amount6 : ℤ
  commitmentHex : String
  encryptedNotePayloadHashHex : String
  policyIdHex : String
  newRootHex : String
  coin : Option GeneratedCoin
  poolId : Option String
  chainId : Option String

/-- The proof, `receive_cctp_deposit` and the root. -/
def registerPostUserBurn (lib : Libraries) (p : PostUserBurnParams)
    (sac : String) (att : CctpAttestation) (m : Minted) : Flow InboundResult := do
  let amount7 := m.after - m.before
  match p.coin with
  | none =>
      throw "coin opening required to build DepositNoteMint proof (supply via prover path)"
  | some coin => do
      let dep : DepositProof ← ask
        (.buildDepositProof coin
          { sourceDomain := arbitrumSepoliaDomain
            destinationDomain := stellarDomain
            cctpNonce := lib.keccak256 att.message
            burnTxHashHex := p.burnTxHash
            amount6dp := p.amount6
            amount7dp := amount7
            assetStrkey := sac
            poolStrkey := p.pool
            encryptedNotePayloadHashHex := p.encryptedNotePayloadHashHex
            policyIdHex := p.policyIdHex
            poolId := p.poolId.getD "1"
            chainId := p.chainId.getD "148" })
      ofExcept (check (dep.locallyVerified = false)
        "DepositNoteMint proof failed local verification")
      let receive : String × String ← ask
        (.receiveCctpDeposit att.message p.pool
          { sourceDomain := arbitrumSepoliaDomain
            cctpNonce := stripHex (lib.keccak256 att.message)
            asset := sac
            amount := amount7
            commitment := stripHex p.commitmentHex
            newRoot := some (stripHex p.newRootHex)
            encryptedNotePayloadHash :=
              stripHex p.encryptedNotePayloadHashHex
            policyId := stripHex p.policyIdHex
            proof := some (dep.proofHex, dep.publicHex) })
      let root : String ← ask (.readRoot p.pool "get_root")
      pure
        { burnTxHash := p.burnTxHash
          attestation := att
          cctpNonceHex := lib.keccak256 att.message
          mintForwardTxHash := m.txHash
          vaultUsdcBefore := m.before
          vaultUsdcAfter := m.after
          receiveDepositTxHash := receive.1
          leafIndex := receive.2
          root
          amount7 }

/-- The user's flow: the burn is there, so it is attested, minted and
registered. -/
def runPostUserBurnCctpInbound (lib : Libraries) (env : EnvMap)
    (p : PostUserBurnParams) : Flow InboundResult := do
  let forwarder :=
    (env "STELLAR_CCTP_FORWARDER_CONTRACT").getD stellarCctpForwarder
  let sac ← ofExcept (need env "STELLAR_TESTNET_USDC_SAC_CONTRACT")
  let _relayerSecret ← ofExcept (need env "STELLAR_RELAYER_SECRET")
  let att : CctpAttestation ← ask
    (.pollAttestation arbitrumSepoliaDomain p.burnTxHash)
  let m ← mintForward sac p.pool forwarder att
  ofExcept (check (m.after - m.before ≤ 0)
    "mint_and_forward produced no pool USDC delta")
  registerPostUserBurn lib p sac att m

-- ========================================================== the worker

/-- The job types `worker.ts` processes with a flow into the pool. -/
inductive InboundJobType
  | CCTP_INBOUND
  | CCTP_INBOUND_AFTER_USER_BURN
deriving DecidableEq

/-- What an inbound job carries, each field as the text it is used as. -/
structure InboundPayload where
  pool : Option String
  amount6 : Option String
  commitmentHex : String
  commitment : String
  encryptedNotePayloadHashHex : String
  policyIdHex : String
  newRootHex : String
  coinPath : Option String
  burnTxHash : String
  sourceWalletAddress : String
  expectedAmount6 : String
  expectedMaxFee6 : Option String
  expectedFinality : Option ℤ

/-- The status is stored, then logged. -/
def setStatus (status : String) : Flow Unit := do
  ask (.updateStatus status)
  ask (.event (.progress status))

/-- `BigInt(text)` -/
def toBigInt (text : String) : Except String ℤ :=
  match bigInt text with
  | some n => .ok n
  | none => .error ("Cannot convert " ++ text ++ " to a BigInt")

/-- The pool of the job, or else the environment's. -/
def relayerPool (env : EnvMap) (p : InboundPayload) :
    Except String String := do
  let pool := (p.pool <|> env "SHIELDED_POOL_CONTRACT").getD ""
  check (pool = "" ∨ (env "STELLAR_RELAYER_SECRET").getD "" = "")
    "relayer missing SHIELDED_POOL_CONTRACT / STELLAR_RELAYER_SECRET"
  pure pool

/-- The operator's job as parameters: fast, into the pool. -/
def inboundParams (p : InboundPayload) (pool : String) (amount6 : ℤ)
    (coin : GeneratedCoin) : InboundParams where
  amount6 := amount6
  commitmentHex := p.commitmentHex
  encryptedNotePayloadHashHex := p.encryptedNotePayloadHashHex
  policyIdHex := p.policyIdHex
  fast := some true
  maxFee6 := none
  targetContract := some pool
  rootMethod := none
  newRootHex := some p.newRootHex
  coin := some coin
  poolId := none
  chainId := none

/-- The `CCTP_INBOUND` branch of `processRelayerJob`. -/
def processCctpInbound (lib : Libraries) (env : EnvMap)
    (p : InboundPayload) : Flow Unit := do
  let pool ← ofExcept (relayerPool env p)
  ofExcept (check (env "ENABLE_OPERATOR_TESTNET_DEPOSIT" ≠ some "true")
    ("operator-driven CCTP_INBOUND is disabled "
      ++ "(set ENABLE_OPERATOR_TESTNET_DEPOSIT=true for dev/test); "
      ++ "app deposits use CCTP_INBOUND_AFTER_USER_BURN"))
  setStatus "burning"
  let amount6 ← ofExcept (toBigInt (p.amount6.getD "1000000"))
  let coin : GeneratedCoin ← ask (.readCoin (p.coinPath.getD "undefined"))
  let _result ← runCctpInbound lib env (inboundParams p pool amount6 coin)
  pure ()

/-- The user's job as parameters. -/
def postUserBurnParams (p : InboundPayload) (pool : String)
    (amount6 : ℤ) (coin : GeneratedCoin) : PostUserBurnParams where
  burnTxHash := p.burnTxHash
  pool := pool
  amount6 := amount6
  commitmentHex := p.commitment
  encryptedNotePayloadHashHex := p.encryptedNotePayloadHashHex
  policyIdHex := p.policyIdHex
  newRootHex := p.newRootHex
  coin := some coin
  poolId := none
  chainId := none

/-- What the user's burn is compared with, from the job's payload. -/
def expectedBurn (p : InboundPayload) (pool : String) :
    Except String ExpectedBurn := do
  let expectedAmount6 ← toBigInt p.expectedAmount6
  let expectedMaxFee6 ← (p.expectedMaxFee6.filter (· ≠ "")).mapM toBigInt
  pure
    { burnTxHash := p.burnTxHash
      expectedSender := p.sourceWalletAddress
      expectedAmount6
      pool
      expectedMaxFee6
      expectedFinality := p.expectedFinality }

/-- The Stellar side of the user's burn, if the job names the note. -/
def completeUserBurn (lib : Libraries) (env : EnvMap)
    (p : InboundPayload) (pool : String) (v : BurnValidation) : Flow Unit :=
  match p.coinPath.filter (· ≠ "") with
  | none => setStatus "awaiting_proof_witness"
  | some path => do
      setStatus "completing_stellar_side"
      let coin : GeneratedCoin ← ask (.readCoin path)
      let _result ← runPostUserBurnCctpInbound lib env
        (postUserBurnParams p pool v.args.amount coin)
      setStatus "note_registered"

/-- The `CCTP_INBOUND_AFTER_USER_BURN` branch of `processRelayerJob`. -/
def processAfterUserBurn (lib : Libraries) (env : EnvMap)
    (p : InboundPayload) : Flow Unit := do
  let pool ← ofExcept (relayerPool env p)
  setStatus "validating_burn"
  let expected ← ofExcept (expectedBurn p pool)
  let v ← validateInboundBurnTx lib env expected
  setStatus "burn_validated"
  completeUserBurn lib env p pool v

/-- The job's branch of `processRelayerJob`. -/
def process (lib : Libraries) (env : EnvMap) (p : InboundPayload) :
    InboundJobType → Flow Unit
  | .CCTP_INBOUND => processCctpInbound lib env p
  | .CCTP_INBOUND_AFTER_USER_BURN => processAfterUserBurn lib env p

/-- The job is done, and logged as ready. -/
def complete : Flow Unit := do
  ask .completeJob
  ask (.event .ready)

/-- The job is queued again, or failed for good when its attempts are
used up. -/
def fail : Flow Unit := do
  let j : ℕ × ℕ ← ask .jobAttempts
  if terminal (some j) then do
    ask .failTerminal
    ask (.event .failed)
  else do
    ask .failRetry
    ask (.event .failedRetry)

/-- A claimed job is processed, and completed or failed. -/
def runClaimed (work : Flow Unit) : Flow Unit :=
  tryCatch
    (do
      work
      complete)
    fun _ => fail

-- ============================================================ the world

/-- A call of the pool that registered a deposit, and at which
contract. -/
structure Deposit where
  contract : String
  args : ReceiveArgs
deriving DecidableEq

/-- The chains, as far as the bridge can tell them apart, and the row of
the job at hand. `burns` are the burns the operator's key has submitted,
`received` the messages the forwarder has received, `delivered` those of
them the relayer's own calls brought, `deposits` what the pools have
registered. -/
structure World where
  burns : List BurnArgs
  received : List Message
  delivered : List Message
  balance : String → ℕ
  deposits : List Deposit
  status : JobStatus
  attempts : ℕ
  maxAttempts : ℕ

namespace World

/-- The forwarder has received a message of this burn. -/
def Used (w : World) (burnTxHash : String) : Prop :=
  ∃ m ∈ w.received, m.burnTxHash = burnTxHash

instance (w : World) (burnTxHash : String) :
    Decidable (w.Used burnTxHash) := by
  unfold Used
  infer_instance

/-- The pool has registered a deposit under the nonce. -/
def Registered (w : World) (contract nonce : String) : Prop :=
  ∃ d ∈ w.deposits, d.contract = contract ∧ d.args.cctpNonce = nonce

instance (w : World) (contract nonce : String) :
    Decidable (w.Registered contract nonce) := by
  unfold Registered
  infer_instance

/-- The forwarder mints a message's amount and passes it on. -/
def mint (w : World) (m : Message) : World :=
  { w with
    received := w.received ++ [m]
    delivered := w.delivered ++ [m]
    balance := Function.update w.balance m.forwardRecipient
      (w.balance m.forwardRecipient + m.amount7) }

/-- The contract registers the deposit. -/
def register (w : World) (contract : String) (args : ReceiveArgs) : World :=
  { w with deposits := w.deposits ++ [⟨contract, args⟩] }

end World

/-- What a reading of a balance shows: nothing, what the contract holds,
or some other value, of a ledger that is past. -/
inductive Reading
  | empty
  | current
  | stale (past : ℕ)
deriving DecidableEq

/-- What is answered when the contract holds `balance`. -/
def Reading.shows (balance : ℕ) : Reading → Option ℕ
  | empty => none
  | current => some balance
  | stale past => some past

/-- What the chains, Circle, the files and the prover put into an
answer. -/
structure Draw where
  amount : ℕ
  text : String
  leafIndex : String
  reading : Reading
  message : Message
  tx : Option ArbTx
  receipt : Option ℕ
  coin : GeneratedCoin
  proof : DepositProof

/-- What becomes of a call: it goes through, it fails, or it goes
through and its answer is lost. -/
inductive Choice
  | go (d : Draw)
  | fail
  | lost (d : Draw)

/-- A call that takes effect. -/
def perform : (q : Call) → Draw → World → World × Except String q.Answer
  | .usdcBalance, d, w => (w, .ok d.amount)
  | .usdcAllowance _, d, w => (w, .ok d.amount)
  | .approve _ _, _, w => (w, .ok ())
  | .approved, _, w => (w, .ok ())
  | .depositForBurnWithHook _ args, d, w =>
      ({ w with burns := w.burns ++ [args] }, .ok d.text)
  | .burnReceipt _, _, w => (w, .ok ())
  | .getTransaction _, d, w => (w, .ok d.tx)
  | .getTransactionReceipt _, d, w => (w, .ok d.receipt)
  | .pollAttestation _ burnTxHash, d, w =>
      (w, .ok ⟨{ d.message with burnTxHash }, d.text⟩)
  | .sacBalance _ _ contract, d, w =>
      (w, .ok (d.reading.shows (w.balance contract)))
  | .mintAndForward _ _ att, d, w =>
      if w.Used att.message.burnTxHash then
        (w, .error "message already received")
      else
        (w.mint att.message, .ok d.text)
  | .buildDepositProof _ _, d, w => (w, .ok d.proof)
  | .receiveCctpDeposit _ contract args, d, w =>
      if w.Registered contract args.cctpNonce then
        (w, .error "DuplicateDeposit")
      else
        (w.register contract args, .ok (d.text, d.leafIndex))
  | .readRoot _ _, d, w => (w, .ok d.text)
  | .readCoin _, d, w => (w, .ok d.coin)
  | .updateStatus status, _, w =>
      ({ w with status := .progress status }, .ok ())
  | .event _, _, w => (w, .ok ())
  | .completeJob, _, w => ({ w with status := .ready }, .ok ())
  | .jobAttempts, _, w => (w, .ok (w.attempts, w.maxAttempts))
  | .failTerminal, _, w => ({ w with status := .failed }, .ok ())
  | .failRetry, _, w => ({ w with status := .failedRetry }, .ok ())

/-- A call as chosen. -/
def exec (q : Call) : Choice → World → World × Except String q.Answer
  | .go d, w => perform q d w
  | .fail, w => (w, .error "failed")
  | .lost d, w => ((perform q d w).1, .error "failed")

/-- A call is answered only where it takes effect and nothing is lost. -/
theorem exec_answered {q : Call} {c : Choice} {w : World} {a : q.Answer}
    (h : (exec q c w).2 = .ok a) :
    ∃ d, c = .go d ∧ (perform q d w).2 = .ok a := by
  cases c with
  | go d => exact ⟨d, rfl, h⟩
  | fail => cases h
  | lost d => cases h

-- ================================================== what a call does

/-- Everything a call can do to the world. -/
inductive Effect (w : World) : Call → World → Prop
  | quiet (q : Call) : Effect w q w
  | burned {messenger : String} {args : BurnArgs} :
      Effect w (.depositForBurnWithHook messenger args)
        { w with burns := w.burns ++ [args] }
  | minted {pool forwarder : String} {att : CctpAttestation}
      (h : ¬w.Used att.message.burnTxHash) :
      Effect w (.mintAndForward pool forwarder att) (w.mint att.message)
  | registered {message : Message} {contract : String} {args : ReceiveArgs}
      (h : ¬w.Registered contract args.cctpNonce) :
      Effect w (.receiveCctpDeposit message contract args)
        (w.register contract args)
  | moved (q : Call) (status : JobStatus) : Effect w q { w with status }

/-- A call that goes through has the effect of its kind. -/
theorem effect_perform (q : Call) (d : Draw) (w : World) :
    Effect w q (perform q d w).1 := by
  cases q with
  | depositForBurnWithHook messenger args => exact .burned
  | mintAndForward pool forwarder att =>
      simp only [perform]
      split
      · exact .quiet _
      · rename_i h
        exact .minted h
  | receiveCctpDeposit message contract args =>
      simp only [perform]
      split
      · exact .quiet _
      · rename_i h
        exact .registered h
  | updateStatus status => exact .moved _ _
  | completeJob => exact .moved _ _
  | failTerminal => exact .moved _ _
  | failRetry => exact .moved _ _
  | _ => exact .quiet _

/-- A call has the effect of its kind, or none. -/
theorem effect_exec (q : Call) (c : Choice) (w : World) :
    Effect w q (exec q c w).1 := by
  cases c with
  | go d => exact effect_perform q d w
  | fail => exact .quiet q
  | lost d => exact effect_perform q d w

-- the three irreversible calls

/-- The call burns USDC on Arbitrum. -/
def Call.IsBurn : Call → Prop
  | .depositForBurnWithHook _ _ => True
  | _ => False

/-- The call mints on Stellar and forwards. -/
def Call.IsMint : Call → Prop
  | .mintAndForward _ _ _ => True
  | _ => False

/-- The call registers a deposit. -/
def Call.IsDeposit : Call → Prop
  | .receiveCctpDeposit _ _ _ => True
  | _ => False

variable {w w' : World} {q : Call}

/-- Only burning burns. -/
theorem Effect.burns (h : Effect w q w') (hq : ¬q.IsBurn) :
    w'.burns = w.burns := by
  cases h with
  | burned => exact absurd trivial hq
  | _ => rfl

/-- Only minting delivers. -/
theorem Effect.delivered (h : Effect w q w') (hq : ¬q.IsMint) :
    w'.delivered = w.delivered := by
  cases h with
  | minted _ => exact absurd trivial hq
  | _ => rfl

/-- Only depositing deposits. -/
theorem Effect.deposits (h : Effect w q w') (hq : ¬q.IsDeposit) :
    w'.deposits = w.deposits := by
  cases h with
  | registered _ => exact absurd trivial hq
  | _ => rfl

/-- What the forwarder has received it keeps. -/
theorem Effect.used (h : Effect w q w') {burnTxHash : String}
    (hused : w.Used burnTxHash) : w'.Used burnTxHash := by
  obtain ⟨m, hm, hhash⟩ := hused
  cases h with
  | minted _ => exact ⟨m, List.mem_append_left _ hm, hhash⟩
  | _ => exact ⟨m, hm, hhash⟩

/-- None of the three. -/
def Call.Plain (q : Call) : Prop := ¬q.IsBurn ∧ ¬q.IsMint ∧ ¬q.IsDeposit

-- ===================================================== what is called

variable {P : Call → Prop}

/-- Code that only decides makes no call. -/
theorem uses_ofExcept {α : Type} (x : Except String α) :
    (ofExcept x).Uses P := by
  cases x <;> trivial

/-- Reading a balance, however often it is tried. -/
theorem uses_sacBalance {point : ℕ → ReadAt} {sac contract : String}
    (h : ∀ p, P (.sacBalance p sac contract)) (tries : ℕ) :
    (sacBalance point sac contract tries).Uses P := by
  induction tries with
  | zero => trivial
  | succ tries ih =>
      refine (Prog.uses_query (h _)).bind fun read => ?_
      cases read with
      | some balance => trivial
      | none => exact ih

/-- Polling a balance, however long. -/
theorem uses_pollBalance {sac contract : String} {before : ℤ}
    (h : ∀ p, P (.sacBalance p sac contract)) (polls : ℕ) (after : ℤ) :
    (pollBalance sac contract before polls after).Uses P := by
  induction polls generalizing after with
  | zero => trivial
  | succ polls ih =>
      unfold pollBalance
      split
      · exact (uses_sacBalance h 5).bind ih
      · trivial

/-- Minting reads the pool's balance and mints once. -/
theorem uses_mintForward {sac pool forwarder : String}
    {att : CctpAttestation} (hread : ∀ p, P (.sacBalance p sac pool))
    (hmint : P (.mintAndForward pool forwarder att)) :
    (mintForward sac pool forwarder att).Uses P :=
  (uses_sacBalance hread 5).bind fun _ =>
    (Prog.uses_query hmint).bind fun _ =>
      (uses_sacBalance hread 5).bind fun first =>
        (uses_pollBalance hread 10 first).bind fun _ => trivial

section Plain

variable (hplain : ∀ q : Call, q.Plain → P q)
include hplain

/-- A call of no consequence. -/
theorem uses_plain (q : Call) (h : q.Plain) : (ask q).Uses P :=
  Prog.uses_query (hplain q h)

/-- Storing a status is of no consequence. -/
theorem uses_setStatus (status : String) : (setStatus status).Uses P :=
  (uses_plain hplain _ ⟨id, id, id⟩).bind fun _ =>
    uses_plain hplain _ ⟨id, id, id⟩

/-- Nor is completing a job. -/
theorem uses_complete : complete.Uses P :=
  (uses_plain hplain _ ⟨id, id, id⟩).bind fun _ =>
    uses_plain hplain _ ⟨id, id, id⟩

/-- Nor is failing one. -/
theorem uses_fail : fail.Uses P := by
  refine (uses_plain hplain .jobAttempts ⟨id, id, id⟩).bind ?_
  intro (j : ℕ × ℕ)
  refine Prog.Uses.ite ?_ ?_
  · exact (uses_plain hplain _ ⟨id, id, id⟩).bind fun _ =>
      uses_plain hplain _ ⟨id, id, id⟩
  · exact (uses_plain hplain _ ⟨id, id, id⟩).bind fun _ =>
      uses_plain hplain _ ⟨id, id, id⟩

/-- Nor is an approval. -/
theorem uses_approveIfNeeded (messenger : String) (amount6 : ℤ) :
    (approveIfNeeded messenger amount6).Uses P := by
  refine (uses_plain hplain (.usdcAllowance messenger) ⟨id, id, id⟩).bind ?_
  intro (allowance : ℕ)
  refine Prog.Uses.ite ?_ trivial
  exact (uses_plain hplain _ ⟨id, id, id⟩).bind fun _ =>
    uses_plain hplain _ ⟨id, id, id⟩

/-- Nor is the comparison of a user's burn. -/
theorem uses_validateInboundBurnTx (lib : Libraries) (env : EnvMap)
    (a : ExpectedBurn) : (validateInboundBurnTx lib env a).Uses P := by
  refine (uses_plain hplain (.getTransaction _) ⟨id, id, id⟩).bind fun tx => ?_
  refine (uses_plain hplain (.getTransactionReceipt _) ⟨id, id, id⟩).bind
    fun receipt => ?_
  cases tx with
  | none => trivial
  | some tx =>
      cases receipt with
      | none => trivial
      | some status => exact uses_ofExcept _

variable (hdeposit : ∀ message contract args,
  P (.receiveCctpDeposit message contract args))
include hdeposit

/-- Registering the operator's deposit neither burns nor mints. -/
theorem uses_registerInbound (lib : Libraries) (env : EnvMap)
    (c : Contracts) (p : InboundParams) (burnTxHash : String)
    (att : CctpAttestation) (m : Minted) :
    (registerInbound lib env c p burnTxHash att m).Uses P := by
  unfold registerInbound
  refine Prog.Uses.bind ?_ fun proof => (uses_ofExcept _).bind fun root =>
    (Prog.uses_query (hdeposit _ _ _)).bind fun receive =>
      (uses_ofExcept _).bind fun contract =>
        (uses_plain hplain _ ⟨id, id, id⟩).bind fun root => trivial
  unfold depositProofArgs
  split
  · trivial
  · split
    · trivial
    · exact (uses_plain hplain _ ⟨id, id, id⟩).bind fun dep =>
        (uses_ofExcept _).bind fun _ => trivial

/-- Nor does registering the user's. -/
theorem uses_registerPostUserBurn (lib : Libraries)
    (p : PostUserBurnParams) (sac : String) (att : CctpAttestation)
    (m : Minted) :
    (registerPostUserBurn lib p sac att m).Uses P := by
  unfold registerPostUserBurn
  split
  · trivial
  · exact (uses_plain hplain _ ⟨id, id, id⟩).bind fun dep =>
      (uses_ofExcept _).bind fun _ =>
        (Prog.uses_query (hdeposit _ _ _)).bind fun receive =>
          (uses_plain hplain _ ⟨id, id, id⟩).bind fun root => trivial

variable (hmint : ∀ pool forwarder att, P (.mintAndForward pool forwarder att))
include hmint

/-- Completing the operator's flow mints what its burn is attested
for. -/
theorem uses_completeInbound (lib : Libraries) (env : EnvMap)
    (c : Contracts) (p : InboundParams) (burnTxHash : String) :
    (completeInbound lib env c p burnTxHash).Uses P :=
  (uses_plain hplain _ ⟨id, id, id⟩).bind fun _ =>
    (uses_plain hplain _ ⟨id, id, id⟩).bind fun att =>
      (uses_mintForward (fun _ => hplain _ ⟨id, id, id⟩) (hmint _ _ _)).bind
        fun m => (uses_ofExcept _).bind fun _ =>
          uses_registerInbound hplain hdeposit lib env c p burnTxHash att m

end Plain

end Lumix.Services.Inbound
