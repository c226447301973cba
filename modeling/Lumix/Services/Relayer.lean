/-
What the relayer submits for a match, and what it has proved of it.

For an `MPC_SETTLE_SUBMIT` job the relayer checks the committee's
signatures, tries to prove the match and calls `pool.mpc_settle`. The
proof is of the two coin files and of output notes the prover draws; the
arguments of the call are columns of the database, carried in the job's
payload. Nothing compares the two. The pool does: it accepts only
arguments that are the proof's public signals (`settled_submits`), so
what the relayer submits has been proved exactly where the payload
happens to agree with the coins, the draws and the ledger
(`Agreement`).

The payloads a settler makes have no coin files at all and are refused
before the call (`proofless_refused`).

A run of the branch is a function of what it reads (`Outside`); only its
first error or the call that ends it is of interest, so a status update
is here for whether it fails.
-/
import Lumix.Proving.MpcSettlement
import Lumix.Services.Settlement

namespace Lumix.Services

open Committee (MatchResult NodeSignature)
open Exec Text Proving

-- ============================================================ the job

/-- What an `MPC_SETTLE_SUBMIT` payload may carry. A settler's has none
of the optional keys. -/
structure SettleJob extends SettlePayload where
  pool : Option String
  coinAPath : Option String
  coinBPath : Option String
  assocPath : Option String
  scope : Option String
  poolId : Option String
  chainId : Option String
  deadlineLedger : Option String

/-- The job a settler makes of a payload. -/
def SettlePayload.job (p : SettlePayload) : SettleJob :=
  { p with
    pool := none
    coinAPath := none
    coinBPath := none
    assocPath := none
    scope := none
    poolId := none
    chainId := none
    deadlineLedger := none }

/-- `String(p.poolId ?? "0")` -/
def SettleJob.poolIdText (job : SettleJob) : String :=
  job.poolId.getD "0"

/-- `String(p.chainId ?? "27")` -/
def SettleJob.chainIdText (job : SettleJob) : String :=
  job.chainId.getD "27"

/-- `String(p.deadlineLedger ?? "0")` -/
def SettleJob.deadlineText (job : SettleJob) : String :=
  job.deadlineLedger.getD "0"

/-- The variables the branch reads. -/
structure RelayerEnv where
  shieldedPoolContract : Option String
  stellarRelayerSecret : Option String
  poolScope : Option String
  enableUnsafeProofless : Option String

/-- What one run reads, in the order of its reads. `storedMatches` is
empty for a batch without a row or without matches. -/
structure Outside where
  env : RelayerEnv
  storedMatches : Except String (List MatchResult)
  getCommittee : (contractId secret : String) →
    Except String (List String)
  verifyNodeSignature : (batchId : String) → List MatchResult →
    NodeSignature → Except String Bool
  setStatus : String → Except String Unit
  /-- the leaves read for the proof -/
  noteCommitments : Except String (List String)
  tools : Tools
  draws : Draws
  /-- the leaves read for the new root -/
  leavesForRoot : Except String (List String)
  /-- `coinutils compute-root` -/
  computeRoot : List String → Except String String

-- ====================================================== verifySignedBatch

/-- A node of the committee, as the sdk knows it. -/
structure CommitteeNodeInfo where
  nodeId : String
  encryptionPubkey : String
  signingPubkey : String

/-- The loop over the signatures: who has signed, or none where the
batch is rejected. -/
def checkSigners (verifyNodeSignature : NodeSignature → Except String Bool)
    (expectedPubkeys : List String) (seenSigners : List String) :
    List NodeSignature → Except String (Option (List String))
  | [] => pure (some seenSigners)
  | sig :: rest =>
      if sig.signingPubkey ∉ expectedPubkeys then pure none
      else if sig.signingPubkey ∈ seenSigners then pure none
      else do
        let valid ← verifyNodeSignature sig
        if valid then
          checkSigners verifyNodeSignature expectedPubkeys
            (sig.signingPubkey :: seenSigners) rest
        else pure none

/-- Every signature is valid and of a node of its own, and there are as
many as the threshold asks. -/
def verifySignedBatch
    (verifyNodeSignature : (batchId : String) → List MatchResult →
      NodeSignature → Except String Bool)
    (batchId : String) (matchResults : List MatchResult)
    (signatures : List NodeSignature)
    (committee : List CommitteeNodeInfo) : Except String Bool := do
  let seenSigners ← checkSigners (verifyNodeSignature batchId matchResults)
    (committee.map (·.signingPubkey)) [] signatures
  match seenSigners with
  | none => pure false
  | some seen =>
      pure (decide (Committee.threshold committee.length ≤ seen.length))

-- ==================================================== before the proof

/-- A string that is there and not empty. -/
def truthy (o : Option String) : Option String := o.filter (· ≠ "")

/-- The pool's hexadecimal is lower case. -/
def toLowerCase (s : String) : String :=
  String.ofList (s.toList.map Char.toLower)

/-- The matches of the batch, or the payload's own where they cannot be
read. -/
def batchMatches (out : Outside) (job : SettleJob) : List MatchResult :=
  let stored := out.storedMatches.toOption.getD []
  if stored = [] ∧ job.intentAId ≠ "" ∧ job.intentBId ≠ "" then
    [{ intentAId := job.intentAId
       intentBId := job.intentBId
       matchedAmount7dp := job.matchedAmount7dp
       inputAsset := job.inputAsset
       outputAsset := job.outputAsset }]
  else stored

/-- A node of the on-chain committee; it has its key only. -/
def chainNode (p : String × ℕ) : CommitteeNodeInfo where
  nodeId := "chain-" ++ p.2.repr
  encryptionPubkey := ""
  signingPubkey := toLowerCase p.1

/-- The pool's committee, which may not be empty. -/
def onChainCommittee (out : Outside) (pool relayerSecret : String) :
    Except String (List CommitteeNodeInfo) := do
  let onChainPubkeys ← out.getCommittee pool relayerSecret
  panicIf (onChainPubkeys = [])
    "on-chain committee is empty — call pool.set_committee() first"
  pure (onChainPubkeys.zipIdx.map chainNode)

/-- The pool's committee, or the reason why there is none. -/
def pinCommittee (out : Outside) (job : SettleJob)
    (pool relayerSecret : String) :
    Except String (List CommitteeNodeInfo) :=
  match onChainCommittee out pool relayerSecret with
  | .ok committee => .ok committee
  | .error message =>
      .error ("MPC batch " ++ job.batchId
        ++ ": failed to pin committee from pool.get_committee(): "
        ++ message)

-- =========================================================== the proof

/-- A coin file as the prover's coin. -/
def coinFile (tools : Tools) (path : String) :
    Except String GeneratedCoin := do
  let raw ← tools.readCoin path
  pure {
    path
    commitmentHex := raw.commitmentHex
    commitmentDecimal := raw.commitment
    value7dp := raw.preimage.value
    assetIdField := raw.assetId }

/-- The leaves in decimal; empty where one cannot be read. -/
def leavesDecimal (rows : Except String (List String)) : List String :=
  ((rows.toOption.getD []).mapM fun commitment =>
    (bigInt (with0x commitment)).map toString).getD []

/-- The prover's parameters, from the job and the two coins. -/
def proofParams (out : Outside) (job : SettleJob) (assocPath : String)
    (coinA coinB : GeneratedCoin) : MpcSettlementParams where
  coinA := coinA
  coinB := coinB
  commitmentsDecimal := leavesDecimal out.noteCommitments
  assocPath := assocPath
  scope := (job.scope <|> out.env.poolScope).getD
    "lumixprotocol-pool-testnet-v1"
  batchHashHex := job.batchHash
  poolId := job.poolIdText
  chainId := job.chainIdText
  matchedAmount7dp := job.matchedAmount7dp
  deadlineLedger := job.deadlineText

/-- The proof of a match, from the files the job names. -/
def proveMatch (out : Outside) (job : SettleJob)
    (coinAPath coinBPath assocPath : String) :
    Except String MpcSettlementProof := do
  out.setStatus "proving"
  let coinA ← coinFile out.tools coinAPath
  let coinB ← coinFile out.tools coinBPath
  buildMpcSettlementProof out.tools out.draws
    (proofParams out job assocPath coinA coinB)

/-- Every error is caught. The one of the `proof_ready` update comes
after the proof has been kept, so it changes nothing. -/
def attemptProof (out : Outside) (job : SettleJob) :
    Option MpcSettlementProof := do
  let coinAPath ← truthy job.coinAPath
  let coinBPath ← truthy job.coinBPath
  let assocPath ← truthy job.assocPath
  (proveMatch out job coinAPath coinBPath assocPath).toOption

-- ============================================================ the call

/-- `BigInt(h.startsWith("0x") ? h : "0x" + h).toString()` -/
def toDecimal (h : String) : Except String String :=
  orPanic ("Cannot convert " ++ with0x h ++ " to a BigInt")
    ((bigInt (with0x h)).map toString)

/-- The root after both outputs are appended. -/
def computeMpcRoot (out : Outside) (outCommitAHex outCommitBHex : String) :
    Except String String := do
  let a ← toDecimal outCommitAHex
  let b ← toDecimal outCommitBHex
  let root ← out.computeRoot (leavesDecimal out.leavesForRoot ++ [a, b])
  let n ← orPanic ("Cannot convert " ++ root ++ " to a BigInt")
    (bigInt root)
  pure (padStart 64 (toString16 n))

/-- The arguments as the command line has them; none for `null`. -/
structure MpcSettleCall where
  contractId : String
  secret : String
  nullifierA : String
  nullifierB : String
  outputCommitmentA : String
  outputCommitmentB : String
  newRoot : String
  batchHash : String
  signerPubkeys : List String
  signatures : List String
  proofBytes : Option String
  pubSignalsBytes : Option String

/-- The call, and what the job's result says of the proof. -/
structure Submission where
  call : MpcSettleCall
  zkVerified : Bool

/-- The refusal without a pool or a key, -/
def relayerMissing : String :=
  "relayer missing SHIELDED_POOL_CONTRACT / STELLAR_RELAYER_SECRET"

/-- of a batch that is not signed, -/
def signaturesRejected (job : SettleJob) : String :=
  "MPC batch " ++ job.batchId ++ ": signature verification failed ("
    ++ job.signatures.length.repr ++ " sigs, need ≥2/3)"

/-- of a match without notes -/
def noteDataMissing (job : SettleJob) : String :=
  "MPC batch " ++ job.batchId ++ " match[" ++ job.matchIndex.repr
    ++ "]: note data missing from DB — intent not submitted through API"

/-- and of one without a proof. -/
def prooflessRefused : String :=
  "mpc_settlement proof generation failed or circuit artifacts missing; "
    ++ "refusing to submit proofless mpc_settle (build "
    ++ "circuits/mpc_settlement and supply coin/assoc witness paths; "
    ++ "ENABLE_UNSAFE_PROOFLESS_MPC_SETTLE is dev-only and must never be "
    ++ "used in E2E acceptance)"

/-- The branch for `MPC_SETTLE_SUBMIT`, up to its call. -/
def processMpcSettle (out : Outside) (job : SettleJob) :
    Except String Submission := do
  let pool ← orPanic relayerMissing
    (truthy (job.pool <|> out.env.shieldedPoolContract))
  let relayerSecret ← orPanic relayerMissing
    (truthy out.env.stellarRelayerSecret)
  let committee ← pinCommittee out job pool relayerSecret
  let valid ← verifySignedBatch out.verifyNodeSignature job.batchId
    (batchMatches out job) job.signatures committee
  panicIf (valid = false) (signaturesRejected job)
  out.setStatus "verified_signatures"
  let proof := attemptProof out job
  let zkProofHex := proof.map (·.proofHex)
  let zkPublicHex := proof.map (·.publicHex)
  let nullifierA ← orPanic (noteDataMissing job) (truthy job.nullifierA)
  let nullifierB ← orPanic (noteDataMissing job) (truthy job.nullifierB)
  let outCommitA ← orPanic (noteDataMissing job)
    (truthy job.outputCommitmentA)
  let outCommitB ← orPanic (noteDataMissing job)
    (truthy job.outputCommitmentB)
  panicIf ((truthy zkProofHex = none ∨ truthy zkPublicHex = none)
    ∧ out.env.enableUnsafeProofless ≠ some "true") prooflessRefused
  out.setStatus "submitting"
  let newRoot ← computeMpcRoot out outCommitA outCommitB
  pure {
    call := {
      contractId := pool
      secret := relayerSecret
      nullifierA := stripHex nullifierA
      nullifierB := stripHex nullifierB
      outputCommitmentA := stripHex outCommitA
      outputCommitmentB := stripHex outCommitB
      newRoot
      batchHash := stripHex job.batchHash
      signerPubkeys := job.signatures.map fun s => stripHex s.signingPubkey
      signatures := job.signatures.map fun s => stripHex s.signature
      proofBytes := truthy zkProofHex
      pubSignalsBytes := truthy zkPublicHex }
    zkVerified := (proof.map (·.locallyVerified)).getD false }

-- ==================================================== the command line

/-- A signature on the command line. -/
def signatureArg (s : String) : Option Signature :=
  (bytesN 64 s).map fun bs => BitVec.ofNat 512 (Digits.beVal bs)

/-- An `Option<Bytes>` argument. -/
def bytesArg : Option String → Option (Option Bytes)
  | none => some none
  | some s => (hexBytes s).map some

/-- What the pool is called with. -/
def MpcSettleCall.args (call : MpcSettleCall) : Option MpcArgs := do
  let nullifierA ← wordArg call.nullifierA
  let nullifierB ← wordArg call.nullifierB
  let outputCommitmentA ← wordArg call.outputCommitmentA
  let outputCommitmentB ← wordArg call.outputCommitmentB
  let newRoot ← wordArg call.newRoot
  let batchHash ← wordArg call.batchHash
  let signerPubkeys ← call.signerPubkeys.mapM wordArg
  let signatures ← call.signatures.mapM signatureArg
  let proofBytes ← bytesArg call.proofBytes
  let pubSignalsBytes ← bytesArg call.pubSignalsBytes
  some ⟨nullifierA, nullifierB, outputCommitmentA, outputCommitmentB,
    newRoot, batchHash, signerPubkeys, signatures, proofBytes,
    pubSignalsBytes⟩

/-- The four words of the call are the proof's first four signals, and
the proof's deadline is not past at ledger `sequence`. -/
structure MpcSettleCall.Submits (call : MpcSettleCall) (sequence : ℕ)
    (ws : List Word) (deadline : Word) : Prop where
  signals : ∃ text sb, call.pubSignalsBytes = some text
    ∧ hexBytes text = some sb ∧ parsePublicSignals sb = .ok ws
  nullifierA : wordArg call.nullifierA = ws[0]?
  nullifierB : wordArg call.nullifierB = ws[1]?
  outputCommitmentA : wordArg call.outputCommitmentA = ws[2]?
  outputCommitmentB : wordArg call.outputCommitmentB = ws[3]?
  deadlineLedger : ws[10]? = some deadline
  notPast : (sequence : ℤ) ≤ fr32ToI128 deadline

/-- The relayer submits what it proved. -/
def MpcSettleCall.SubmitsProved (call : MpcSettleCall) (sequence : ℕ) :
    Prop :=
  ∃ ws deadline, call.Submits sequence ws deadline

-- ======================================================= when it does

/-- A column of the payload as the pool is given it. -/
def columnWord (column : Option String) : Option Word :=
  column.bind fun h => wordArg (stripHex h)

/-- A column that holds a signal's text is read as the signal. -/
theorem columnWord_hexOut (x : Fr) :
    columnWord (some (hexOut x)) = some (Word.ofFr x) := by
  unfold columnWord
  rw [Option.bind_some]
  exact wordArg_hexOut x

/-- The payload's columns are what the circuit makes of the coins and of
the notes the prover draws, and its deadline has not come. -/
structure SettleJob.AgreesWith (job : SettleJob) (draws : Draws)
    (sequence : ℕ) (coinA coinB : CoinFile) : Prop where
  nullifierA : columnWord job.nullifierA = nullifierHashWord
    job.poolIdText job.chainIdText coinA.preimage.nullifier
  nullifierB : columnWord job.nullifierB = nullifierHashWord
    job.poolIdText job.chainIdText coinB.preimage.nullifier
  outputCommitmentA : columnWord job.outputCommitmentA
    = commitmentWord coinA.assetId
        (draws.outPreimageA job.matchedAmount7dp)
  outputCommitmentB : columnWord job.outputCommitmentB
    = commitmentWord coinA.assetId
        (draws.outPreimageB job.matchedAmount7dp)
  deadline : ∃ deadline, signal job.deadlineText = some deadline
    ∧ (sequence : ℤ) ≤ fr32ToI128 (Word.ofFr deadline)

/-- The agreement of a job with the files it names. -/
def Agreement (out : Outside) (job : SettleJob) (sequence : ℕ) : Prop :=
  ∃ coinAPath coinBPath coinA coinB,
    job.coinAPath = some coinAPath ∧ job.coinBPath = some coinBPath
    ∧ out.tools.readCoin coinAPath = .ok coinA
    ∧ out.tools.readCoin coinBPath = .ok coinB
    ∧ job.AgreesWith out.draws sequence coinA coinB

variable {out : Outside} {job : SettleJob} {sub : Submission}

/-- A text is truthy unless it is empty. -/
@[simp]
theorem truthy_eq_some {o : Option String} {s : String} :
    truthy o = some s ↔ o = some s ∧ s ≠ "" := by
  unfold truthy
  rw [Option.filter_eq_some_iff]
  simp

/-- A proof is of the coins the payload names. -/
theorem attemptProof_some {proof : MpcSettlementProof}
    (h : attemptProof out job = some proof) :
    ∃ coinAPath coinBPath assocPath coinA coinB,
      job.coinAPath = some coinAPath ∧ job.coinBPath = some coinBPath
      ∧ coinFile out.tools coinAPath = .ok coinA
      ∧ coinFile out.tools coinBPath = .ok coinB
      ∧ buildMpcSettlementProof out.tools out.draws
          (proofParams out job assocPath coinA coinB) = .ok proof := by
  simp only [attemptProof, Option.bind_eq_bind, Option.bind_eq_some_iff,
    truthy_eq_some] at h
  obtain ⟨coinAPath, ⟨hA, -⟩, coinBPath, ⟨hB, -⟩, assocPath, -, h⟩ := h
  have hproof : proveMatch out job coinAPath coinBPath assocPath
      = .ok proof := by
    cases hrun : proveMatch out job coinAPath coinBPath assocPath with
    | error message => rw [hrun] at h; cases h
    | ok found =>
        rw [hrun] at h
        injection h with h
        rw [h]
  simp only [proveMatch, bind_eq_ok] at hproof
  obtain ⟨-, -, coinA, hcoinA, coinB, hcoinB, hbuild⟩ := hproof
  exact ⟨coinAPath, coinBPath, assocPath, coinA, coinB, hA, hB, hcoinA,
    hcoinB, hbuild⟩

/-- A coin that was read has the file's asset. -/
theorem coinFile_ok {tools : Tools} {path : String} {coin : GeneratedCoin}
    (h : coinFile tools path = .ok coin) :
    coin.path = path ∧ ∃ raw, tools.readCoin path = .ok raw
      ∧ coin.assetIdField = raw.assetId := by
  simp only [coinFile, bind_eq_ok, pure_eq_ok] at h
  obtain ⟨raw, hraw, rfl⟩ := h
  exact ⟨rfl, raw, hraw, rfl⟩

/-- The call's words are the payload's columns, its public signals the
proof's. -/
structure Submission.From (sub : Submission) (job : SettleJob)
    (proof : MpcSettlementProof) : Prop where
  nullifierA : wordArg sub.call.nullifierA = columnWord job.nullifierA
  nullifierB : wordArg sub.call.nullifierB = columnWord job.nullifierB
  outputCommitmentA : wordArg sub.call.outputCommitmentA
    = columnWord job.outputCommitmentA
  outputCommitmentB : wordArg sub.call.outputCommitmentB
    = columnWord job.outputCommitmentB
  pubSignalsBytes : sub.call.pubSignalsBytes
    = truthy (some proof.publicHex)

/-- A call with a verified proof was made of an attempt at one. -/
theorem processMpcSettle_ok (h : processMpcSettle out job = .ok sub)
    (hverified : sub.zkVerified = true) :
    ∃ proof, attemptProof out job = some proof ∧ sub.From job proof := by
  simp only [processMpcSettle, bind_eq_ok, orPanic_eq_ok, truthy_eq_some,
    panicIf_eq_ok, pure_eq_ok] at h
  obtain ⟨pool, -, relayerSecret, -, committee, -, valid, -, -, -, -, -,
    nullifierA, ⟨hnA, -⟩, nullifierB, ⟨hnB, -⟩, outCommitA, ⟨hcA, -⟩,
    outCommitB, ⟨hcB, -⟩, -, -, -, -, newRoot, -, rfl⟩ := h
  cases hproof : attemptProof out job with
  | none =>
      rw [hproof] at hverified
      cases hverified
  | some proof =>
      exact ⟨proof, rfl,
        { nullifierA := by rw [hnA]; rfl
          nullifierB := by rw [hnB]; rfl
          outputCommitmentA := by rw [hcA]; rfl
          outputCommitmentB := by rw [hcB]; rfl
          pubSignalsBytes := rfl }⟩

/-- The call against the proof it carries. -/
theorem Submission.From.submits_iff {proof : MpcSettlementProof}
    (hfrom : sub.From job proof) {p : MpcSettlementParams}
    {coinA coinB : CoinFile} {sb : Bytes} {ws : List Word} {deadline : Fr}
    (hs : Signals out.tools out.draws p proof.publicHex coinA coinB sb ws
      deadline) (sequence : ℕ) :
    sub.call.SubmitsProved sequence
      ↔ columnWord job.nullifierA = ws[0]?
        ∧ columnWord job.nullifierB = ws[1]?
        ∧ columnWord job.outputCommitmentA = ws[2]?
        ∧ columnWord job.outputCommitmentB = ws[3]?
        ∧ (sequence : ℤ) ≤ fr32ToI128 (Word.ofFr deadline) := by
  constructor
  · rintro ⟨ws', _, ⟨text, sb', htext, hsb, hws⟩, hnA, hnB, hcA, hcB, hdl,
      hpast⟩
    -- the call carries the proof's text and no other
    rw [hfrom.pubSignalsBytes, truthy_eq_some] at htext
    obtain ⟨⟨rfl⟩, -⟩ := htext
    obtain rfl : sb = sb' := Option.some.inj (hs.bytes.symm.trans hsb)
    obtain rfl : ws = ws' := Except.ok.inj (hs.words.symm.trans hws)
    obtain rfl := Option.some.inj (hs.deadlineLedger.symm.trans hdl)
    exact ⟨hfrom.nullifierA.symm.trans hnA, hfrom.nullifierB.symm.trans hnB,
      hfrom.outputCommitmentA.symm.trans hcA,
      hfrom.outputCommitmentB.symm.trans hcB, hpast⟩
  · rintro ⟨hnA, hnB, hcA, hcB, hpast⟩
    refine ⟨ws, _, ⟨_, sb, ?_, hs.bytes, hs.words⟩,
      hfrom.nullifierA.trans hnA, hfrom.nullifierB.trans hnB,
      hfrom.outputCommitmentA.trans hcA, hfrom.outputCommitmentB.trans hcB,
      hs.deadlineLedger, hpast⟩
    rw [hfrom.pubSignalsBytes, truthy_eq_some]
    exact ⟨rfl, hs.publicHex_ne⟩

/-- A submitted match names two coin files, and the call is what was
proved exactly where the payload agrees with them. -/
theorem submits_iff_agreesWith (hfaithful : out.tools.Faithful)
    (h : processMpcSettle out job = .ok sub)
    (hverified : sub.zkVerified = true) :
    ∃ coinAPath coinBPath coinA coinB,
      job.coinAPath = some coinAPath ∧ job.coinBPath = some coinBPath
      ∧ out.tools.readCoin coinAPath = .ok coinA
      ∧ out.tools.readCoin coinBPath = .ok coinB
      ∧ ∀ sequence, sub.call.SubmitsProved sequence
          ↔ job.AgreesWith out.draws sequence coinA coinB := by
  obtain ⟨proof, hproof, hfrom⟩ := processMpcSettle_ok h hverified
  obtain ⟨pathA, pathB, assocPath, genA, genB, hpathA, hpathB, hgenA, hgenB,
    hbuild⟩ := attemptProof_some hproof
  obtain ⟨hgenPathA, rawA, hrawA, hassetA⟩ := coinFile_ok hgenA
  obtain ⟨hgenPathB, -⟩ := coinFile_ok hgenB
  obtain ⟨coinA, coinB, sb, ws, deadline, hs⟩ :=
    proof_signals hfaithful hbuild
  -- the builder reads the files again
  have hreadA : out.tools.readCoin pathA = .ok coinA :=
    hgenPathA ▸ hs.readA
  have hreadB : out.tools.readCoin pathB = .ok coinB :=
    hgenPathB ▸ hs.readB
  obtain rfl : rawA = coinA := Except.ok.inj (hrawA.symm.trans hreadA)
  have hasset : (proofParams out job assocPath genA genB).coinA.assetIdField
      = rawA.assetId := hassetA
  have hoA := hs.outputCommitmentA
  have hoB := hs.outputCommitmentB
  rw [hasset] at hoA hoB
  refine ⟨pathA, pathB, rawA, coinB, hpathA, hpathB, hreadA, hreadB,
    fun sequence => ?_⟩
  rw [hfrom.submits_iff hs sequence, hs.nullifierA, hs.nullifierB, hoA, hoB]
  constructor
  · rintro ⟨hnA, hnB, hcA, hcB, hpast⟩
    exact ⟨hnA, hnB, hcA, hcB, deadline, hs.readDeadline, hpast⟩
  · rintro ⟨hnA, hnB, hcA, hcB, deadline', hread, hpast⟩
    obtain rfl : deadline = deadline' :=
      Option.some.inj (hs.readDeadline.symm.trans hread)
    exact ⟨hnA, hnB, hcA, hcB, hpast⟩

/-- When the relayer submits what it proved: where the columns of the
payload agree with the coin files and with the notes the prover drew, and
the payload's deadline has not passed. -/
theorem submitted_iff (hfaithful : out.tools.Faithful)
    (h : processMpcSettle out job = .ok sub)
    (hverified : sub.zkVerified = true) (sequence : ℕ) :
    sub.call.SubmitsProved sequence ↔ Agreement out job sequence := by
  obtain ⟨pathA, pathB, coinA, coinB, hpathA, hpathB, hreadA, hreadB, hiff⟩ :=
    submits_iff_agreesWith hfaithful h hverified
  rw [hiff]
  constructor
  · intro hagree
    exact ⟨pathA, pathB, coinA, coinB, hpathA, hpathB, hreadA, hreadB, hagree⟩
  · rintro ⟨pathA', pathB', coinA', coinB', hpathA', hpathB', hreadA',
      hreadB', hagree⟩
    obtain rfl : pathA = pathA' :=
      Option.some.inj (hpathA.symm.trans hpathA')
    obtain rfl : pathB = pathB' :=
      Option.some.inj (hpathB.symm.trans hpathB')
    obtain rfl : coinA = coinA' := Except.ok.inj (hreadA.symm.trans hreadA')
    obtain rfl : coinB = coinB' := Except.ok.inj (hreadB.symm.trans hreadB')
    exact hagree

/-- Without a deadline of its own the match is past at once. -/
theorem no_deadline_past (hfaithful : out.tools.Faithful)
    (h : processMpcSettle out job = .ok sub)
    (hverified : sub.zkVerified = true) (hnone : job.deadlineLedger = none)
    {sequence : ℕ} (hpos : 0 < sequence) :
    ¬sub.call.SubmitsProved sequence := by
  obtain ⟨_, _, _, _, -, -, -, -, hiff⟩ :=
    submits_iff_agreesWith hfaithful h hverified
  intro hsubmits
  obtain ⟨deadline, hread, hpast⟩ := ((hiff sequence).mp hsubmits).deadline
  have hzero : signal job.deadlineText = some 0 := by
    unfold SettleJob.deadlineText
    rw [hnone]
    exact signal_text 0
  obtain rfl : deadline = 0 := Option.some.inj (hread.symm.trans hzero)
  rw [show fr32ToI128 (Word.ofFr 0) = 0 by decide +kernel] at hpast
  omega

-- ========================================================= the refusals

/-- Without coin files there is no proof, and no call either. -/
theorem proofless_refused (hpath : job.coinAPath = none)
    (hsafe : out.env.enableUnsafeProofless ≠ some "true") :
    processMpcSettle out job ≠ .ok sub := by
  have hproof : attemptProof out job = none := by
    unfold attemptProof
    rw [hpath]
    rfl
  intro h
  simp only [processMpcSettle, bind_eq_ok, panicIf_eq_ok, hproof] at h
  obtain ⟨-, -, -, -, -, -, -, -, -, -, -, -, -, -, -, -, -, -, -, -, -,
    hrefused, -⟩ := h
  exact hrefused ⟨Or.inl rfl, hsafe⟩

/-- So a settler's own jobs never get through. -/
theorem settler_job_refused (p : SettlePayload)
    (hsafe : out.env.enableUnsafeProofless ≠ some "true") :
    processMpcSettle out p.job ≠ .ok sub :=
  proofless_refused rfl hsafe

/-- The pool settles a call only if it submits what was proved. -/
theorem settled_submits {call : MpcSettleCall} {a : MpcArgs} {env : Env}
    {ctx : Ctx} {L : Type} {w w' : World L} (hargs : call.args = some a)
    (h : mpcSettle env ctx a w = .ok w') :
    call.SubmitsProved ctx.sequence.toNat := by
  simp only [MpcSettleCall.args, Option.bind_eq_bind,
    Option.bind_eq_some_iff, Option.some.injEq] at hargs
  obtain ⟨nA, hnA, nB, hnB, cA, hcA, cB, hcB, root, -, hash, -, keys, -,
    sigs, -, pb, -, sb, hsb, rfl⟩ := hargs
  simp only [mpcSettle, bind_eq_ok, panicIf_eq_ok, pure_eq_ok, sig_eq_ok,
    exists_and_left, exists_eq_left', exists_const, and_assoc, not_not,
    not_or, orPanic_eq_ok, Prod.exists] at h
  obtain ⟨_, -, _, -, _, -, _, -, sb', rfl, _, -, signals, hparse, -, h0, -,
    h1, -, h2, -, h3, -, _, -, -, _, -, -, -, -, -, -, -, -, hlen, hpast,
    -⟩ := h
  have hat : ∀ i, i ≤ 10 → signals[i]? = some (sigAt signals i) := by
    intro i hi
    unfold sigAt
    rw [List.getElem?_eq_getElem (show i < signals.length by omega)]
    rfl
  refine ⟨signals, sigAt signals 10, ?_, ?_, ?_, ?_, ?_, hat 10 le_rfl,
    not_lt.mp hpast⟩
  · cases htext : call.pubSignalsBytes with
    | none =>
        rw [htext] at hsb
        cases hsb
    | some text =>
        rw [htext] at hsb
        obtain ⟨bytes, hbytes, ⟨rfl⟩⟩ := Option.map_eq_some_iff.mp hsb
        exact ⟨text, _, rfl, hbytes, hparse⟩
  · rw [hnA, hat 0 (by omega), h0]
  · rw [hnB, hat 1 (by omega), h1]
  · rw [hcA, hat 2 (by omega), h2]
  · rw [hcB, hat 3 (by omega), h3]

-- ===================================================== two coins crossed

namespace Demo

open Proving.Demo (assignment)

/-- The offers were matched for 100. -/
def crossed : MatchResult := ⟨"a", "b", "100", "X", "X"⟩

/-- A batch of one match. -/
def crossedRow : BatchRow where
  sessionId := "session-7"
  batchHash :=
    "0000000000000000000000000000000000000000000000000000000000000100"
  matchResults := [crossed]
  signatures := [⟨"n1", "aa", "bb"⟩]
  settlementStatus := .pending

/-- The row of an intent in it. -/
def crossedNote (nullifier : Fr) (recipientCommitment : String) :
    MpcIntentRow where
  sessionId := "session-7"
  noteNullifier := hexOut nullifier
  noteCommitment := ""
  recipientCommitment := recipientCommitment
  status := .matched
  matchedWith := none

/-- The settler's payload for recipients of these commitments, with the
keys a proof needs. -/
def crossedJob (recipientA recipientB : String) : SettleJob :=
  { (settlePayload "batch" crossedRow 0 crossed
      (some (crossedNote assignment.nullifierHashA recipientA))
      (some (crossedNote assignment.nullifierHashB recipientB))).job with
    coinAPath := some "a.json"
    coinBPath := some "b.json"
    assocPath := some "assoc.json"
    poolId := some "1"
    deadlineLedger := some "100" }

/-- The recipients gave the commitments the prover will draw. -/
def foreseen : SettleJob :=
  crossedJob (hexOut assignment.outputCommitmentA)
    (hexOut assignment.outputCommitmentB)

/-- The commitment one user chose, -/
def recipientSeven : String :=
  "0000000000000000000000000000000000000000000000000000000000000007"

/-- and the other. -/
def recipientEight : String :=
  "0000000000000000000000000000000000000000000000000000000000000008"

/-- They gave commitments of their own. -/
def chosen : SettleJob := crossedJob recipientSeven recipientEight

/-- A pool whose committee signed, and the tools that prove the
crossing. -/
def outside : Outside where
  env := ⟨some "pool", some "secret", none, none⟩
  storedMatches := .ok [crossed]
  getCommittee _ _ := .ok ["AA"]
  verifyNodeSignature _ _ _ := .ok true
  setStatus _ := .ok ()
  noteCommitments := .ok []
  tools := Proving.Demo.tools
  draws := Proving.Demo.draws
  leavesForRoot := .ok []
  computeRoot _ := .ok "0"

/-- What the job says in text is what the assignment says. -/
theorem texts :
    text assignment.poolId = "1" ∧ text assignment.chainId = "27"
      ∧ text assignment.matchedAmount7dp = "100"
      ∧ text assignment.deadlineLedger = "100" := by
  decide +kernel

/-- A coin as it was generated. -/
def generated (path : String) (note : Note) : GeneratedCoin where
  path := path
  commitmentHex := hexOut (note.commitment poseidonFast)
  commitmentDecimal := text (note.commitment poseidonFast)
  value7dp := text note.value
  assetIdField := text note.assetId

/-- The match is proved, whoever receives. -/
theorem crossed_proved (recipientA recipientB : String) :
    ∃ proof, attemptProof outside (crossedJob recipientA recipientB)
        = some proof
      ∧ proof.locallyVerified = true ∧ proof.proofHex = "00"
      ∧ proof.publicHex ≠ "" := by
  obtain ⟨hpool, hchain, hmatched, hdeadline⟩ := texts
  have hbatch : Proving.hashToField crossedRow.batchHash
      = .ok (text assignment.batchHash) := by decide +kernel
  have hfileA : coinFile outside.tools "a.json"
      = .ok (generated "a.json" assignment.noteA) := by
    unfold coinFile outside
    rw [Proving.Demo.readCoin_a]
    rfl
  have hfileB : coinFile outside.tools "b.json"
      = .ok (generated "b.json" assignment.noteB) := by
    unfold coinFile outside
    rw [Proving.Demo.readCoin_b]
    rfl
  obtain ⟨proof, hbuild, hverified, hproofHex⟩ := Proving.Demo.built
    (p := proofParams outside (crossedJob recipientA recipientB)
      "assoc.json" (generated "a.json" assignment.noteA)
      (generated "b.json" assignment.noteB))
    rfl rfl rfl rfl hbatch hpool.symm hchain.symm hmatched.symm hdeadline.symm
  have hprove : proveMatch outside (crossedJob recipientA recipientB)
      "a.json" "b.json" "assoc.json" = .ok proof := by
    simp only [proveMatch, bind_eq_ok]
    exact ⟨(), rfl, _, hfileA, _, hfileB, hbuild⟩
  obtain ⟨_, _, _, _, _, hsignals⟩ :=
    proof_signals Proving.Demo.tools_faithful hbuild
  refine ⟨proof, ?_, hverified, hproofHex, hsignals.publicHex_ne⟩
  simp only [attemptProof, Option.bind_eq_bind, Option.bind_eq_some_iff,
    truthy_eq_some]
  refine ⟨"a.json", ⟨rfl, by decide⟩, "b.json", ⟨rfl, by decide⟩,
    "assoc.json", ⟨rfl, by decide⟩, ?_⟩
  rw [hprove]
  rfl

/-- The call is reached, whoever receives. -/
theorem crossed_submitted (recipientA recipientB : String)
    (hA : recipientA ≠ "") (hB : recipientB ≠ "")
    (hroot : (computeMpcRoot outside recipientA recipientB).isOk = true) :
    ∃ sub, processMpcSettle outside (crossedJob recipientA recipientB)
        = .ok sub ∧ sub.zkVerified = true := by
  obtain ⟨proof, hproof, hverified, hproofHex, hpublicHex⟩ :=
    crossed_proved recipientA recipientB
  obtain ⟨root, hroot⟩ := exists_ok_of_isOk hroot
  have hsigned : verifySignedBatch outside.verifyNodeSignature "batch"
      [crossed] crossedRow.signatures (["AA"].zipIdx.map chainNode)
        = .ok true := by decide +kernel
  simp only [processMpcSettle, bind_eq_ok, orPanic_eq_ok, truthy_eq_some,
    panicIf_eq_ok, pure_eq_ok, hproof]
  refine ⟨_, ⟨"pool", ⟨rfl, by decide⟩, "secret", ⟨rfl, by decide⟩, _, rfl,
    true, hsigned, (), Bool.true_eq_false_eq_False, (), rfl,
    hexOut assignment.nullifierHashA, ⟨rfl, hexOut_ne _⟩,
    hexOut assignment.nullifierHashB, ⟨rfl, hexOut_ne _⟩, recipientA, ⟨rfl, hA⟩,
    recipientB, ⟨rfl, hB⟩, (), ?_, (), rfl, root, hroot, rfl⟩, hverified⟩
  -- neither text of the proof is empty
  rintro ⟨hempty | hempty, -⟩
  · have hproofText : truthy (some proof.proofHex) = some proof.proofHex :=
      truthy_eq_some.mpr ⟨rfl, by rw [hproofHex]; decide⟩
    rw [Option.map_some, hproofText] at hempty
    cases hempty
  · have hpublicText : truthy (some proof.publicHex) = some proof.publicHex :=
      truthy_eq_some.mpr ⟨rfl, hpublicHex⟩
    rw [Option.map_some, hpublicText] at hempty
    cases hempty

/-- The new root is computed. -/
theorem foreseen_root :
    (computeMpcRoot outside (hexOut assignment.outputCommitmentA)
      (hexOut assignment.outputCommitmentB)).isOk = true := by
  decide +kernel

/-- What the circuit makes of the coins and of the drawn notes. -/
theorem proved_words :
    nullifierHashWord "1" "27"
        (Proving.Demo.coin assignment.noteA).preimage.nullifier
      = some (Word.ofFr assignment.nullifierHashA)
    ∧ nullifierHashWord "1" "27"
        (Proving.Demo.coin assignment.noteB).preimage.nullifier
      = some (Word.ofFr assignment.nullifierHashB)
    ∧ commitmentWord (text assignment.assetId)
        (Proving.Demo.draws.outPreimageA "100")
      = some (Word.ofFr assignment.outputCommitmentA)
    ∧ commitmentWord (text assignment.assetId)
        (Proving.Demo.draws.outPreimageB "100")
      = some (Word.ofFr assignment.outputCommitmentB) := by
  obtain ⟨hpool, hchain, hmatched, -⟩ := texts
  have hsat := Proving.Demo.assignment_satisfied
  have hreads := Proving.Demo.witness_reads
  obtain ⟨hnA, hcA⟩ := hreads.sideA.words hreads.poolId hreads.chainId
    hreads.assetId
  obtain ⟨hnB, hcB⟩ := hreads.sideB.words hreads.poolId hreads.chainId
    hreads.assetId
  rw [← hsat.nhA] at hnA
  rw [← hsat.nhB] at hnB
  rw [← hsat.outCmtA] at hcA
  rw [← hsat.outCmtB] at hcB
  simp only [Proving.Demo.witness, hpool, hchain, hmatched]
    at hnA hnB hcA hcB
  exact ⟨hnA, hnB, hcA, hcB⟩

/-- A job that foresees the prover's draws agrees with its proof, up to
the deadline. -/
theorem foreseen_agrees {sequence : ℕ} (h : sequence ≤ 100) :
    Agreement outside foreseen sequence := by
  obtain ⟨hnA, hnB, hcA, hcB⟩ := proved_words
  obtain ⟨-, -, -, hdeadline⟩ := texts
  refine ⟨"a.json", "b.json", Proving.Demo.coin assignment.noteA,
    Proving.Demo.coin assignment.noteB, rfl, rfl, Proving.Demo.readCoin_a,
    Proving.Demo.readCoin_b, ?_, ?_, ?_, ?_, 100, ?_, ?_⟩
  · show columnWord (some (hexOut assignment.nullifierHashA))
      = nullifierHashWord "1" "27"
          (Proving.Demo.coin assignment.noteA).preimage.nullifier
    rw [columnWord_hexOut, hnA]
  · show columnWord (some (hexOut assignment.nullifierHashB))
      = nullifierHashWord "1" "27"
          (Proving.Demo.coin assignment.noteB).preimage.nullifier
    rw [columnWord_hexOut, hnB]
  · show columnWord (some (hexOut assignment.outputCommitmentA))
      = commitmentWord (text assignment.assetId)
          (Proving.Demo.draws.outPreimageA "100")
    rw [columnWord_hexOut, hcA]
  · show columnWord (some (hexOut assignment.outputCommitmentB))
      = commitmentWord (text assignment.assetId)
          (Proving.Demo.draws.outPreimageB "100")
    rw [columnWord_hexOut, hcB]
  · show signal "100" = _
    rw [← hdeadline]
    exact signal_text _
  · rw [show fr32ToI128 (Word.ofFr 100) = 100 by decide +kernel]
    omega

/-- The commitments the recipients gave reach the call, and the first is
not the one the prover draws. -/
theorem chosen_checked :
    (computeMpcRoot outside recipientSeven recipientEight).isOk = true
      ∧ columnWord (some recipientSeven) = some 7
      ∧ (7 : Word) ≠ Word.ofFr assignment.outputCommitmentA := by
  decide +kernel

end Demo

/-- Where a payload happens to agree, the call is what was proved. -/
theorem foreseen_submitted :
    ∃ sub, processMpcSettle Demo.outside Demo.foreseen = .ok sub
      ∧ sub.zkVerified = true ∧ sub.call.SubmitsProved 50 := by
  obtain ⟨sub, h, hverified⟩ := Demo.crossed_submitted _ _
    (hexOut_ne _) (hexOut_ne _) Demo.foreseen_root
  exact ⟨sub, h, hverified,
    (submitted_iff Proving.Demo.tools_faithful h hverified 50).mpr
      (Demo.foreseen_agrees (by decide))⟩

/-- Recipients name their commitments before the match is proved, and
the verified proof the relayer submits for them is of other notes. -/
theorem chosen_not_proved :
    Demo.outside.tools.Faithful
      ∧ ∃ sub, processMpcSettle Demo.outside Demo.chosen = .ok sub
        ∧ sub.zkVerified = true
        ∧ ∀ sequence, ¬sub.call.SubmitsProved sequence := by
  obtain ⟨hroot, hcolumn, hne⟩ := Demo.chosen_checked
  obtain ⟨-, -, hdrawn, -⟩ := Demo.proved_words
  obtain ⟨sub, h, hverified⟩ := Demo.crossed_submitted
    Demo.recipientSeven Demo.recipientEight (by decide) (by decide) hroot
  refine ⟨Proving.Demo.tools_faithful, sub, h, hverified,
    fun sequence hsubmits => ?_⟩
  obtain ⟨pathA, pathB, coinA, coinB, hpathA, -, hreadA, -, hiff⟩ :=
    submits_iff_agreesWith Proving.Demo.tools_faithful h hverified
  obtain rfl : "a.json" = pathA := Option.some.inj hpathA
  obtain rfl : Proving.Demo.coin Proving.Demo.assignment.noteA = coinA :=
    Except.ok.inj (Proving.Demo.readCoin_a.symm.trans hreadA)
  have hagree : columnWord (some Demo.recipientSeven)
      = commitmentWord (text Proving.Demo.assignment.assetId)
          (Proving.Demo.draws.outPreimageA "100") :=
    ((hiff sequence).mp hsubmits).outputCommitmentA
  rw [hcolumn, hdrawn] at hagree
  exact hne (Option.some.inj hagree)

end Lumix.Services
