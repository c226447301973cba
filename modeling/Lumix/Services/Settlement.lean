/-
The services around the committee: how the API submits an intent, how
the coordinator persists a signed batch, how the settler queues the
matches of a batch.

The API serves two submissions. `POST /v1/mpc/intents` forwards first
and records what it forwarded; `POST /v1/intents` records an intent of
the RFQ lifecycle first and then, where the body brings shares, forwards
it too. What precedes the first statement of a handler, authentication
and the parsing of the body, is not here.

The system runs any number of these at once, with the workers and with
the coordinator's own steps; a round that returns a signed batch starts
the program that persists it.
-/
import Lumix.Services.Queue

namespace Lumix.Services

open Committee (MpcIntent EncryptedShare MatchResult SignedMatchBatch
  Phase Round)

-- ================================================== POST /v1/mpc/intents

/-- The body, an empty `intentId` for a missing one. -/
structure MpcBody where
  intentId : String
  inputAsset : String
  outputAsset : String
  noteNullifier : Option String
  noteCommitment : Option String
  recipientCommitment : Option String
  encryptedShares : List EncryptedShare

/-- What `POST /v1/mpc/intents` answers. -/
inductive MpcReply
  | intentIdRequired
  | unreachable
  | refused
  | accepted (sessionId : String)
deriving DecidableEq

/-- The intent the committee is sent. -/
def MpcBody.intent (body : MpcBody) : MpcIntent where
  intentId := body.intentId
  inputAsset := body.inputAsset
  outputAsset := body.outputAsset
  encryptedShares := body.encryptedShares

/-- The row a submission inserts. -/
def pendingIntent (sessionId : String) (noteNullifier noteCommitment
    recipientCommitment : Option String) : MpcIntentRow where
  sessionId := sessionId
  noteNullifier := noteNullifier.getD ""
  noteCommitment := noteCommitment.getD ""
  recipientCommitment := recipientCommitment.getD ""
  status := .pending
  matchedWith := none

/-- `fetch` of the coordinator: none where it throws. -/
def forward (intent : MpcIntent) : Service (Option (Option String)) :=
  tryCatch
    (do
      let resp : Option String ← query (.forward intent)
      pure (some resp))
    fun _ => pure none

/-- `POST /v1/mpc/intents`: forward, then record. -/
def submitMpc (user : Option String) (body : MpcBody) :
    Service MpcReply :=
  if body.intentId = "" then
    pure .intentIdRequired
  else do
    let resp ← forward body.intent
    match resp with
    | none => pure .unreachable
    | some none => pure .refused
    | some (some sessionId) => do
        query (.ensureSession sessionId)
        query (.upsertMpcIntent body.intentId
          (pendingIntent sessionId body.noteNullifier
            body.noteCommitment body.recipientCommitment))
        body.encryptedShares.forM fun _ =>
          query (.insertShare body.intentId)
        if user.isSome then query .record
        pure (.accepted sessionId)

-- ====================================================== POST /v1/intents

/-- The parsed body; `rest` is what only its hash depends on. -/
structure RfqBody where
  inputAsset : String
  outputAsset : String
  noteNullifier : Option String
  noteCommitment : Option String
  recipientCommitment : Option String
  encryptedShares : Option (List EncryptedShare)
  rest : String

/-- What `POST /v1/intents` answers. -/
structure RfqReply where
  intentHash : String
  mpcSessionId : Option String
deriving DecidableEq

/-- Shares, nullifier and commitment are there. -/
def RfqBody.hasMpcFields (body : RfqBody) : Bool :=
  body.encryptedShares.getD [] ≠ []
    ∧ body.noteNullifier.getD "" ≠ "" ∧ body.noteCommitment.getD "" ≠ ""

/-- The intent the committee is sent, under its hash. -/
def RfqBody.intent (body : RfqBody) (intentHash : String) :
    MpcIntent where
  intentId := intentHash
  inputAsset := body.inputAsset
  outputAsset := body.outputAsset
  encryptedShares := body.encryptedShares.getD []

/-- What follows an accepted forward; the handler catches its errors. -/
def recordRouted (intentHash sessionId : String) (body : RfqBody) :
    Service Unit := do
  query (.ensureSession sessionId)
  query (.upsertMpcIntent intentHash
    (pendingIntent sessionId body.noteNullifier body.noteCommitment
      body.recipientCommitment))
  (body.encryptedShares.getD []).forM fun _ =>
    query (.insertShare intentHash)
  query (.linkIntent sessionId intentHash)
  query .record

/-- An intent with shares also goes to the committee, as well as it
can. -/
def routeToCommittee (intentHash : String) (body : RfqBody) :
    Service (Option String) :=
  if body.hasMpcFields then do
    let resp ← forward (body.intent intentHash)
    match resp with
    | some (some sessionId) => do
        tryCatch (recordRouted intentHash sessionId body) fun _ => pure ()
        pure (some sessionId)
    | _ => pure none
  else
    pure none

/-- `POST /v1/intents`: record, then route. -/
def submitRfq (hashJson : RfqBody → String) (idempotencyKey : String)
    (body : RfqBody) : Service RfqReply := do
  query (.insertIntent (hashJson body) idempotencyKey)
  query .record
  query .record
  let mpcSessionId ← routeToCommittee (hashJson body) body
  pure ⟨hashJson body, mpcSessionId⟩

-- =================================================== persistSignedBatch

/-- A batch as a row; settlement is pending. -/
def batchRow (sessionId : String) (batch : SignedMatchBatch) :
    BatchRow where
  sessionId := sessionId
  batchHash := batch.batchHash
  matchResults := batch.matchResults
  signatures := batch.signatures
  settlementStatus := .pending

/-- Both sides of a match, one after the other. -/
def markBoth (m : MatchResult) : Service Unit := do
  query (.markMatched m.intentAId m.intentBId)
  query (.markMatched m.intentBId m.intentAId)

/-- The batch, its signatures, its session, and both sides of every
match. -/
def persistSignedBatch (sessionId : String) (batch : SignedMatchBatch) :
    Service Unit := do
  query (.insertBatch batch.batchId (batchRow sessionId batch))
  batch.signatures.forM fun sig =>
    query (.insertSignature batch.batchId sig)
  query (.signSession sessionId batch.matchResults.length)
  batch.matchResults.forM markBoth

-- =========================================================== settleOnce

/-- `mpc_settle:${batch_id}:${i}` -/
def settleKey (batchId : String) (i : ℕ) : String :=
  "mpc_settle:" ++ batchId ++ ":" ++ i.repr

/-- The payload of a settlement job. -/
def settlePayload (batchId : String) (row : BatchRow) (i : ℕ)
    (m : MatchResult) (noteA noteB : Option MpcIntentRow) :
    SettlePayload where
  batchId := batchId
  batchHash := row.batchHash
  signatures := row.signatures
  matchIndex := i
  sessionId := row.sessionId
  intentAId := m.intentAId
  intentBId := m.intentBId
  matchedAmount7dp := m.matchedAmount7dp
  inputAsset := m.inputAsset
  outputAsset := m.outputAsset
  nullifierA := noteA.map (·.noteNullifier)
  nullifierB := noteB.map (·.noteNullifier)
  outputCommitmentA := noteA.map (·.recipientCommitment)
  outputCommitmentB := noteB.map (·.recipientCommitment)

/-- `Promise.all` of two reads: which of them is answered first is
open. -/
def both {α : Type} (a b : Service α) : Service (α × α) := do
  let aFirst : Bool ← query .order
  if aFirst then do
    let x ← a
    let y ← b
    pure (x, y)
  else do
    let y ← b
    let x ← a
    pure (x, y)

/-- Whether the intent is one of the RFQ path. -/
def isRfqRouted (ex : Examination) (intentId : String) : Service Bool :=
  query (.isRfqRouted ex intentId)

/-- The intent's note. -/
def fetchIntentNote (intentId : String) : Service (Option MpcIntentRow) :=
  query (.fetchIntentNote intentId)

/-- One pass of the settler's loop over a batch: how many matches it has
queued, after the `i`-th. -/
def queueMatch (batchId : String) (row : BatchRow) (queued : ℕ)
    (p : MatchResult × ℕ) : Service ℕ := do
  let (aRfqRouted, bRfqRouted) ← both
    (isRfqRouted ⟨batchId, p.2, true⟩ p.1.intentAId)
    (isRfqRouted ⟨batchId, p.2, false⟩ p.1.intentBId)
  if aRfqRouted || bRfqRouted then
    pure queued
  else do
    let (noteA, noteB) ← both (fetchIntentNote p.1.intentAId)
      (fetchIntentNote p.1.intentBId)
    let _ ← enqueue .relayer "MPC_SETTLE_SUBMIT"
      (.mpcSettle (settlePayload batchId row p.2 p.1 noteA noteB))
      (some (settleKey batchId p.2))
    pure (queued + 1)

/-- Every match of the batch, and then the batch is finished. -/
def queueSettlementJobs (batchId : String) (row : BatchRow) :
    Service Unit := do
  let queued ← row.matchResults.zipIdx.foldlM (queueMatch batchId row) 0
  query (.finishBatch batchId
    (if 0 < queued then .queued else .rfqRouted))

/-- One poll. -/
def settleOnce : Service ℕ := do
  let rows : List (String × BatchRow) ← query .pendingBatches
  rows.forM fun p => queueSettlementJobs p.1 p.2
  pure rows.length

-- =========================================================== the system

/-- What a process may be: a request, a batch that is to be persisted, a
tick of the settler, an enqueuing caller or a worker. -/
inductive Task
  | submitMpc (user : Option String) (body : MpcBody)
  | submitRfq (idempotencyKey : String) (body : RfqBody)
  | persist (sessionId : String) (batch : SignedMatchBatch)
  | settle
  | enqueue (queue : QueueName) (jobType : String) (payload : Payload)
      (idempotencyKey : Option String)
  | relay (work : JobRow → Work)
  | prove (proof : JobRow → ProofRun)

/-- What it ends with. -/
inductive Reply
  | mpc (reply : MpcReply)
  | rfq (reply : RfqReply)
  | persisted
  | settled (count : ℕ)
  | job (row : JobRow)
  | worked (any : Bool)
deriving DecidableEq

/-- What is deployed; `hashJson` is the hash an intent is named by. -/
structure Deployment (Key Plain : Type) where
  committee : Committee.Config Key Plain
  hashJson : RfqBody → String

variable {Key Plain : Type}

/-- The code it runs. -/
def Task.code (hashJson : RfqBody → String) : Task → Service Reply
  | .submitMpc user body => Reply.mpc <$> Services.submitMpc user body
  | .submitRfq idempotencyKey body =>
      Reply.rfq <$> Services.submitRfq hashJson idempotencyKey body
  | .persist sessionId batch =>
      (fun _ => Reply.persisted) <$> persistSignedBatch sessionId batch
  | .settle => Reply.settled <$> settleOnce
  | .enqueue queue jobType payload idempotencyKey =>
      Reply.job <$>
        Services.enqueue queue jobType payload idempotencyKey
  | .relay work => Reply.worked <$> runRelayerOnce work
  | .prove proof => Reply.worked <$> runProverOnce proof

/-- The batch a round has returned. -/
def Phase.batch : Phase Plain → Option SignedMatchBatch
  | .returned (.ok batch) => some batch
  | _ => none

/-- What the callers of the rounds that have just returned a batch do
next. -/
def newlySigned (w w' : Committee.World Plain) : List Task :=
  w'.rounds.zipIdx.filterMap fun p =>
    if ((w.rounds[p.2]?).bind fun rd => Phase.batch rd.phase).isSome then
      none
    else
      (Phase.batch p.1.phase).bind fun batch =>
        (w'.committee.heap[p.1.session]?).map fun s =>
          .persist s.sessionId batch

/-- The coordinator's own steps. Intents reach it through the API. -/
def coordinate (cfg : Committee.Config Key Plain) (e : Committee.Event)
    (s : Shared Plain) : Option (Shared Plain × List Task) :=
  match e.submission with
  | some _ => none
  | none =>
      match Committee.step cfg s.world e with
      | .error _ => none
      | .ok world => some ({ s with world }, newlySigned s.world world)

/-- All of them over one database, with the coordinators outside. -/
def services (dep : Deployment Key Plain) :
    System Call.Answer Fault Reply Task (Shared Plain) Choice
      Committee.Event where
  code := Task.code dep.hashJson
  exec := exec dep.committee
  outside := coordinate dep.committee

/-- A state of the system. -/
abbrev Estate (Plain : Type) : Type :=
  Machine Call.Answer Fault Reply Task (Shared Plain)

/-- An event of it. -/
abbrev Event : Type := MachineEvent Task Choice Committee.Event

/-- An event, with the states around it. -/
abbrev Step (Plain : Type) : Type :=
  Run.Transition (Estate Plain) Event

/-- An empty database, and coordinators that have just started. -/
def Shared.boot (cfg : Committee.Config Key Plain) : Shared Plain where
  world := Committee.World.boot cfg
  mpcSessions := OrderedMap.empty
  mpcIntents := OrderedMap.empty
  mpcBatches := OrderedMap.empty
  intents := OrderedMap.empty
  jobs := []
  log := []
  holders := []

/-- No process runs. -/
def Estate.boot (dep : Deployment Key Plain) : Estate Plain :=
  { shared := Shared.boot dep.committee, procs := [] }

-- ====================================================== two submissions

namespace Demo

/-- The committee of three, and intents named by the rest of their
body. -/
def services : Deployment ℕ (ℕ × ℕ) where
  committee := Committee.Demo.combined
  hashJson := RfqBody.rest

/-- The statement runs. -/
def go : Choice := .go ⟨Committee.Demo.clockAt 7, some 0, true⟩

/-- The next calls of a process, all of them answered. -/
def turns (i n : ℕ) : List Event := List.replicate n (.run i go)

/-- An intent to sell one asset for another. -/
def offer (intentId inputAsset outputAsset ciphertext : String) :
    MpcBody where
  intentId := intentId
  inputAsset := inputAsset
  outputAsset := outputAsset
  noteNullifier := some ("nullifier-" ++ intentId)
  noteCommitment := some ("note-" ++ intentId)
  recipientCommitment := some ("recipient-" ++ intentId)
  encryptedShares :=
    (Committee.Demo.intent intentId inputAsset outputAsset
      ciphertext).encryptedShares

/-- One intent, -/
def sell : Task := .submitMpc none (offer "a" "X" "Y" "....")

/-- and one that crosses it. -/
def buy : Task := .submitMpc none (offer "b" "Y" "X" "......")

/-- Both intents are submitted, then matched and persisted. -/
def matched : List Event :=
  [.start sell, .start buy] ++ turns 0 6 ++ turns 1 6
    ++ [.outside (.tick "batch")] ++ turns 2 7

end Demo

example :
    (Run.run (services Demo.services).step (Estate.boot Demo.services)
      Demo.matched).shared.mpcBatches.keys = ["batch"] := by
  decide +kernel

end Lumix.Services
