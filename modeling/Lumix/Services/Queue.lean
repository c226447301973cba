/-
The job queue and its workers.

`service_jobs` is the queue: `enqueue` looks a key up and inserts where
it is new, a worker claims a job with one statement, moves it along with
unconditional updates, and completes it or fails it. Each of these is
one or two statements, and after the first anything may happen before
the second.

Of a job's work only what touches the queue is here: the status updates
a worker goes through on the way to its result or its error (`Work`, and
`ProofRun` for the prover).
-/
import Lumix.Services.Database

namespace Lumix.Services

/-- A program of a service. -/
abbrev Service (α : Type) : Type := Prog Call.Answer Fault α

/-- One statement. -/
abbrev query (q : Call) : Service q.Answer := Prog.query q

-- ========================================================== the queue

/-- The row `enqueue` inserts; the number of attempts is the column's
default. -/
def queuedJob (queue : QueueName) (jobType : String) (payload : Payload)
    (idempotencyKey : Option String) : ServiceJob where
  jobType := jobType
  queue := queue
  idempotencyKey := idempotencyKey
  payload := payload
  status := .queued
  attempts := 0
  maxAttempts := 3

/-- The insertion in `enqueue`, with its event. -/
def insertQueued (queue : QueueName) (jobType : String)
    (payload : Payload) (idempotencyKey : Option String) :
    Service JobRow := do
  let row : JobRow ← query
    (.insertJob (queuedJob queue jobType payload idempotencyKey))
  query (.event row.1 .queued)
  pure row

/-- An empty key is not looked up, and inserted like any other. -/
def enqueue (queue : QueueName) (jobType : String) (payload : Payload)
    (idempotencyKey : Option String) : Service JobRow :=
  match idempotencyKey with
  | none => insertQueued queue jobType payload none
  | some key =>
      if key = "" then
        insertQueued queue jobType payload (some key)
      else do
        let existing : Option JobRow ← query (.jobByKey key)
        match existing with
        | some row => pure row
        | none => insertQueued queue jobType payload (some key)

/-- The status is stored, then logged. -/
def setStatus (jobId : ℕ) (status : String) : Service Unit := do
  query (.updateStatus jobId status)
  query (.event jobId (.progress status))

/-- The job is done, and logged as ready. -/
def complete (jobId : ℕ) : Service Unit := do
  query (.completeJob jobId)
  query (.event jobId .ready)

/-- `!j || j.attempts >= j.max_attempts` -/
def terminal : Option (ℕ × ℕ) → Bool
  | none => true
  | some (attempts, maxAttempts) => attempts ≥ maxAttempts

/-- The job is queued again, or failed for good when its attempts are
used up. -/
def fail (jobId : ℕ) : Service Unit := do
  let j : Option (ℕ × ℕ) ← query (.jobAttempts jobId)
  if terminal j then do
    query (.failTerminal jobId)
    query (.event jobId .failed)
  else do
    query (.failRetry jobId)
    query (.event jobId .failedRetry)

-- ========================================================= the workers

/-- Claim and process one job. False if the queue is empty. -/
def runOnce (queue : QueueName) (jobTypes : List String)
    (process : JobRow → Service Unit) : Service Bool := do
  let job : Option JobRow ← query (.claimNext queue jobTypes)
  match job with
  | none => pure false
  | some row => do
      tryCatch (process row) fun _ => fail row.1
      pure true

/-- The types the relayer claims. -/
def RELAYER_JOB_TYPES : List String :=
  ["CCTP_INBOUND", "CCTP_INBOUND_AFTER_USER_BURN", "CCTP_INBOUND_BURN",
   "CCTP_FETCH_ATTESTATION", "STELLAR_MINT_FORWARD", "REGISTER_NOTE",
   "WITHDRAW_PUBLIC_SUBMIT", "WITHDRAW_CCTP_BURN", "RFQ_SETTLE_SUBMIT",
   "RFQ_ATOMIC_SWAP_SUBMIT", "CCTP_OUTBOUND_ATTESTATION",
   "CCTP_OUTBOUND_MINT", "MPC_SETTLE_SUBMIT"]

/-- The types the prover claims. -/
def PROOF_JOB_TYPES : List String :=
  ["withdraw_public", "withdraw_cctp", "rfq_settlement",
   "private_transfer", "deposit_note_mint"]

/-- What processing a relayer job does to the queue: it returns, throws,
or sets a status. An error of that may be caught, as it is around the
proof of an MPC settlement, so what follows it is said separately. -/
inductive Work
  | returned
  | threw (message : String)
  | setStatus (status : String) (next onError : Work)

/-- The relayer's work on a job, as a sequence of statuses; one that
cannot be stored ends it as that place in the code says. -/
def processRelayerJob (jobId : ℕ) : Work → Service Unit
  | .returned => pure ()
  | .threw message => throw (.thrown message)
  | .setStatus status next onError => do
      let through ← tryCatch
        (do
          setStatus jobId status
          pure true)
        fun _ => pure false
      if through then
        processRelayerJob jobId next
      else
        processRelayerJob jobId onError

/-- The relayer claims a job, works on it and completes it. -/
def runRelayerOnce (work : JobRow → Work) : Service Bool :=
  runOnce .relayer RELAYER_JOB_TYPES fun row => do
    processRelayerJob row.1 (work row)
    complete row.1

/-- How a proof job goes: whether the coin file is there, and what the
builder makes of the inputs, with the verdict of the local check. -/
inductive ProofRun
  | noCoin (message : String)
  | threw (message : String)
  | proved (locallyVerified : Bool)

/-- A proof that does not verify fails the job. -/
def assertVerified (jobId : ℕ) (ok : Bool) : Service Unit := do
  setStatus jobId "verifying_locally"
  if ok then pure ()
  else throw (.thrown "local proof verification failed")

/-- The prover's work on a job. -/
def processProofJob (jobId : ℕ) : ProofRun → Service Unit
  | .noCoin message => throw (.thrown message)
  | .threw message => do
      setStatus jobId "building_witness"
      setStatus jobId "proving"
      throw (.thrown message)
  | .proved locallyVerified => do
      setStatus jobId "building_witness"
      setStatus jobId "proving"
      assertVerified jobId locallyVerified
      setStatus jobId "converting_for_soroban"
      complete jobId

/-- The prover claims a job and works on it. -/
def runProverOnce (proof : JobRow → ProofRun) : Service Bool :=
  runOnce .prover PROOF_JOB_TYPES fun row =>
    processProofJob row.1 (proof row)

end Lumix.Services
