/-
What the services share: one Postgres database and the committee's
coordinator.

Every statement is atomic and nothing wider is, for no service opens a
transaction. So a call is one statement, with the rows it touches, the
constraints it is checked against and what it returns; forwarding an
intent to the coordinator is one more. Columns that no modelled statement
reads are left out, and so are the tables that are only ever written.

`exec` answers a call. A choice of the surroundings decides whether the
statement fails, leaving everything as it was, or succeeds while its
answer is lost, and fixes what Postgres and the clock leave open. What a
call can do to the state is said once, by `Effect`.
-/
import Lumix.Lib.Program
import Lumix.Committee.Protocol

namespace Lumix.Services

open Committee (MpcIntent MatchResult NodeSignature Clock Status)

-- =============================================================== rows

/-- A row of `mpc_sessions`. -/
structure SessionRow where
  status : Status
  matchCount : ℕ
deriving DecidableEq

/-- `mpc_intents.status` -/
inductive IntentStatus
  | pending
  | matched
deriving DecidableEq

/-- A row of `mpc_intents`, without its key. -/
structure MpcIntentRow where
  sessionId : String
  noteNullifier : String
  noteCommitment : String
  recipientCommitment : String
  status : IntentStatus
  matchedWith : Option String
deriving DecidableEq

/-- `mpc_batches.settlement_status` -/
inductive SettlementStatus
  | pending
  | queued
  | rfqRouted
deriving DecidableEq

/-- A row of `mpc_batches`, without its key. -/
structure BatchRow where
  sessionId : String
  batchHash : String
  matchResults : List MatchResult
  signatures : List NodeSignature
  settlementStatus : SettlementStatus
deriving DecidableEq

/-- A row of `intents`, without its key. -/
structure IntentRow where
  idempotencyKey : String
  mpcSessionId : Option String
deriving DecidableEq

/-- What an `MPC_SETTLE_SUBMIT` job carries. -/
structure SettlePayload where
  batchId : String
  batchHash : String
  signatures : List NodeSignature
  matchIndex : ℕ
  sessionId : String
  intentAId : String
  intentBId : String
  matchedAmount7dp : String
  inputAsset : String
  outputAsset : String
  nullifierA : Option String
  nullifierB : Option String
  outputCommitmentA : Option String
  outputCommitmentB : Option String
deriving DecidableEq

/-- `other` is the JSON text of any other job's payload. -/
inductive Payload
  | mpcSettle (p : SettlePayload)
  | other (json : String)
deriving DecidableEq

/-- `service_jobs.queue` -/
inductive QueueName
  | prover
  | relayer
deriving DecidableEq

/-- `progress` is any of the in-progress states `setStatus` writes. -/
inductive JobStatus
  | queued
  | claimed
  | progress (name : String)
  | ready
  | failed
  | failedRetry
deriving DecidableEq

/-- The statuses `claimNext` looks for. -/
def JobStatus.claimable : JobStatus → Bool
  | queued => true
  | failedRetry => true
  | _ => false

/-- A row of `service_jobs`; its place in the table stands for its
`job_id`. -/
structure ServiceJob where
  jobType : String
  queue : QueueName
  idempotencyKey : Option String
  payload : Payload
  status : JobStatus
  attempts : ℕ
  maxAttempts : ℕ
deriving DecidableEq

-- ============================================================== calls

/-- Which read of which match a settler makes: the label a read of
`isRfqRouted` leaves in the log. -/
structure Examination where
  batchId : String
  matchIndex : ℕ
  sideA : Bool
deriving DecidableEq

/-- The statements of the committee's server, the API's routes and the
settler. -/
inductive Call
  | forward (intent : MpcIntent)
  | ensureSession (sessionId : String)
  | upsertMpcIntent (intentId : String) (row : MpcIntentRow)
  | insertShare (intentId : String)
  | insertIntent (intentHash idempotencyKey : String)
  | linkIntent (sessionId intentHash : String)
  | record
  | insertBatch (batchId : String) (row : BatchRow)
  | insertSignature (batchId : String) (sig : NodeSignature)
  | signSession (sessionId : String) (matchCount : ℕ)
  | markMatched (intentId other : String)
  | pendingBatches
  | order
  | isRfqRouted (ex : Examination) (intentId : String)
  | fetchIntentNote (intentId : String)
  | finishBatch (batchId : String) (status : SettlementStatus)
  | jobByKey (key : String)
  | insertJob (job : ServiceJob)
  | event (jobId : ℕ) (status : JobStatus)
  | claimNext (queue : QueueName) (jobTypes : List String)
  | updateStatus (jobId : ℕ) (name : String)
  | completeJob (jobId : ℕ)
  | jobAttempts (jobId : ℕ)
  | failTerminal (jobId : ℕ)
  | failRetry (jobId : ℕ)

/-- A job with its `job_id`. -/
abbrev JobRow := ℕ × ServiceJob

/-- What a call returns. `forward` returns the session id, none where the
coordinator answered with an error status. -/
def Call.Answer : Call → Type
  | .forward _ => Option String
  | .order => Bool
  | .pendingBatches => List (String × BatchRow)
  | .isRfqRouted _ _ => Bool
  | .fetchIntentNote _ => Option MpcIntentRow
  | .jobByKey _ => Option JobRow
  | .insertJob _ => JobRow
  | .claimNext _ _ => Option JobRow
  | .jobAttempts _ => Option (ℕ × ℕ)
  | _ => Unit

/-- What a statement throws. -/
inductive Fault
  | failed
  | unique
  | foreignKey
  | thrown (message : String)
deriving DecidableEq

/-- What Postgres and the clock leave open: the coordinator's clock, the
job a claim finds unlocked and due, the order of two reads in flight. -/
structure Draw where
  clock : Clock
  job : Option ℕ
  aFirst : Bool

/-- What becomes of a statement: it runs, it fails, or it runs and its
answer is lost. -/
inductive Choice
  | go (d : Draw)
  | fail
  | lost (d : Draw)

/-- The statement goes through and its answer arrives. -/
def Choice.goes : Choice → Prop
  | go _ => True
  | _ => False

instance (c : Choice) : Decidable c.goes := by
  unfold Choice.goes
  split <;> infer_instance

/-- Something is drawn for a statement that runs. -/
theorem Choice.goes.exists {c : Choice} (h : c.goes) : ∃ d, c = .go d := by
  cases c with
  | go d => exact ⟨d, rfl⟩
  | fail => cases h
  | lost d => cases h

-- ============================================================== state

/-- What has been done, for the statements of theorems: nothing reads
it. -/
inductive Deed
  | examined (pid : ℕ) (ex : Examination) (routed : Bool)
  | finished (pid : ℕ) (batchId : String)
  | claimed (jobId : ℕ)
  | closed (jobId : ℕ)
deriving DecidableEq

/-- The coordinator, the tables, the log of deeds, and who holds which
job: claimed and not yet given back. -/
structure Shared (Plain : Type) where
  world : Committee.World Plain
  mpcSessions : OrderedMap String SessionRow
  mpcIntents : OrderedMap String MpcIntentRow
  mpcBatches : OrderedMap String BatchRow
  intents : OrderedMap String IntentRow
  jobs : List ServiceJob
  log : List Deed
  holders : List (ℕ × ℕ)

variable {Key Plain : Type}

namespace Shared

/-- `UPDATE service_jobs SET status=… WHERE job_id=…` -/
def setStatus (s : Shared Plain) (jobId : ℕ) (status : JobStatus) :
    Shared Plain :=
  { s with jobs := s.jobs.modify jobId fun job => { job with status } }

/-- The process no longer holds the job. -/
def giveBack (s : Shared Plain) (pid jobId : ℕ) : Shared Plain :=
  { s with holders := s.holders.filter fun h => h ≠ (pid, jobId) }

/-- The deed is logged. -/
def logged (s : Shared Plain) (d : Deed) : Shared Plain :=
  { s with log := s.log ++ [d] }

/-- The job `idempotency_key` leads to. -/
def jobByKey (s : Shared Plain) (key : String) : Option JobRow :=
  (s.jobs.zipIdx.find? fun p => p.1.idempotencyKey = some key).map
    fun p => (p.2, p.1)

/-- The job a claim takes, if the row it may look at fits. -/
def claimable (s : Shared Plain) (queue : QueueName)
    (jobTypes : List String) (jobId : ℕ) : Option ServiceJob :=
  (s.jobs[jobId]?).bind fun job =>
    if job.queue = queue ∧ job.status.claimable ∧
        (jobTypes = [] ∨ job.jobType ∈ jobTypes) then
      some job
    else
      none

/-- The process claims the job, which counts as an attempt. -/
def claim (s : Shared Plain) (pid jobId : ℕ) : Shared Plain :=
  { s with
    jobs := s.jobs.modify jobId fun job =>
      { job with status := .claimed, attempts := job.attempts + 1 }
    log := s.log ++ [.claimed jobId]
    holders := (pid, jobId) :: s.holders }

end Shared

-- ========================================================= statements

/-- A call that goes through. -/
def perform (cfg : Committee.Config Key Plain) (pid : ℕ) :
    (q : Call) → Draw → Shared Plain →
      Shared Plain × Except Fault q.Answer
  | .forward intent, d, s =>
      match Committee.submit cfg s.world intent d.clock with
      | .ok world =>
          ({ s with world },
            .ok (some (s.world.committee.addIntent intent d.clock).2))
      | .error _ => (s, .ok none)
  | .ensureSession sessionId, _, s =>
      if (s.mpcSessions.get sessionId).isSome then
        (s, .ok ())
      else
        ({ s with mpcSessions := s.mpcSessions.set sessionId ⟨.opened, 0⟩ },
          .ok ())
  | .upsertMpcIntent intentId row, _, s =>
      if (s.mpcSessions.get row.sessionId).isNone then
        (s, .error .foreignKey)
      else
        let written :=
          match s.mpcIntents.get intentId with
          | none => row
          | some old => { old with sessionId := row.sessionId }
        ({ s with mpcIntents := s.mpcIntents.set intentId written }, .ok ())
  | .insertShare intentId, _, s =>
      if (s.mpcIntents.get intentId).isNone then
        (s, .error .foreignKey)
      else
        (s, .ok ())
  | .insertIntent intentHash idempotencyKey, _, s =>
      if (s.intents.get intentHash).isSome ∨
          s.intents.values.any fun row =>
            row.idempotencyKey = idempotencyKey then
        (s, .ok ())
      else
        ({ s with
           intents := s.intents.set intentHash ⟨idempotencyKey, none⟩ },
          .ok ())
  | .linkIntent sessionId intentHash, _, s =>
      if (s.intents.get intentHash).isNone then
        (s, .ok ())
      else if (s.mpcSessions.get sessionId).isNone then
        (s, .error .foreignKey)
      else
        ({ s with
           intents := s.intents.modify intentHash fun row =>
             { row with mpcSessionId := some sessionId } },
          .ok ())
  | .record, _, s => (s, .ok ())
  | .insertBatch batchId row, _, s =>
      if (s.mpcBatches.get batchId).isSome then
        (s, .ok ())
      else if (s.mpcSessions.get row.sessionId).isNone then
        (s, .error .foreignKey)
      else
        ({ s with mpcBatches := s.mpcBatches.set batchId row }, .ok ())
  | .insertSignature batchId _, _, s =>
      if (s.mpcBatches.get batchId).isNone then
        (s, .error .foreignKey)
      else
        (s, .ok ())
  | .signSession sessionId matchCount, _, s =>
      ({ s with
         mpcSessions := s.mpcSessions.modify sessionId fun _ =>
           ⟨.signed, matchCount⟩ },
        .ok ())
  | .markMatched intentId other, _, s =>
      if (s.mpcIntents.get intentId).isNone then
        (s, .ok ())
      else if (s.mpcIntents.get other).isNone then
        (s, .error .foreignKey)
      else
        ({ s with
           mpcIntents := s.mpcIntents.modify intentId fun row =>
             { row with status := .matched, matchedWith := some other } },
          .ok ())
  | .pendingBatches, _, s =>
      (s, .ok ((s.mpcBatches.entries.filter fun e =>
        e.2.settlementStatus = .pending).take 50))
  | .order, d, s => (s, .ok d.aFirst)
  | .isRfqRouted ex intentId, _, s =>
      let routed := (s.intents.get intentId).isSome
      (s.logged (.examined pid ex routed), .ok routed)
  | .fetchIntentNote intentId, _, s => (s, .ok (s.mpcIntents.get intentId))
  | .finishBatch batchId status, _, s =>
      (({ s with
          mpcBatches := s.mpcBatches.modify batchId fun row =>
            { row with settlementStatus := status } }).logged
          (.finished pid batchId),
        .ok ())
  | .jobByKey key, _, s => (s, .ok (s.jobByKey key))
  | .insertJob job, _, s =>
      match job.idempotencyKey.bind s.jobByKey with
      | some _ => (s, .error .unique)
      | none =>
          ({ s with jobs := s.jobs ++ [job] }, .ok (s.jobs.length, job))
  | .event jobId _, _, s =>
      if jobId < s.jobs.length then (s, .ok ())
      else (s, .error .foreignKey)
  | .claimNext queue jobTypes, d, s =>
      match d.job.bind fun jobId =>
          (s.claimable queue jobTypes jobId).map fun job =>
            (jobId, job) with
      | none => (s, .ok none)
      | some (jobId, job) =>
          (s.claim pid jobId,
            .ok (some (jobId, { job with
              status := .claimed, attempts := job.attempts + 1 })))
  | .updateStatus jobId name, _, s =>
      (s.setStatus jobId (.progress name), .ok ())
  | .completeJob jobId, _, s =>
      (((s.setStatus jobId .ready).giveBack pid jobId).logged
        (.closed jobId), .ok ())
  | .jobAttempts jobId, _, s =>
      (s, .ok ((s.jobs[jobId]?).map fun job =>
        (job.attempts, job.maxAttempts)))
  | .failTerminal jobId, _, s =>
      (((s.setStatus jobId .failed).giveBack pid jobId).logged
        (.closed jobId), .ok ())
  | .failRetry jobId, _, s =>
      ((s.setStatus jobId .failedRetry).giveBack pid jobId, .ok ())

/-- A statement as chosen. -/
def exec (cfg : Committee.Config Key Plain) (pid : ℕ) (q : Call) :
    Choice → Shared Plain → Shared Plain × Except Fault q.Answer
  | .go d, s => perform cfg pid q d s
  | .fail, s => (s, .error .failed)
  | .lost d, s => ((perform cfg pid q d s).1, .error .failed)

/-- A call is answered only where it goes through. -/
theorem exec_answered {cfg : Committee.Config Key Plain} {pid : ℕ}
    {q : Call} {c : Choice} {s : Shared Plain} {a : q.Answer}
    (h : (exec cfg pid q c s).2 = .ok a) :
    ∃ d, c = .go d ∧ (perform cfg pid q d s).2 = .ok a := by
  cases c with
  | go d => exact ⟨d, rfl, h⟩
  | fail => cases h
  | lost d => cases h

-- =================================================== what a call does

/-- Everything a call can do to the state. -/
inductive Effect (cfg : Committee.Config Key Plain) (pid : ℕ)
    (s : Shared Plain) : Call → Shared Plain → Prop
  | quiet (q : Call) : Effect cfg pid s q s
  | forwarded {intent : MpcIntent} {clock : Clock}
      {world : Committee.World Plain}
      (h : Committee.step cfg s.world (.submit intent clock) = .ok world) :
      Effect cfg pid s (.forward intent) { s with world }
  | opened {sessionId : String}
      (h : s.mpcSessions.get sessionId = none) :
      Effect cfg pid s (.ensureSession sessionId)
        { s with
          mpcSessions := s.mpcSessions.set sessionId ⟨.opened, 0⟩ }
  | written {intentId : String} {row : MpcIntentRow}
      (h : s.mpcIntents.get intentId = none) :
      Effect cfg pid s (.upsertMpcIntent intentId row)
        { s with mpcIntents := s.mpcIntents.set intentId row }
  | rewritten {intentId : String} {row old : MpcIntentRow}
      (h : s.mpcIntents.get intentId = some old) :
      Effect cfg pid s (.upsertMpcIntent intentId row)
        { s with
          mpcIntents := s.mpcIntents.set intentId
            { old with sessionId := row.sessionId } }
  | created {intentHash idempotencyKey : String}
      (h : s.intents.get intentHash = none) :
      Effect cfg pid s (.insertIntent intentHash idempotencyKey)
        { s with
          intents := s.intents.set intentHash ⟨idempotencyKey, none⟩ }
  | linked {sessionId intentHash : String} :
      Effect cfg pid s (.linkIntent sessionId intentHash)
        { s with
          intents := s.intents.modify intentHash fun row =>
            { row with mpcSessionId := some sessionId } }
  | stored {batchId : String} {row : BatchRow}
      (h : s.mpcBatches.get batchId = none) :
      Effect cfg pid s (.insertBatch batchId row)
        { s with mpcBatches := s.mpcBatches.set batchId row }
  | signed {sessionId : String} {matchCount : ℕ} :
      Effect cfg pid s (.signSession sessionId matchCount)
        { s with
          mpcSessions := s.mpcSessions.modify sessionId fun _ =>
            ⟨.signed, matchCount⟩ }
  | marked {intentId other : String} :
      Effect cfg pid s (.markMatched intentId other)
        { s with
          mpcIntents := s.mpcIntents.modify intentId fun row =>
            { row with status := .matched, matchedWith := some other } }
  | examined {ex : Examination} {intentId : String} :
      Effect cfg pid s (.isRfqRouted ex intentId)
        (s.logged (.examined pid ex (s.intents.get intentId).isSome))
  | finished {batchId : String} {status : SettlementStatus} :
      Effect cfg pid s (.finishBatch batchId status)
        (({ s with
            mpcBatches := s.mpcBatches.modify batchId fun row =>
              { row with settlementStatus := status } }).logged
          (.finished pid batchId))
  | inserted {job : ServiceJob}
      (h : job.idempotencyKey.bind s.jobByKey = none) :
      Effect cfg pid s (.insertJob job) { s with jobs := s.jobs ++ [job] }
  | claimed {queue : QueueName} {jobTypes : List String} {jobId : ℕ}
      {job : ServiceJob}
      (h : s.claimable queue jobTypes jobId = some job) :
      Effect cfg pid s (.claimNext queue jobTypes) (s.claim pid jobId)
  | advanced {jobId : ℕ} {name : String} :
      Effect cfg pid s (.updateStatus jobId name)
        (s.setStatus jobId (.progress name))
  | completed {jobId : ℕ} :
      Effect cfg pid s (.completeJob jobId)
        (((s.setStatus jobId .ready).giveBack pid jobId).logged
          (.closed jobId))
  | abandoned {jobId : ℕ} :
      Effect cfg pid s (.failTerminal jobId)
        (((s.setStatus jobId .failed).giveBack pid jobId).logged
          (.closed jobId))
  | requeued {jobId : ℕ} :
      Effect cfg pid s (.failRetry jobId)
        ((s.setStatus jobId .failedRetry).giveBack pid jobId)

/-- A statement that runs has the effect of its kind. -/
theorem effect_perform (cfg : Committee.Config Key Plain) (pid : ℕ)
    (q : Call) (d : Draw) (s : Shared Plain) :
    Effect cfg pid s q (perform cfg pid q d s).1 := by
  cases q with
  | forward intent =>
      cases h : Committee.submit cfg s.world intent d.clock with
      | ok world =>
          simp only [perform, h]
          exact .forwarded h
      | error e =>
          simp only [perform, h]
          exact .quiet _
  | ensureSession sessionId =>
      cases h : s.mpcSessions.get sessionId with
      | none =>
          simp only [perform, h]
          exact .opened h
      | some row =>
          simp only [perform, h]
          exact .quiet _
  | upsertMpcIntent intentId row =>
      by_cases hs : (s.mpcSessions.get row.sessionId).isNone
      · simp only [perform, hs, if_true]
        exact .quiet _
      · cases h : s.mpcIntents.get intentId with
        | none =>
            simp only [perform, hs, h]
            exact .written h
        | some old =>
            simp only [perform, hs, h]
            exact .rewritten h
  | insertShare intentId =>
      simp only [perform]
      split <;> exact .quiet _
  | insertIntent intentHash idempotencyKey =>
      simp only [perform]
      split
      · exact .quiet _
      · rename_i h
        exact .created (Option.not_isSome_iff_eq_none.mp fun hs =>
          h (Or.inl hs))
  | linkIntent sessionId intentHash =>
      simp only [perform]
      split
      · exact .quiet _
      · split
        · exact .quiet _
        · exact .linked
  | record => exact .quiet _
  | insertBatch batchId row =>
      simp only [perform]
      split
      · exact .quiet _
      · rename_i h
        split
        · exact .quiet _
        · exact .stored (Option.not_isSome_iff_eq_none.mp h)
  | insertSignature batchId sig =>
      simp only [perform]
      split <;> exact .quiet _
  | signSession sessionId matchCount => exact .signed
  | markMatched intentId other =>
      simp only [perform]
      split
      · exact .quiet _
      · split
        · exact .quiet _
        · exact .marked
  | pendingBatches => exact .quiet _
  | order => exact .quiet _
  | isRfqRouted ex intentId => exact .examined
  | fetchIntentNote intentId => exact .quiet _
  | finishBatch batchId status => exact .finished
  | jobByKey key => exact .quiet _
  | insertJob job =>
      cases h : job.idempotencyKey.bind s.jobByKey with
      | none =>
          simp only [perform, h]
          exact .inserted h
      | some row =>
          simp only [perform, h]
          exact .quiet _
  | event jobId status =>
      simp only [perform]
      split <;> exact .quiet _
  | claimNext queue jobTypes =>
      cases h : d.job.bind fun jobId =>
          (s.claimable queue jobTypes jobId).map fun job => (jobId, job) with
      | none =>
          simp only [perform, h]
          exact .quiet _
      | some row =>
          obtain ⟨jobId, -, hrow⟩ := Option.bind_eq_some_iff.mp h
          obtain ⟨job, hjob, rfl⟩ := Option.map_eq_some_iff.mp hrow
          simp only [perform, h]
          exact .claimed hjob
  | updateStatus jobId name => exact .advanced
  | completeJob jobId => exact .completed
  | jobAttempts jobId => exact .quiet _
  | failTerminal jobId => exact .abandoned
  | failRetry jobId => exact .requeued

/-- A statement has the effect of its kind, or none. -/
theorem effect_exec (cfg : Committee.Config Key Plain) (pid : ℕ)
    (q : Call) (c : Choice) (s : Shared Plain) :
    Effect cfg pid s q (exec cfg pid q c s).1 := by
  cases c with
  | go d => exact effect_perform cfg pid q d s
  | fail => exact .quiet q
  | lost d => exact effect_perform cfg pid q d s

end Lumix.Services
