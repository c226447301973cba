/-
The routes of a request for quotes: intents, quotes, acceptances, fills
and settlements in one database.

A request is a program of statements, each of them atomic and no two of
them together: the API opens no transaction. Requests of any users
interleave at their statements. A body that does not parse is refused
before the first of them, so bodies come parsed; `user` is who the
request is authenticated as, if anyone.

`exec` answers a statement, and logs who made it and on which tables. A
choice decides whether it goes through, and supplies the clock and what
other services answer. Columns that no statement reads are left out, and
of the tables that are only written the statements alone are left.
-/
import Lumix.Lib.Exec
import Lumix.Lib.Program
import Lumix.Lib.Table
import Lumix.Services.StableStringify

namespace Lumix.Services.Rfq

-- ================================================================= rows

/-- A row of `intents`. -/
structure IntentRow where
  intent_hash : String
  idempotency_key : String
  expiry_ledger : ℕ
  user_id : Option String
  mpc_session_id : Option String
deriving DecidableEq

/-- A row of `quotes`. -/
structure QuoteRow where
  quote_id : String
  intent_hash : String
  quote_hash : String
  solver_id : String
  valid_until_ledger : ℕ
deriving DecidableEq

/-- A row of `quote_acceptances`. -/
structure AcceptanceRow where
  acceptance_id : String
  quote_id : String
  intent_hash : String
  user_signature_hash : String
  user_id : String
deriving DecidableEq

/-- The states the routes write. -/
inductive FillState
  | FILL_CREATED
  | EXECUTED
deriving DecidableEq

/-- A row of `fills`. -/
structure FillRow where
  fill_id : String
  quote_id : String
  fill_receipt_hash : String
  destination_tx_hash : Option String
  state : FillState
  created_at : ℕ
deriving DecidableEq

/-- The states the settle route tells apart. -/
inductive ProofStatus
  | queued
  | ready
  | failed
deriving DecidableEq

/-- A row of `proof_jobs`. -/
structure ProofJobRow where
  proof_job_id : String
  user_id : Option String
  status : ProofStatus
deriving DecidableEq

/-- A row of `settlements`. -/
structure SettlementRow where
  settlement_id : String
  intent_hash : String
  quote_id : String
  fill_id : Option String
  proof_job_id : String
  nullifier : String
  user_id : Option String
deriving DecidableEq

/-- A row of `mpc_intents`. -/
structure MpcIntentRow where
  intent_id : String
  session_id : String
  matched : Bool
deriving DecidableEq

-- the unique columns

/-- Both columns are unique. -/
def IntentRow.Clash (a b : IntentRow) : Prop :=
  a.intent_hash = b.intent_hash ∨ a.idempotency_key = b.idempotency_key

/-- Both columns are unique. -/
def QuoteRow.Clash (a b : QuoteRow) : Prop :=
  a.quote_id = b.quote_id ∨ a.quote_hash = b.quote_hash

/-- Both columns are unique; the intent's is not. -/
def AcceptanceRow.Clash (a b : AcceptanceRow) : Prop :=
  a.acceptance_id = b.acceptance_id ∨ a.quote_id = b.quote_id

/-- The id is unique. -/
def FillRow.Clash (a b : FillRow) : Prop := a.fill_id = b.fill_id

/-- The id is unique. -/
def SettlementRow.Clash (a b : SettlementRow) : Prop :=
  a.settlement_id = b.settlement_id

/-- The id is unique. -/
def MpcIntentRow.Clash (a b : MpcIntentRow) : Prop :=
  a.intent_id = b.intent_id

instance : DecidableRel IntentRow.Clash := fun _ _ => instDecidableOr

instance : DecidableRel QuoteRow.Clash := fun _ _ => instDecidableOr

instance : DecidableRel AcceptanceRow.Clash := fun _ _ => instDecidableOr

instance : DecidableRel FillRow.Clash := fun a b =>
  instDecidableEqString a.fill_id b.fill_id

instance : DecidableRel SettlementRow.Clash := fun a b =>
  instDecidableEqString a.settlement_id b.settlement_id

instance : DecidableRel MpcIntentRow.Clash := fun a b =>
  instDecidableEqString a.intent_id b.intent_id

instance : Std.Symm QuoteRow.Clash where
  symm _ _ h := h.imp Eq.symm Eq.symm

instance : Std.Symm AcceptanceRow.Clash where
  symm _ _ h := h.imp Eq.symm Eq.symm

/-- The tables, and the number of the last closed ledger. -/
structure Tables where
  intents : Table IntentRow IntentRow.Clash
  quotes : Table QuoteRow QuoteRow.Clash
  acceptances : Table AcceptanceRow AcceptanceRow.Clash
  fills : Table FillRow FillRow.Clash
  settlements : Table SettlementRow SettlementRow.Clash
  mpcIntents : Table MpcIntentRow MpcIntentRow.Clash
  mpcSessions : List String
  proofJobs : List ProofJobRow
  nullifierSpends : List String
  rootMismatches : ℕ
  ledger : ℕ

-- ========================================================== the requests

/-- `rest` is the remainder of the body, which is only hashed. -/
structure IntentBody where
  expiry_ledger : ℕ
  note_nullifier : Option String
  note_commitment : Option String
  encrypted_shares : List String
  rest : String

/-- The body of `POST /v1/solver/quotes`. -/
structure QuoteBody where
  quote_id : String
  intent_hash : String
  solver_id : String
  valid_until_ledger : ℕ
  rest : String

/-- The body of `POST /v1/quotes/:quote_id/accept`. -/
structure AcceptBody where
  intent_hash : String
  user_signature_hash : String

/-- The body of `POST /v1/fills`. -/
structure FillBody where
  quote_id : String
  fill_receipt_hash : String
  destination_tx_hash : Option String

/-- The body of `POST /v1/rfq/settle`. -/
structure SettleBody where
  intent_hash : String
  quote_id : String
  fill_id : Option String
  fill_receipt_hash : Option String
  proof_job_id : String
  nullifier : String

/-- `hashJson` on the two bodies it names rows by, and the digest that
the other ids are made of. -/
structure Hashes where
  intent : IntentBody → String
  quote : QuoteBody → String
  sha256Hex : String → String

/-- A request to one of the routes. -/
inductive Request
  | createIntent (user : Option String) (body : IntentBody)
      (idempotencyKey : String)
  | requestQuotes (user : Option String) (intentHash : String)
      (solverUrl : Bool)
  | solverQuote (body : QuoteBody)
  | accept (user : Option String) (quoteId : String) (body : AcceptBody)
  | lock (quoteId : String)
  | createFill (body : FillBody)
  | executeFill (fillId : String)
      (destinationTxHash : Option String)
  | settle (user : Option String) (body : SettleBody)

/-- What a route answers. -/
inductive Reply
  | intent (intentHash : String) (mpcSessionId : Option String)
  | requested (quoteId : String)
  | quotes (rows : List QuoteRow)
  | quote (quoteId quoteHash : String)
  | accepted (acceptanceId : String)
  | locked
  | fill (fillId : String)
  | executed (fillId : String) (destinationTxHash : String)
  | settled (settlementId : String)

/-- An error with a status code. -/
structure Failure where
  statusCode : ℕ
  message : String
deriving DecidableEq

-- ========================================================= the statements

/-- The answer of the solver: its quote, under the hash it gives. -/
structure SolverQuote where
  quote_id : String
  quote_hash : String
  solver_id : String
  valid_until_ledger : ℕ

/-- `record` is a row of `state_transitions` or of `user_activity`. The
label `requester` of `insertSettlement` is who asks for it. -/
inductive Call
  | rootMismatchCount
  | selectIntent (intentHash : String)
  | selectQuote (quoteId : String)
  | selectAcceptance (quoteId : String)
  | latestFill (quoteId : String)
  | selectProofJob (proofJobId : String)
  | selectSpend (nullifier : String)
  | selectMatched (intentHash : String)
  | listQuotes (intentHash : String)
  | insertIntent (row : IntentRow)
  | insertQuote (row : QuoteRow)
  | insertAcceptance (row : AcceptanceRow)
  | insertLock (quoteId : String)
  | insertFill (fillId : String) (body : FillBody)
  | executeFill (fillId : String) (destinationTxHash : String)
  | insertSettlement (requester settlementId : String) (body : SettleBody)
  | setRowUser (settlementId : String) (userId : String)
  | record
  | requestQuote (intentHash : String)
  | forward (intentHash : String)
  | ensureSession (sessionId : String)
  | upsertMpcIntent (intentHash sessionId : String)
  | insertShare (intentHash nodeId : String)
  | linkIntent (sessionId : Option String) (intentHash : String)

/-- The committee's answer is none where it refuses, and holds a session
id otherwise, if it names one. -/
@[reducible]
def Call.Answer : Call → Type
  | .rootMismatchCount => ℕ
  | .selectIntent _ => Option IntentRow
  | .selectQuote _ => Option QuoteRow
  | .selectAcceptance _ => Bool
  | .latestFill _ => Option FillRow
  | .selectProofJob _ => Option ProofJobRow
  | .selectSpend _ => Bool
  | .selectMatched _ => Bool
  | .listQuotes _ => List QuoteRow
  | .executeFill _ _ => Bool
  | .requestQuote _ => SolverQuote
  | .forward _ => Option (Option String)
  | _ => Unit

/-- What a statement or a service draws: the time, which of several
newest rows comes first, and the answers from outside. -/
structure Draw where
  now : ℕ
  pick : ℕ
  solver : SolverQuote
  committee : Option (Option String)

/-- A statement goes through; or it fails and does nothing; or it goes
through and its answer is lost. -/
inductive Choice
  | go (draw : Draw)
  | fail
  | lose (draw : Draw)

/-- An error of the database is answered as 500. -/
def databaseError (message : String) : Failure := ⟨500, message⟩

/-- `insert … on conflict do nothing`: what the row refers to is looked
at only if the row goes in. -/
def insertGeneric {α : Type} {Clash : α → α → Prop} [DecidableRel Clash]
    (t : Table α Clash) (row : α) (refs : Prop) [Decidable refs] :
    Except Failure (Table α Clash) :=
  match t.insert row with
  | none => .ok t
  | some t' =>
      if refs then .ok t'
      else .error (databaseError "violates foreign key constraint")

/-- The rows of a quote that no other was created after. -/
def newestFills (t : Tables) (quoteId : String) : List FillRow :=
  let rows := t.fills.rows.filter (·.quote_id = quoteId)
  rows.filter fun r => ∀ r' ∈ rows, r'.created_at ≤ r.created_at

/-- The row that `settle` inserts; its owner comes with the next
statement. -/
def settlementRow (settlementId : String) (body : SettleBody) :
    SettlementRow where
  settlement_id := settlementId
  intent_hash := body.intent_hash
  quote_id := body.quote_id
  fill_id := body.fill_id
  proof_job_id := body.proof_job_id
  nullifier := body.nullifier
  user_id := none

/-- The intent is there, as a foreign key asks. -/
def Tables.hasIntent (t : Tables) (intentHash : String) : Prop :=
  ∃ r ∈ t.intents.rows, r.intent_hash = intentHash

/-- The quote is there. -/
def Tables.hasQuote (t : Tables) (quoteId : String) : Prop :=
  ∃ r ∈ t.quotes.rows, r.quote_id = quoteId

instance (t : Tables) (intentHash : String) :
    Decidable (t.hasIntent intentHash) :=
  inferInstanceAs (Decidable (∃ r ∈ t.intents.rows, _))

instance (t : Tables) (quoteId : String) :
    Decidable (t.hasQuote quoteId) :=
  inferInstanceAs (Decidable (∃ r ∈ t.quotes.rows, _))

/-- What a settlement refers to. -/
def SettleRefs (t : Tables) (body : SettleBody) : Prop :=
  t.hasIntent body.intent_hash ∧ t.hasQuote body.quote_id
    ∧ (∀ id ∈ body.fill_id, ∃ r ∈ t.fills.rows, r.fill_id = id)
    ∧ ∃ r ∈ t.proofJobs, r.proof_job_id = body.proof_job_id

instance (t : Tables) (body : SettleBody) :
    Decidable (SettleRefs t body) :=
  inferInstanceAs (Decidable (_ ∧ _ ∧ _ ∧ _))

/-- Link an intent to its session. -/
def setSession (sessionId : Option String) (intentHash : String)
    (r : IntentRow) : IntentRow :=
  if r.intent_hash = intentHash then
    { r with mpc_session_id := sessionId }
  else r

/-- What the update makes of a fill. -/
def markExecuted (fillId : String) (destinationTxHash : String)
    (r : FillRow) : FillRow :=
  if r.fill_id = fillId then
    { r with
      destination_tx_hash := some destinationTxHash
      state := .EXECUTED }
  else r

/-- What it makes of a settlement. -/
def setUser (settlementId : String) (userId : String)
    (r : SettlementRow) : SettlementRow :=
  if r.settlement_id = settlementId then { r with user_id := some userId }
  else r

/-- What it makes of a committee's intent. -/
def moveSession (intentHash sessionId : String) (r : MpcIntentRow) :
    MpcIntentRow :=
  if r.intent_id = intentHash then { r with session_id := sessionId } else r

/-- An intent moves session and keeps the rest. -/
theorem setSession_keys (sessionId : Option String) (intentHash : String)
    (r : IntentRow) :
    (setSession sessionId intentHash r).intent_hash = r.intent_hash
      ∧ (setSession sessionId intentHash r).idempotency_key
        = r.idempotency_key
      ∧ (setSession sessionId intentHash r).user_id = r.user_id := by
  unfold setSession
  split <;> exact ⟨rfl, rfl, rfl⟩

/-- A fill is executed and keeps the rest. -/
theorem markExecuted_keys (fillId : String) (tx : String)
    (r : FillRow) :
    (markExecuted fillId tx r).fill_id = r.fill_id
      ∧ (markExecuted fillId tx r).quote_id = r.quote_id
      ∧ (r.state = .EXECUTED → (markExecuted fillId tx r).state = .EXECUTED)
      := by
  unfold markExecuted
  split
  · exact ⟨rfl, rfl, fun _ => rfl⟩
  · exact ⟨rfl, rfl, id⟩

/-- A settlement keeps its id, -/
theorem setUser_id (settlementId : String) (userId : String)
    (r : SettlementRow) :
    (setUser settlementId userId r).settlement_id = r.settlement_id := by
  unfold setUser
  split <;> rfl

/-- and a committee's intent its. -/
theorem moveSession_id (intentHash sessionId : String) (r : MpcIntentRow) :
    (moveSession intentHash sessionId r).intent_id = r.intent_id := by
  unfold moveSession
  split <;> rfl

/-- `update intents set mpc_session_id = $2` -/
def Tables.linkIntent (t : Tables) (sessionId : Option String)
    (intentHash : String) : Tables where
  __ := t
  intents := t.intents.map (setSession sessionId intentHash)
    fun a b h => by
      rw [IntentRow.Clash, (setSession_keys _ _ a).1,
        (setSession_keys _ _ b).1, (setSession_keys _ _ a).2.1,
        (setSession_keys _ _ b).2.1] at h
      exact h

/-- `update fills set state = 'EXECUTED'` -/
def Tables.executeFill (t : Tables) (fillId : String)
    (destinationTxHash : String) : Tables where
  __ := t
  fills := t.fills.map (markExecuted fillId destinationTxHash)
    fun a b h => by
      rw [FillRow.Clash, (markExecuted_keys _ _ a).1,
        (markExecuted_keys _ _ b).1] at h
      exact h

/-- `update settlements set user_id = $2` -/
def Tables.setRowUser (t : Tables) (settlementId : String)
    (userId : String) : Tables where
  __ := t
  settlements := t.settlements.map (setUser settlementId userId)
    fun a b h => by
      rw [SettlementRow.Clash, setUser_id, setUser_id] at h
      exact h

/-- The upsert of `mpc_intents`: a new row is pending, an old one changes
its session only. -/
def Tables.upsertMpcIntent (t : Tables) (intentHash sessionId : String) :
    Tables where
  __ := t
  mpcIntents := (t.mpcIntents.insert ⟨intentHash, sessionId, false⟩).getD
    (t.mpcIntents.map (moveSession intentHash sessionId) fun a b h => by
      rw [MpcIntentRow.Clash, moveSession_id, moveSession_id] at h
      exact h)

/-- What each statement does to the tables and what it returns. -/
def perform (draw : Draw) (t : Tables) :
    (q : Call) → Tables × Except Failure q.Answer
  | .rootMismatchCount => (t, .ok t.rootMismatches)
  | .selectIntent intentHash =>
      (t, .ok (t.intents.rows.find? (·.intent_hash = intentHash)))
  | .selectQuote quoteId =>
      (t, .ok (t.quotes.rows.find? (·.quote_id = quoteId)))
  | .selectAcceptance quoteId =>
      (t, .ok (t.acceptances.rows.any (·.quote_id = quoteId)))
  | .latestFill quoteId =>
      let newest := newestFills t quoteId
      (t, .ok newest[draw.pick % newest.length]?)
  | .selectProofJob proofJobId =>
      (t, .ok (t.proofJobs.find? (·.proof_job_id = proofJobId)))
  | .selectSpend nullifier =>
      (t, .ok (decide (nullifier ∈ t.nullifierSpends)))
  | .selectMatched intentHash =>
      (t, .ok (t.mpcIntents.rows.any fun r =>
        r.intent_id = intentHash ∧ r.matched = true))
  | .listQuotes intentHash =>
      (t, .ok (t.quotes.rows.filter (·.intent_hash = intentHash)))
  | .insertIntent row =>
      match insertGeneric t.intents row True with
      | .ok intents => ({ t with intents }, .ok ())
      | .error e => (t, .error e)
  | .insertQuote row =>
      match insertGeneric t.quotes row (t.hasIntent row.intent_hash) with
      | .ok quotes => ({ t with quotes }, .ok ())
      | .error e => (t, .error e)
  | .insertAcceptance row =>
      match insertGeneric t.acceptances row
          (t.hasQuote row.quote_id ∧ t.hasIntent row.intent_hash) with
      | .ok acceptances => ({ t with acceptances }, .ok ())
      | .error e => (t, .error e)
  | .insertLock quoteId =>
      if t.hasQuote quoteId then (t, .ok ())
      else (t, .error (databaseError "violates foreign key constraint"))
  | .insertFill fillId body =>
      match insertGeneric t.fills
          { fill_id := fillId
            quote_id := body.quote_id
            fill_receipt_hash := body.fill_receipt_hash
            destination_tx_hash := body.destination_tx_hash
            state := .FILL_CREATED
            created_at := draw.now }
          (t.hasQuote body.quote_id) with
      | .ok fills => ({ t with fills }, .ok ())
      | .error e => (t, .error e)
  | .executeFill fillId destinationTxHash =>
      (t.executeFill fillId destinationTxHash,
        .ok (t.fills.rows.any (·.fill_id = fillId)))
  | .insertSettlement _ settlementId body =>
      -- `settlements` has no column for the receipt
      if body.fill_receipt_hash.isSome then
        (t, .error (databaseError ("column \"fill_receipt_hash\" of relation "
          ++ "\"settlements\" does not exist")))
      else
        match insertGeneric t.settlements
            (settlementRow settlementId body) (SettleRefs t body) with
        | .ok settlements => ({ t with settlements }, .ok ())
        | .error e => (t, .error e)
  | .setRowUser settlementId userId =>
      (t.setRowUser settlementId userId, .ok ())
  | .record => (t, .ok ())
  | .requestQuote _ => (t, .ok draw.solver)
  | .forward _ => (t, .ok draw.committee)
  | .ensureSession sessionId =>
      ({ t with mpcSessions := sessionId :: t.mpcSessions }, .ok ())
  | .upsertMpcIntent intentHash sessionId =>
      if sessionId ∈ t.mpcSessions then
        (t.upsertMpcIntent intentHash sessionId, .ok ())
      else
        (t, .error (databaseError "violates foreign key constraint"))
  | .insertShare intentHash _ =>
      if ∃ r ∈ t.mpcIntents.rows, r.intent_id = intentHash then (t, .ok ())
      else (t, .error (databaseError "violates foreign key constraint"))
  | .linkIntent sessionId intentHash =>
      if ∀ id ∈ sessionId, id ∈ t.mpcSessions then
        (t.linkIntent sessionId intentHash, .ok ())
      else
        (t, .error (databaseError "violates foreign key constraint"))

/-- One entry of the log: who made which statement, on which tables, and
whether it was answered. -/
structure Look where
  pid : ℕ
  call : Call
  tables : Tables
  answered : Bool

/-- The tables, and who made which statement on which of them. -/
structure World where
  tables : Tables
  log : List Look

/-- What a statement throws whose answer does not come. -/
def lost : Failure := databaseError "Connection terminated unexpectedly"

/-- A statement as chosen, logged with the tables it was made on. -/
def exec (pid : ℕ) (q : Call) (c : Choice) (w : World) :
    World × Except Failure q.Answer :=
  match c with
  | .go draw =>
      let (tables, r) := perform draw w.tables q
      ({ tables, log := w.log ++ [⟨pid, q, w.tables, r.isOk⟩] }, r)
  | .fail =>
      ({ w with log := w.log ++ [⟨pid, q, w.tables, false⟩] },
        .error lost)
  | .lose draw =>
      ({ tables := (perform draw w.tables q).1
         log := w.log ++ [⟨pid, q, w.tables, false⟩] }, .error lost)

-- ============================================================ the routes

/-- The code of a route. -/
abbrev Route : Type → Type := Prog Call.Answer Failure

/-- One statement. -/
abbrev ask (q : Call) : Route q.Answer := Prog.query q

/-- Refuse the request where the condition holds. -/
def reject (c : Prop) [Decidable c] (statusCode : ℕ) (message : String) :
    Except Failure Unit :=
  Exec.panicIf c ⟨statusCode, message⟩

/-- A value that has to be there. -/
def found {α : Type} (o : Option α) (statusCode : ℕ) (message : String) :
    Except Failure α :=
  Exec.orPanic ⟨statusCode, message⟩ o

/-- A request that is not rejected does not meet the condition. -/
@[simp]
theorem reject_eq_ok {c : Prop} [Decidable c] {statusCode : ℕ}
    {message : String} {u : Unit} :
    reject c statusCode message = .ok u ↔ ¬c :=
  Exec.panicIf_eq_ok

/-- A value that was found is there. -/
@[simp]
theorem found_eq_ok {α : Type} {o : Option α} {statusCode : ℕ}
    {message : String} {a : α} :
    found o statusCode message = .ok a ↔ o = some a :=
  Exec.orPanic_eq_ok

/-- The user a request is authenticated as. -/
def authedUser (user : Option String) : Except Failure String :=
  found user 401 "authentication required"

/-- A row without an owner passes. -/
def checkOwner (userId : String) (row : Option IntentRow) :
    Except Failure Unit := do
  let row ← found row 404 "intent not found"
  reject (∃ owner ∈ row.user_id, owner ≠ userId) 403
    "intent not owned by user"

/-- The intent has to be the user's, or nobody's. -/
def requireOwnedIntent (userId intentHash : String) : Route Unit := do
  let row : Option IntentRow ← ask (.selectIntent intentHash)
  Prog.ofExcept (checkOwner userId row)

/-- What the routes know of a quote. -/
structure Lifecycle where
  intent : Option IntentRow
  quote : Option QuoteRow
  accepted : Bool
  fill : Option FillRow

/-- Four reads, one after the other. -/
def rfqLifecycle (intentHash quoteId : String) : Route Lifecycle := do
  let intent : Option IntentRow ← ask (.selectIntent intentHash)
  let quote : Option QuoteRow ← ask (.selectQuote quoteId)
  let accepted : Bool ← ask (.selectAcceptance quoteId)
  let fill : Option FillRow ← ask (.latestFill quoteId)
  pure { intent, quote, accepted, fill }

/-- A read that fails counts as unspent. -/
def isNullifierSpent (nullifier : String) : Route Bool :=
  tryCatch (ask (.selectSpend nullifier)) fun _ => pure false

/-- A read that fails counts as none. -/
def criticalRootMismatchCount : Route ℕ :=
  tryCatch (ask .rootMismatchCount) fun _ => pure 0

/-- Refused while the root auditor has findings. -/
def assertRootHealthy : Route Unit := do
  let critical ← criticalRootMismatchCount
  Prog.ofExcept (reject (critical > 0) 409
    ("ROOT_MISMATCH_CRITICAL: " ++ toString critical
      ++ " unresolved root-audit finding(s); spends are blocked"))

/-- Past the committee's answer: the rows of the intent there, and the
link to its session. -/
def recordSession (intentHash : String) (shares : List String)
    (mpcSessionId : Option String) : Route Unit := do
  match mpcSessionId with
  | some sessionId => ask (.ensureSession sessionId)
  | none => pure ()
  ask (.upsertMpcIntent intentHash (mpcSessionId.getD "unknown"))
  shares.forM fun nodeId => ask (.insertShare intentHash nodeId)
  ask (.linkIntent mpcSessionId intentHash)
  ask .record

/-- The intent goes to the committee; whatever fails there is caught. -/
def routeToCommittee (intentHash : String) (shares : List String) :
    Route (Option String) := do
  let answer : Option (Option String) ← tryCatch (ask (.forward intentHash))
    fun _ => pure none
  match answer with
  | none => pure none
  | some mpcSessionId => do
      let mpcSessionId := mpcSessionId.filter (· ≠ "")
      tryCatch (recordSession intentHash shares mpcSessionId)
        fun _ => pure ()
      pure mpcSessionId

/-- `POST /v1/intents` -/
def createIntent (hashes : Hashes) (user : Option String)
    (body : IntentBody) (idempotencyKey : String) : Route Reply := do
  let userId ← Prog.ofExcept (authedUser user)
  let intentHash := hashes.intent body
  ask (.insertIntent
    { intent_hash := intentHash
      idempotency_key := idempotencyKey
      expiry_ledger := body.expiry_ledger
      user_id := some userId
      mpc_session_id := none })
  ask .record
  ask .record
  if body.encrypted_shares ≠ [] ∧ body.note_nullifier.isSome
      ∧ body.note_commitment.isSome then do
    let mpcSessionId ← routeToCommittee intentHash body.encrypted_shares
    pure (.intent intentHash mpcSessionId)
  else
    pure (.intent intentHash none)

/-- `POST /v1/intents/:intent_hash/request-quotes` -/
def requestQuotes (user : Option String) (intentHash : String)
    (solverUrl : Bool) : Route Reply := do
  let userId ← Prog.ofExcept (authedUser user)
  requireOwnedIntent userId intentHash
  if solverUrl then do
    let sq : SolverQuote ← ask (.requestQuote intentHash)
    ask (.insertQuote
      { quote_id := sq.quote_id
        intent_hash := intentHash
        quote_hash := sq.quote_hash
        solver_id := sq.solver_id
        valid_until_ledger := sq.valid_until_ledger })
    pure (.requested sq.quote_id)
  else do
    let rows : List QuoteRow ← ask (.listQuotes intentHash)
    pure (.quotes rows)

/-- `POST /v1/solver/quotes` -/
def solverQuote (hashes : Hashes) (body : QuoteBody) :
    Route Reply := do
  let quoteHash := hashes.quote body
  ask (.insertQuote
    { quote_id := body.quote_id
      intent_hash := body.intent_hash
      quote_hash := quoteHash
      solver_id := body.solver_id
      valid_until_ledger := body.valid_until_ledger })
  ask .record
  pure (.quote body.quote_id quoteHash)

/-- The id of an acceptance. -/
def acceptanceId (hashes : Hashes) (quoteId userSignatureHash : String) :
    String :=
  deterministicId hashes.sha256Hex "accept" [quoteId, userSignatureHash]

/-- The row that `accept` inserts. -/
def acceptanceRow (hashes : Hashes) (userId quoteId : String)
    (body : AcceptBody) : AcceptanceRow where
  acceptance_id := acceptanceId hashes quoteId body.user_signature_hash
  quote_id := quoteId
  intent_hash := body.intent_hash
  user_signature_hash := body.user_signature_hash
  user_id := userId

/-- What `accept` checks before it does. -/
def checkQuote (body : AcceptBody) (lc : Lifecycle) :
    Except Failure Unit := do
  let quote ← found lc.quote 404 "quote not found"
  reject (quote.intent_hash ≠ body.intent_hash) 409
    "quote does not belong to intent"
  reject (lc.accepted = true) 409
    "a quote is already accepted for this intent (immutable)"

/-- `POST /v1/quotes/:quote_id/accept` -/
def accept (hashes : Hashes) (user : Option String) (quoteId : String)
    (body : AcceptBody) : Route Reply := do
  let userId ← Prog.ofExcept (authedUser user)
  requireOwnedIntent userId body.intent_hash
  let lc ← rfqLifecycle body.intent_hash quoteId
  Prog.ofExcept (checkQuote body lc)
  let row := acceptanceRow hashes userId quoteId body
  ask (.insertAcceptance row)
  ask .record
  pure (.accepted row.acceptance_id)

/-- `POST /v1/quotes/:quote_id/lock` -/
def lock (quoteId : String) : Route Reply := do
  ask (.insertLock quoteId)
  ask .record
  pure .locked

/-- `POST /v1/fills` -/
def createFill (hashes : Hashes) (body : FillBody) : Route Reply := do
  let fillId := deterministicId hashes.sha256Hex "fill"
    [body.quote_id, body.fill_receipt_hash]
  ask (.insertFill fillId body)
  ask .record
  pure (.fill fillId)

/-- `POST /v1/fills/:fill_id/execute` -/
def executeFill (fillId : String)
    (destinationTxHash : Option String) : Route Reply := do
  let tx ← Prog.ofExcept (found (destinationTxHash.filter (· ≠ "")) 400
    "destination_tx_hash required")
  let ok : Bool ← ask (.executeFill fillId tx)
  Prog.ofExcept (reject (ok = false) 404 "fill not found")
  ask .record
  pure (.executed fillId tx)

/-- Where the intent has gone to the committee, its match is to be
confirmed. -/
def requireMatch (intentHash : String) (intentRow : Option IntentRow) :
    Route Unit :=
  match (intentRow.bind IntentRow.mpc_session_id).filter (· ≠ "") with
  | none => pure ()
  | some _ => do
      let matched : Bool ← ask (.selectMatched intentHash)
      Prog.ofExcept (reject (matched = false) 409
        "MPC match not yet confirmed — intent is awaiting private committee matching")

/-- What is checked on the lifecycle that was read. -/
def checkLifecycle (userId : String) (body : SettleBody)
    (lc : Lifecycle) : Except Failure Unit := do
  let intent ← found lc.intent 404 "intent not found"
  reject (∃ owner ∈ intent.user_id, owner ≠ userId) 403
    "authenticated user does not own this intent"
  let quote ← found lc.quote 404 "quote not found"
  reject (quote.intent_hash ≠ body.intent_hash) 409
    "quote does not belong to intent"
  reject (lc.accepted = false) 409 "quote is not accepted"
  let fill ← found lc.fill 409 "fill not found for quote"
  reject (fill.state ≠ .EXECUTED) 409 "fill is not executed"
  reject (∃ hash ∈ body.fill_receipt_hash,
    hash ≠ "" ∧ fill.fill_receipt_hash ≠ hash) 409
    "fill receipt hash mismatch"

/-- The id of a settlement. -/
def settlementId (hashes : Hashes) (body : SettleBody) : String :=
  deterministicId hashes.sha256Hex "settle"
    [body.intent_hash, body.quote_id, body.nullifier]

/-- `POST /v1/rfq/settle` -/
def settle (hashes : Hashes) (user : Option String) (body : SettleBody) :
    Route Reply := do
  let userId ← Prog.ofExcept (authedUser user)
  assertRootHealthy
  let lc ← rfqLifecycle body.intent_hash body.quote_id
  Prog.ofExcept (checkLifecycle userId body lc)
  -- the comment on expiry stands here, and no check
  let proofReady : Option ProofJobRow ←
    ask (.selectProofJob body.proof_job_id)
  Prog.ofExcept (reject (¬∃ job ∈ proofReady, job.status = .ready) 409
    "proof job is not ready")
  let spent ← isNullifierSpent body.nullifier
  Prog.ofExcept (reject (spent = true) 409 "nullifier already spent")
  let intentRow : Option IntentRow ← ask (.selectIntent body.intent_hash)
  requireMatch body.intent_hash intentRow
  let settlementId := settlementId hashes body
  ask (.insertSettlement userId settlementId body)
  ask .record
  ask (.setRowUser settlementId userId)
  ask .record
  pure (.settled settlementId)

/-- The route's handler. -/
def Request.code (hashes : Hashes) : Request → Route Reply
  | .createIntent user body idempotencyKey =>
      Rfq.createIntent hashes user body idempotencyKey
  | .requestQuotes user intentHash solverUrl =>
      Rfq.requestQuotes user intentHash solverUrl
  | .solverQuote body => Rfq.solverQuote hashes body
  | .accept user quoteId body => Rfq.accept hashes user quoteId body
  | .lock quoteId => Rfq.lock quoteId
  | .createFill body => Rfq.createFill hashes body
  | .executeFill fillId destinationTxHash =>
      Rfq.executeFill fillId destinationTxHash
  | .settle user body => Rfq.settle hashes user body

-- ============================================================ the system

/-- What else happens: ledgers close, nullifiers are recorded, proof jobs
come and move on, the committee confirms a match, the auditor finds. -/
inductive Outside
  | closeLedger
  | spend (nullifier : String)
  | proofJobs (rows : List ProofJobRow)
  | matched (intentId : String)
  | rootMismatches (count : ℕ)

/-- What a match makes of a committee's intent. -/
def confirmMatch (intentId : String) (r : MpcIntentRow) : MpcIntentRow :=
  if r.intent_id = intentId then { r with matched := true } else r

/-- It keeps its id. -/
theorem confirmMatch_id (intentId : String) (r : MpcIntentRow) :
    (confirmMatch intentId r).intent_id = r.intent_id := by
  unfold confirmMatch
  split <;> rfl

/-- The committee marks an intent as matched. -/
def Tables.confirmMatch (t : Tables) (intentId : String) : Tables where
  __ := t
  mpcIntents := t.mpcIntents.map (Rfq.confirmMatch intentId)
    fun a b h => by
      rw [MpcIntentRow.Clash, confirmMatch_id, confirmMatch_id] at h
      exact h

/-- What the chain, the prover, the committee and the auditor do in
between. -/
def Tables.happen (t : Tables) : Outside → Tables
  | .closeLedger => { t with ledger := t.ledger + 1 }
  | .spend nullifier =>
      { t with nullifierSpends := nullifier :: t.nullifierSpends }
  | .proofJobs rows => { t with proofJobs := rows }
  | .matched intentId => t.confirmMatch intentId
  | .rootMismatches count => { t with rootMismatches := count }

/-- Requests on one database. -/
def rfq (hashes : Hashes) :
    System Call.Answer Failure Reply Request World Choice Outside where
  code := Request.code hashes
  exec := exec
  outside e w := some ({ w with tables := w.tables.happen e }, [])

/-- A state of the routes. -/
abbrev Desk := Machine Call.Answer Failure Reply Request World

/-- An event of them. -/
abbrev DeskEvent := MachineEvent Request Choice Outside

end Lumix.Services.Rfq
