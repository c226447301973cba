/-
Deposits that the user burns for.

`prepare` checks that wallet and vault are the user's, stores the deposit
and returns the burn for the user's wallet to sign; `burnSubmitted` takes
the hash of the burn and queues the relayer's job, once for each deposit.
Requests are programs of statements without a transaction, and
interleave; other routes rewrite the wallets, the vaults and the findings
of the root auditor, and queue jobs under other keys (`Outside`).

Every statement carries the request it is made for. `seen` and `callers`
are for the reader: what the checks found, and which processes have made
statements.
-/
import Lumix.Services.Database
import Lumix.Services.Inbound
import Lumix.Services.StableStringify
import Lumix.Services.Vaults

namespace Lumix.Services.UserDeposits

open Text Vaults
open Inbound (EnvMap Libraries)

-- ================================================================= bodies

/-- The schema takes digits for the amount. -/
structure PrepareBody where
  amount_usdc_6dp : ℕ
  source_chain : String
  source_wallet_address : String
  vault_id : String
  commitment : String
  encrypted_note_payload_hash : String
  policy_id : String
deriving DecidableEq

/-- The body of `POST /v1/deposits/:deposit_id/burn-submitted`. -/
structure BurnBody where
  burn_tx_hash : String
  source_wallet_address : String
deriving DecidableEq

/-- A request to one of the two routes, by whom it was made. -/
inductive Request
  | prepare (auth : Option Auth) (idempotencyKey : String)
      (body : PrepareBody)
  | burnSubmitted (auth : Option Auth) (depositId : String)
      (body : BurnBody)

-- =================================================================== rows

/-- The states the two routes write. -/
inductive DepositState
  | prepared
  | burn_submitted
deriving DecidableEq

/-- A row of `cctp_deposits`, of the columns the routes use. -/
structure DepositRow where
  deposit_id : String
  idempotency_key : String
  user_id : String
  source_chain : String
  source_wallet_address : String
  vault_id : String
  source_domain : ℕ
  destination_domain : ℕ
  asset_id : String
  amount_usdc_6dp : ℕ
  amount_usdc_7dp : ℕ
  commitment : String
  encrypted_note_payload_hash : String
  policy_id : String
  source_tx_hash : Option String
  state : DepositState
deriving DecidableEq

/-- Both columns are unique. -/
def DepositRow.Clash (a b : DepositRow) : Prop :=
  a.deposit_id = b.deposit_id ∨ a.idempotency_key = b.idempotency_key

instance : DecidableRel DepositRow.Clash := fun _ _ => instDecidableOr

instance : Std.Symm DepositRow.Clash where
  symm _ _ h := h.imp Eq.symm Eq.symm

/-- What the job of a burn carries. -/
structure BurnPayload where
  deposit_id : String
  burn_tx_hash : String
  source_wallet_address : String
  expected_amount6 : String
  commitment : String
  vault_id : String
  expected_finality : ℕ
  expected_max_fee6 : Option String
  encryptedNotePayloadHashHex : String
  policyIdHex : String
deriving DecidableEq

/-- Nothing reads the payload of another job here. -/
inductive JobPayload
  | userBurn (p : BurnPayload)
  | other (text : String)
deriving DecidableEq

/-- A row of `service_jobs`. -/
structure JobRow where
  job_id : String
  queue : QueueName
  job_type : String
  idempotency_key : Option String
  payload : JobPayload
deriving DecidableEq

/-- A null key is like no other. -/
def JobRow.Clash (a b : JobRow) : Prop :=
  a.job_id = b.job_id
    ∨ (a.idempotency_key ≠ none ∧ a.idempotency_key = b.idempotency_key)

instance : DecidableRel JobRow.Clash := fun _ _ => instDecidableOr

instance : Std.Symm JobRow.Clash where
  symm a b h := by
    rcases h with hid | ⟨hkey, heq⟩
    · exact .inl hid.symm
    · exact .inr ⟨heq ▸ hkey, heq.symm⟩

/-- `findings` counts the critical findings of the root auditor. -/
structure Tables where
  wallets : Table WalletRow WalletRow.Clash
  vaults : Table VaultRow VaultRow.Clash
  findings : ℕ
  deposits : Table DepositRow DepositRow.Clash
  jobs : Table JobRow JobRow.Clash

-- ============================================================= statements

/-- The statements of the two routes, one for each function of `db.ts`
and of the queue. -/
inductive Query
  | userOwnsWallet (userId address : String)
  | userOwnsVault (userId vaultId : String)
  | vaultDepositReady (userId vaultId : String)
  | criticalRootMismatchCount
  | createUserDeposit (row : DepositRow)
  | getDepositForUser (userId depositId : String)
  | setDepositBurnTx (depositId burnTxHash : String)
  | jobByKey (key : String)
  | insertJob (jobType : String) (payload : JobPayload) (key : String)
  | event (jobId : String)
  | logActivity (userId : String)

/-- What each returns. -/
@[reducible]
def Query.Answer : Query → Type
  | .userOwnsWallet _ _ => Bool
  | .userOwnsVault _ _ => Bool
  | .vaultDepositReady _ _ => Option DepositReady
  | .criticalRootMismatchCount => ℕ
  | .getDepositForUser _ _ => Option DepositRow
  | .jobByKey _ => Option JobRow
  | .insertJob _ _ _ => JobRow
  | _ => Unit

/-- A statement, and the request that makes it. -/
structure Call where
  request : Request
  query : Query

/-- The statement's. -/
@[reducible]
def Call.Answer (q : Call) : Type := q.query.Answer

/-- Some wallet of the user has the address, up to letter case. -/
def userOwnsWallet (t : Tables) (userId address : String) : Bool :=
  t.wallets.rows.any fun r =>
    r.user_id = userId
      ∧ Inbound.toLowerCase r.address = Inbound.toLowerCase address

/-- Some vault of the user has the id. -/
def userOwnsVault (t : Tables) (userId vaultId : String) : Bool :=
  t.vaults.rows.any (·.isOf userId vaultId)

/-- The state of the user's vault, if there is one. -/
def vaultDepositReady (t : Tables) (userId vaultId : String) :
    Option DepositReady :=
  (t.vaults.rows.find? (·.isOf userId vaultId)).map VaultRow.depositReady

/-- `numeric(40,0)` -/
def numericOverflow : Failure := databaseError "numeric field overflow"

/-- `on conflict (deposit_id) do nothing` -/
def Tables.createUserDeposit (t : Tables) (row : DepositRow) :
    Tables × Except Failure Unit :=
  if 10 ^ 40 ≤ row.amount_usdc_7dp then (t, .error numericOverflow)
  else if ∃ r ∈ t.deposits.rows, r.deposit_id = row.deposit_id then
    (t, .ok ())
  else
    match t.deposits.insert row with
    | some deposits => ({ t with deposits }, .ok ())
    | none => (t, .error duplicateKey)

/-- What the update makes of a row: that of the id gets the burn's hash,
any other stays. -/
def DepositRow.burned (depositId burnTxHash : String) (r : DepositRow) :
    DepositRow :=
  if r.deposit_id = depositId then
    { r with source_tx_hash := some burnTxHash, state := .burn_submitted }
  else r

/-- The unique columns stay. -/
theorem DepositRow.burned_keys (depositId burnTxHash : String)
    (r : DepositRow) :
    (r.burned depositId burnTxHash).deposit_id = r.deposit_id
      ∧ (r.burned depositId burnTxHash).idempotency_key
        = r.idempotency_key := by
  unfold DepositRow.burned
  split <;> exact ⟨rfl, rfl⟩

/-- `update cctp_deposits set source_tx_hash = $2, state =
'burn_submitted'` -/
def Tables.setDepositBurnTx (t : Tables) (depositId burnTxHash : String) :
    Tables where
  __ := t
  deposits := t.deposits.map (DepositRow.burned depositId burnTxHash)
    fun a b h => by
      have ha := a.burned_keys depositId burnTxHash
      have hb := b.burned_keys depositId burnTxHash
      rwa [DepositRow.Clash, ha.1, ha.2, hb.1, hb.2] at h

/-- The look-up `enqueue` begins with. -/
def jobByKey (t : Tables) (key : String) : Option JobRow :=
  t.jobs.rows.find? (·.idempotency_key = some key)

/-- What the database draws. -/
structure Draw where
  uuid : String

/-- The row `enqueue` inserts. -/
def newJob (jobType : String) (payload : JobPayload) (key : String)
    (draw : Draw) : JobRow where
  job_id := draw.uuid
  queue := .relayer
  job_type := jobType
  idempotency_key := some key
  payload := payload

/-- What each statement does to the tables and what it returns. -/
def performTables (draw : Draw) (t : Tables) :
    (q : Query) → Tables × Except Failure q.Answer
  | .userOwnsWallet userId address =>
      (t, .ok (UserDeposits.userOwnsWallet t userId address))
  | .userOwnsVault userId vaultId =>
      (t, .ok (UserDeposits.userOwnsVault t userId vaultId))
  | .vaultDepositReady userId vaultId =>
      (t, .ok (UserDeposits.vaultDepositReady t userId vaultId))
  | .criticalRootMismatchCount => (t, .ok t.findings)
  | .createUserDeposit row => t.createUserDeposit row
  | .getDepositForUser userId depositId =>
      (t, .ok (t.deposits.rows.find? fun r =>
        r.deposit_id = depositId ∧ r.user_id = userId))
  | .setDepositBurnTx depositId burnTxHash =>
      (t.setDepositBurnTx depositId burnTxHash, .ok ())
  | .jobByKey key => (t, .ok (UserDeposits.jobByKey t key))
  | .insertJob jobType payload key =>
      let job := newJob jobType payload key draw
      match t.jobs.insert job with
      | some jobs => ({ t with jobs }, .ok job)
      | none => (t, .error duplicateKey)
  | .event _ => (t, .ok ())
  | .logActivity _ => (t, .ok ())

-- ============================================================== the trace

/-- What a check found. -/
inductive Sight
  | wallet (userId address : String)
  | vault (userId vaultId : String)

/-- What is seen holds of the tables. -/
def Sight.In (t : Tables) : Sight → Prop
  | .wallet userId address => userOwnsWallet t userId address = true
  | .vault userId vaultId =>
      ∃ r ∈ vaultDepositReady t userId vaultId, r.ready = true

/-- The tables, with a book of what was seen in them and of who made a
statement. -/
structure World where
  tables : Tables
  seen : List Sight
  callers : List (ℕ × Request)

/-- What a statement sees. -/
def sights (t : Tables) : Query → List Sight
  | .userOwnsWallet userId address =>
      if userOwnsWallet t userId address then [.wallet userId address]
      else []
  | .vaultDepositReady userId vaultId =>
      if (vaultDepositReady t userId vaultId).any (·.ready) then
        [.vault userId vaultId]
      else []
  | _ => []

/-- A statement, entered into the book. -/
def perform (i : ℕ) (draw : Draw) (w : World) (q : Call) :
    World × Except Failure q.Answer :=
  let (tables, r) := performTables draw w.tables q.query
  ({ tables
     seen := w.seen ++ sights w.tables q.query
     callers := w.callers ++ [(i, q.request)] }, r)

-- ============================================================ environment

/-- `process.env[key] || fallback` -/
def orElse (env : EnvMap) (key fallback : String) : String :=
  ((env key).filter (· ≠ "")).getD fallback

/-- The addresses a deposit is prepared with. -/
structure Settings where
  usdcAddress : String
  tokenMessenger : String
  forwarder : String
  pool : String

/-- From the environment, or else the testnet's. -/
def settings (env : EnvMap) : Settings where
  usdcAddress := orElse env "ARB_SEPOLIA_USDC_ADDRESS"
    Inbound.arbitrumSepoliaUsdc
  tokenMessenger := orElse env "ARB_SEPOLIA_CCTP_TOKEN_MESSENGER"
    Inbound.arbitrumSepoliaTokenMessenger
  forwarder := orElse env "STELLAR_CCTP_FORWARDER_CONTRACT"
    Inbound.stellarCctpForwarder
  pool := orElse env "SHIELDED_POOL_CONTRACT" ""

/-- An error without a status code. -/
def thrown {α : Type} (x : Except String α) : Except Failure α :=
  x.mapError fun message => ⟨500, message⟩

/-- The arguments of `burn_tx_request`. -/
def burnTxRequest (lib : Libraries) (s : Settings) (amount6 : ℕ) :
    Except String Inbound.BurnArgs := do
  let mintRecipient ← Inbound.stellarContractToBytes32 lib s.forwarder
  let destinationCaller ← Inbound.stellarContractToBytes32 lib s.forwarder
  let hookData ← Inbound.encodeStellarForwardHook lib s.pool
  pure
    { amount := amount6
      destinationDomain := Inbound.stellarDomain
      mintRecipient
      burnToken := s.usdcAddress
      destinationCaller
      maxFee := if 0 < amount6 / 1000 then (amount6 / 1000 : ℕ) else 1
      minFinalityThreshold := Inbound.FINALITY_THRESHOLD_CONFIRMED
      hookData }

-- ================================================================= routes

/-- What a route answers. -/
inductive Reply
  | prepared (depositId : String) (settings : Settings) (burn : Inbound.BurnArgs)
      (expectedAmount7Max : ℕ)
  | queued (depositId jobId : String)

/-- The code of a route. -/
abbrev Route : Type → Type := Prog Call.Answer Failure

/-- A backup state in words. -/
def backupText : BackupStatus → String
  | .created => "created"
  | .verified => "verified"
  | .restored => "restored"
  | .failed => "failed"

/-- The refusal's text; a vault that is not there has both fields
undefined. -/
def notReady (ready : Option DepositReady) : String :=
  let backup := ready.elim "undefined" fun r => backupText r.backup_status
  let policy := ready.elim "undefined" fun r =>
    r.recovery_policy_status.text
  "vault not deposit-ready (backup=" ++ backup ++ ", policy=" ++ policy
    ++ ")"

section Routes

variable (lib : Libraries) (env : EnvMap) (sha256Hex : String → String)
  (request : Request)

/-- A statement of this request. -/
abbrev ask (q : Query) : Route q.Answer :=
  Prog.query (Call.mk request q)

/-- What fails counts as no finding. -/
def criticalRootMismatchCount : Route ℕ :=
  tryCatch (ask request .criticalRootMismatchCount) fun _ => pure 0

/-- Refused while the root auditor has findings. -/
def assertRootHealthy : Route Unit := do
  let critical ← criticalRootMismatchCount request
  Prog.ofExcept (reject (critical > 0) 409
    ("ROOT_MISMATCH_CRITICAL: " ++ toString critical
      ++ " unresolved root-audit finding(s); spends are blocked"))

/-- The row that `prepare` stores. -/
def preparedRow (userId idempotencyKey : String) (body : PrepareBody) :
    DepositRow where
  deposit_id := deterministicId sha256Hex "udep"
    [idempotencyKey, body.commitment]
  idempotency_key := idempotencyKey
  user_id := userId
  source_chain := body.source_chain
  source_wallet_address := body.source_wallet_address
  vault_id := body.vault_id
  source_domain := Inbound.arbitrumSepoliaDomain
  destination_domain := Inbound.stellarDomain
  asset_id := (settings env).usdcAddress
  amount_usdc_6dp := body.amount_usdc_6dp
  amount_usdc_7dp := body.amount_usdc_6dp * 10
  commitment := body.commitment
  encrypted_note_payload_hash := body.encrypted_note_payload_hash
  policy_id := body.policy_id
  source_tx_hash := none
  state := .prepared

/-- `POST /v1/deposits/prepare` -/
def prepare (auth : Option Auth) (idempotencyKey : String)
    (body : PrepareBody) : Route Reply := do
  let auth ← Prog.ofExcept (requirePrivyUser auth)
  Prog.ofExcept (reject (body.source_chain ≠ "arbitrum-sepolia") 400
    "unsupported source_chain")
  Prog.ofExcept (reject (body.amount_usdc_6dp = 0) 400
    "amount must be positive")
  let wallet : Bool ← ask request
    (.userOwnsWallet auth.userId body.source_wallet_address)
  Prog.ofExcept (reject (wallet = false) 403
    "source wallet not linked to user")
  let vault : Bool ← ask request (.userOwnsVault auth.userId body.vault_id)
  Prog.ofExcept (reject (vault = false) 403 "vault not owned by user")
  let ready : Option DepositReady ← ask request
    (.vaultDepositReady auth.userId body.vault_id)
  Prog.ofExcept (reject (ready.any (·.ready) = false) 409 (notReady ready))
  assertRootHealthy request
  let burn ← Prog.ofExcept
    (thrown (burnTxRequest lib (settings env) body.amount_usdc_6dp))
  let row := preparedRow env sha256Hex auth.userId idempotencyKey body
  ask request (.createUserDeposit row)
  ask request (.logActivity auth.userId)
  pure (.prepared row.deposit_id (settings env) burn row.amount_usdc_7dp)

/-- The type of the job. -/
def USER_BURN : String := "CCTP_INBOUND_AFTER_USER_BURN"

/-- Its idempotency key. -/
def burnKey (depositId : String) : String := "user-burn:" ++ depositId

/-- No column of a deposit is called `max_fee`. -/
def burnPayload (dep : DepositRow) (body : BurnBody) : BurnPayload where
  deposit_id := dep.deposit_id
  burn_tx_hash := body.burn_tx_hash
  source_wallet_address := body.source_wallet_address
  expected_amount6 := toString dep.amount_usdc_6dp
  commitment := dep.commitment
  vault_id := dep.vault_id
  expected_finality := Inbound.FINALITY_THRESHOLD_CONFIRMED
  expected_max_fee6 := none
  encryptedNotePayloadHashHex := dep.encrypted_note_payload_hash
  policyIdHex := dep.policy_id

/-- `queue.enqueue` with a key. -/
def enqueue (jobType : String) (payload : JobPayload) (key : String) :
    Route JobRow := do
  let existing : Option JobRow ← ask request (.jobByKey key)
  match existing with
  | some row => pure row
  | none => do
      let row : JobRow ← ask request (.insertJob jobType payload key)
      ask request (.event row.job_id)
      pure row

/-- `POST /v1/deposits/:deposit_id/burn-submitted` -/
def burnSubmitted (auth : Option Auth) (depositId : String)
    (body : BurnBody) : Route Reply := do
  let auth ← Prog.ofExcept (requirePrivyUser auth)
  let dep : Option DepositRow ← ask request
    (.getDepositForUser auth.userId depositId)
  let dep ← Prog.ofExcept (Exec.orPanic ⟨404, "deposit not found"⟩ dep)
  Prog.ofExcept (reject (Inbound.toLowerCase dep.source_wallet_address
    ≠ Inbound.toLowerCase body.source_wallet_address) 403 "wallet mismatch")
  ask request (.setDepositBurnTx depositId body.burn_tx_hash)
  let job ← enqueue request USER_BURN (.userBurn (burnPayload dep body))
    (burnKey depositId)
  ask request (.logActivity auth.userId)
  pure (.queued depositId job.job_id)

end Routes

/-- The route's handler. -/
def Request.code (lib : Libraries) (env : EnvMap)
    (sha256Hex : String → String) (request : Request) : Route Reply :=
  match request with
  | .prepare auth idempotencyKey body =>
      UserDeposits.prepare lib env sha256Hex request auth idempotencyKey
        body
  | .burnSubmitted auth depositId body =>
      UserDeposits.burnSubmitted request auth depositId body

-- ================================================================ relayer

/-- What the relayer reads of the payload; the fields it misses are read
as `undefined`. -/
def relayed (p : BurnPayload) : Inbound.InboundPayload where
  pool := none
  amount6 := none
  commitmentHex := "undefined"
  commitment := p.commitment
  encryptedNotePayloadHashHex := p.encryptedNotePayloadHashHex
  policyIdHex := p.policyIdHex
  newRootHex := "undefined"
  coinPath := none
  burnTxHash := p.burn_tx_hash
  sourceWalletAddress := p.source_wallet_address
  expectedAmount6 := p.expected_amount6
  expectedMaxFee6 := p.expected_max_fee6
  expectedFinality := some p.expected_finality

/-- What the relayer makes of the transaction it finds for the burn. -/
def relayerAccepts (lib : Libraries) (relayer : EnvMap) (p : BurnPayload)
    (tx : Inbound.ArbTx) (status : ℕ) :
    Except String Inbound.BurnValidation := do
  let pool ← Inbound.relayerPool relayer (relayed p)
  let expected ← Inbound.expectedBurn (relayed p) pool
  Inbound.validateBurn lib relayer expected tx status

-- ================================================================= system

/-- What becomes of a statement, and what is drawn. -/
abbrev Choice := Statement.Choice Draw

/-- A job of another route or service. -/
def JobRow.Foreign (job : JobRow) : Prop :=
  job.job_type ≠ USER_BURN
    ∧ ∀ key ∈ job.idempotency_key, ¬"user-burn:".toList <+: key.toList

instance (job : JobRow) : Decidable job.Foreign :=
  inferInstanceAs (Decidable (_ ∧ _))

/-- What other routes and the auditor do to the tables in between. -/
inductive Outside
  | wallets (rows : Table WalletRow WalletRow.Clash)
  | vaults (rows : Table VaultRow VaultRow.Clash)
  | findings (n : ℕ)
  | enqueued (job : JobRow)

/-- A job they queue is none of a user burn. -/
def Tables.happen (t : Tables) : Outside → Option Tables
  | .wallets rows => some { t with wallets := rows }
  | .vaults rows => some { t with vaults := rows }
  | .findings n => some { t with findings := n }
  | .enqueued job =>
      if job.Foreign then
        (t.jobs.insert job).map fun jobs => { t with jobs }
      else none

/-- The two routes as a system of requests over the tables. -/
def userDeposits (lib : Libraries) (env : EnvMap)
    (sha256Hex : String → String) :
    System Call.Answer Failure Reply Request World Choice Outside where
  code := Request.code lib env sha256Hex
  exec i := Statement.exec (perform i) lost
  outside e w := (w.tables.happen e).map fun tables => ({ w with tables }, [])

/-- A state of the system. -/
abbrev Service := Machine Call.Answer Failure Reply Request World

/-- An event of it. -/
abbrev ServiceEvent := MachineEvent Request Choice Outside

/-- No deposit was prepared yet. -/
def opening (wallets : Table WalletRow WalletRow.Clash)
    (vaults : Table VaultRow VaultRow.Clash) (findings : ℕ) : Service :=
  ⟨⟨⟨wallets, vaults, findings, .empty, .empty⟩, [], []⟩, []⟩

end Lumix.Services.UserDeposits
