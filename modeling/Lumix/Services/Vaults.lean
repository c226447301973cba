/-
The routes of the note vaults and of the wallets.

A vault is an encrypted envelope under an id that its client chose. Two
columns beside it say whether its backup was verified and what its
recovery policy amounts to, and another table lists its wrappers. A
wallet is a type and an address, and belongs to a user. Requests are
programs of statements without a transaction, and interleave.

A body that does not parse, or that the plaintext gate refuses, is
refused before the first of these statements, so bodies come parsed;
`auth` is who the request is authenticated as. Times of creation and the
ids of vaults are left out, as no statement reads them. `verifications`
is for the reader: what was stored whenever a backup was marked.
-/
import Lumix.Lib.Exec
import Lumix.Lib.Program
import Lumix.Lib.Statement
import Lumix.Lib.Table

namespace Lumix.Services.Vaults

-- ============================================================== envelopes

/-- The ways to recover a vault. -/
inductive WrapperType
  | passkey_prf
  | stellar_ed25519_signature
  | recovery_file_secret
  | recovery_kit_password
  | evm_signature
deriving DecidableEq

/-- Whether a wrapper may be used. -/
inductive WrapperStatus
  | active
  | revoked
deriving DecidableEq

/-- What the recovery policy reads of a wrapper. -/
structure RecoveryWrapper where
  type : WrapperType
  status : WrapperStatus
  diagnostic_only : Option Bool
deriving DecidableEq

/-- `rest` is the key derivation, the salt and the wrapped key. -/
structure VaultWrapper extends RecoveryWrapper where
  id : String
  metadata : String
  rest : String
deriving DecidableEq

/-- A vault as a client encrypted it. -/
structure EncryptedVaultEnvelope where
  vault_id : String
  privy_user_id : String
  iv : String
  aad : String
  ciphertext : String
  wrappers : List VaultWrapper
deriving DecidableEq

-- ================================================================= policy

/-- What the wrappers amount to. -/
inductive PolicyStatus
  | insufficient
  | sufficient
  | strong
deriving DecidableEq

/-- A minimum that is no number is none: no count is below it. -/
structure PolicyOpts where
  mainnet : Bool
  min : Option ℕ
  allowEvmOnly : Bool

/-- Active wrappers, not counting EVM signatures and those for diagnosis
only, against a minimum; mainnet asks for two, one of them strong. -/
def evaluateRecoveryPolicy (wrappers : List RecoveryWrapper)
    (opts : PolicyOpts) : PolicyStatus :=
  let active := wrappers.filter (·.status = .active)
  let nonEvm := active.filter fun w =>
    w.type ≠ .evm_signature ∧ w.diagnostic_only ≠ some true
  let strong := active.any fun w =>
    w.type = .passkey_prf ∨ w.type = .stellar_ed25519_signature
  if opts.allowEvmOnly = false ∧ nonEvm.length = 0 then .insufficient
  else if ∃ min ∈ opts.min, nonEvm.length < min then .insufficient
  else if opts.mainnet = true then
    if 2 ≤ nonEvm.length ∧ strong = true then .strong else .insufficient
  else if strong = true ∧ 2 ≤ nonEvm.length then .strong
  else .sufficient

/-- What `recoveryPolicyFor` reads of the environment. -/
structure Env where
  networkMode : Option String
  minMainnet : Option (Option ℕ)
  minTestnet : Option (Option ℕ)
  allowEvmSignatureOnly : Option String

/-- The policy's options, by network. -/
def Env.opts (env : Env) : PolicyOpts :=
  let mainnet : Bool := env.networkMode.getD "testnet" = "mainnet"
  { mainnet
    min := if mainnet then env.minMainnet.getD (some 2)
      else env.minTestnet.getD (some 1)
    allowEvmOnly := env.allowEvmSignatureOnly = some "true" }

/-- The policy with the environment's options. -/
def recoveryPolicyFor (env : Env) (wrappers : List RecoveryWrapper) :
    PolicyStatus :=
  evaluateRecoveryPolicy wrappers env.opts

/-- Of the wrappers an envelope lists. -/
def EncryptedVaultEnvelope.policy (envelope : EncryptedVaultEnvelope)
    (env : Env) : PolicyStatus :=
  recoveryPolicyFor env (envelope.wrappers.map (·.toRecoveryWrapper))

-- ================================================================= tables

/-- `note_vaults.backup_status` -/
inductive BackupStatus
  | created
  | verified
  | restored
  | failed
deriving DecidableEq

/-- What a client says of a backup it decrypted. -/
structure Verification where
  vault_id : String
  decrypted_vault_hash : String
  commitments_hash : String
  method : String
  verified_at_client : String
deriving DecidableEq

/-- A row of `note_vaults`. -/
structure VaultRow where
  user_id : String
  privy_user_id : String
  vault_id : String
  envelope : EncryptedVaultEnvelope
  ciphertext : String
  aad : String
  backup_status : BackupStatus
  recovery_policy_status : PolicyStatus
  last_backup_verified_at : Option ℕ
  last_backup_verification : Option Verification
  last_restored_at : Option ℕ
  updated_at : ℕ
deriving DecidableEq

/-- A row of `note_vault_wrappers`. -/
structure WrapperRow where
  id : String
  vault_id : String
  user_id : String
  wrapper_type : WrapperType
  wrapper_status : WrapperStatus
  metadata : String
deriving DecidableEq

/-- The two chains of wallets. -/
inductive WalletType
  | EVM
  | STELLAR
deriving DecidableEq

/-- A row of `user_wallets`. -/
structure WalletRow where
  id : String
  user_id : String
  privy_user_id : Option String
  wallet_type : WalletType
  wallet_source : Option String
  chain : String
  address : String
  privy_wallet_id : Option String
  is_primary : Bool
  verified_at : Option ℕ
deriving DecidableEq

/-- A row of `auth_nonces`. -/
structure NonceRow where
  id : String
  wallet_type : WalletType
  address : String
  nonce : String
  message : String
  consumed_at : Option ℕ
  expires_at : ℕ
  created_at : ℕ
deriving DecidableEq

-- the unique columns

/-- A vault's id is unique, over all users. -/
def VaultRow.Clash (a b : VaultRow) : Prop := a.vault_id = b.vault_id

/-- So is a wrapper's. -/
def WrapperRow.Clash (a b : WrapperRow) : Prop := a.id = b.id

/-- So are a wallet's id and its address of a kind. -/
def WalletRow.Clash (a b : WalletRow) : Prop :=
  a.id = b.id ∨ (a.wallet_type = b.wallet_type ∧ a.address = b.address)

instance : DecidableRel VaultRow.Clash := fun a b =>
  instDecidableEqString a.vault_id b.vault_id

instance : DecidableRel WrapperRow.Clash := fun a b =>
  instDecidableEqString a.id b.id

instance : DecidableRel WalletRow.Clash := fun _ _ => instDecidableOr

instance : Std.Symm VaultRow.Clash where
  symm _ _ h := Eq.symm h

/-- The tables of the routes. -/
structure Tables where
  noteVaults : Table VaultRow VaultRow.Clash
  wrappers : Table WrapperRow WrapperRow.Clash
  wallets : Table WalletRow WalletRow.Clash
  nonces : List NonceRow

/-- The database, and which envelope each marked backup was of. -/
structure World where
  tables : Tables
  verifications : List (String × EncryptedVaultEnvelope)

-- =============================================================== requests

/-- Whom a request is authenticated as. -/
structure Auth where
  userId : String
  privyUserId : String

/-- A wallet as Privy reports it. -/
structure PrivyWallet where
  wallet_type : WalletType
  wallet_source : Option String
  chain : String
  address : String
  privy_wallet_id : Option String

/-- The body of `POST /v1/me/wallets`. -/
structure AddWalletBody where
  wallet_type : WalletType
  address : String
  signature : String
  nonce : String

/-- A request to one of the routes. -/
inductive Request
  | createVault (auth : Option Auth) (envelope : EncryptedVaultEnvelope)
  | updateVault (auth : Option Auth) (vaultId : String)
      (envelope : EncryptedVaultEnvelope)
  | verifyBackup (auth : Option Auth) (vaultId : String)
      (verification : Verification)
  | markRestored (auth : Option Auth) (vaultId : String)
  | addWrapper (auth : Option Auth) (vaultId : String)
      (wrapper : VaultWrapper) (envelope : EncryptedVaultEnvelope)
  | deleteWrapper (auth : Option Auth) (vaultId wrapperId : String)
  | syncPrivy (auth : Option Auth) (wallets : List PrivyWallet)
  | addWallet (auth : Option Auth) (body : AddWalletBody)
  | deleteWallet (auth : Option Auth) (walletId : String)

/-- Whose it is. -/
def Request.auth : Request → Option Auth
  | .createVault auth _ => auth
  | .updateVault auth _ _ => auth
  | .verifyBackup auth _ _ => auth
  | .markRestored auth _ => auth
  | .addWrapper auth _ _ _ => auth
  | .deleteWrapper auth _ _ => auth
  | .syncPrivy auth _ => auth
  | .addWallet auth _ => auth
  | .deleteWallet auth _ => auth

/-- What is known of a vault's readiness. -/
structure DepositReady where
  ready : Bool
  backup_status : BackupStatus
  recovery_policy_status : PolicyStatus
deriving DecidableEq

/-- What a route answers. -/
inductive Reply
  | vault (vaultId : String) (policy : PolicyStatus)
  | verified (vaultId : String) (ready : Option DepositReady)
  | restored (vaultId : String)
  | wrapper (wrapperId : String) (policy : PolicyStatus)
  | synced (n : ℕ) (wallets : List WalletRow)
  | wallet (walletId : String)
  | deleted

/-- An error with a status code. -/
structure Failure where
  statusCode : ℕ
  message : String
deriving DecidableEq

-- ============================================================= statements

/-- What a vault is stored with. -/
structure VaultInput where
  envelope : EncryptedVaultEnvelope
  ciphertext : String
  aad : String
  recoveryPolicyStatus : PolicyStatus
deriving DecidableEq

/-- The statements, one for each function of `db.ts`. -/
inductive Call
  | createNoteVault (userId privyUserId vaultId : String)
      (input : VaultInput)
  | getNoteVault (userId vaultId : String)
  | updateNoteVault (userId vaultId : String) (input : VaultInput)
  | setVaultBackupVerified (userId vaultId : String)
      (verification : Verification)
  | setVaultRestored (userId vaultId : String)
  | vaultDepositReady (userId vaultId : String)
  | addVaultWrapper (userId vaultId : String) (wrapperType : WrapperType)
      (metadata : String)
  | deleteVaultWrapper (userId vaultId wrapperId : String)
  | syncPrivyWallet (userId privyUserId : String) (w : PrivyWallet)
  | listWallets (userId : String)
  | consumeNonce (walletType : WalletType) (address nonce : String)
  | addWallet (userId : String) (walletType : WalletType)
      (chain address : String)
  | deleteWallet (userId walletId : String)
  | logActivity (userId : String)

/-- What each returns. -/
@[reducible]
def Call.Answer : Call → Type
  | .getNoteVault _ _ => Option VaultRow
  | .updateNoteVault _ _ _ => Bool
  | .setVaultBackupVerified _ _ _ => Bool
  | .setVaultRestored _ _ => Bool
  | .vaultDepositReady _ _ => Option DepositReady
  | .addVaultWrapper _ _ _ _ => String
  | .deleteVaultWrapper _ _ _ => Bool
  | .listWallets _ => List WalletRow
  | .consumeNonce _ _ _ => Option String
  | .addWallet _ _ _ _ => String
  | .deleteWallet _ _ => Bool
  | _ => Unit

/-- The time, a fresh id, and which of several newest rows comes first. -/
structure Draw where
  now : ℕ
  uuid : String
  pick : ℕ

/-- An error of the database is answered as 500. -/
def databaseError (message : String) : Failure := ⟨500, message⟩

/-- A unique constraint is violated. -/
def duplicateKey : Failure :=
  databaseError "duplicate key value violates unique constraint"

/-- A foreign key is. -/
def foreignKey : Failure :=
  databaseError "violates foreign key constraint"

/-- `update note_vaults set … where …` -/
def Tables.updateVaults (t : Tables) (p : VaultRow → Bool)
    (f : VaultRow → VaultRow) (hf : ∀ r, (f r).vault_id = r.vault_id) :
    Tables where
  __ := t
  noteVaults := t.noteVaults.map (fun r => if p r then f r else r)
    fun a b h => by
      have hkey : ∀ r, (if p r then f r else r).vault_id = r.vault_id := by
        intro r
        split
        · exact hf r
        · rfl
      rw [VaultRow.Clash, hkey, hkey] at h
      exact h

/-- `update user_wallets set … where …` -/
def Tables.updateWallets (t : Tables) (p : WalletRow → Bool)
    (f : WalletRow → WalletRow)
    (hf : ∀ r, (f r).id = r.id ∧ (f r).wallet_type = r.wallet_type
      ∧ (f r).address = r.address) : Tables where
  __ := t
  wallets := t.wallets.map (fun r => if p r then f r else r)
    fun a b h => by
      have hkey : ∀ r, (if p r then f r else r).id = r.id
          ∧ (if p r then f r else r).wallet_type = r.wallet_type
          ∧ (if p r then f r else r).address = r.address := by
        intro r
        split
        · exact hf r
        · exact ⟨rfl, rfl, rfl⟩
      rw [WalletRow.Clash, (hkey a).1, (hkey a).2.1, (hkey a).2.2,
        (hkey b).1, (hkey b).2.1, (hkey b).2.2] at h
      exact h

/-- The row is this user's vault of this id. -/
def VaultRow.isOf (userId vaultId : String) (r : VaultRow) : Bool :=
  r.user_id = userId ∧ r.vault_id = vaultId

/-- The row is of this address. -/
def WalletRow.is (walletType : WalletType) (address : String)
    (r : WalletRow) : Bool :=
  r.wallet_type = walletType ∧ r.address = address

/-- What an upsert changes: the envelope and its columns, not the mark
of a backup. -/
def VaultRow.put (input : VaultInput) (now : ℕ) (r : VaultRow) :
    VaultRow :=
  { r with
    envelope := input.envelope
    ciphertext := input.ciphertext
    aad := input.aad
    recovery_policy_status := input.recoveryPolicyStatus
    updated_at := now }

/-- What it inserts: a backup that is created. -/
def newVault (userId privyUserId vaultId : String) (input : VaultInput)
    (now : ℕ) : VaultRow where
  user_id := userId
  privy_user_id := privyUserId
  vault_id := vaultId
  envelope := input.envelope
  ciphertext := input.ciphertext
  aad := input.aad
  backup_status := .created
  recovery_policy_status := input.recoveryPolicyStatus
  last_backup_verified_at := none
  last_backup_verification := none
  last_restored_at := none
  updated_at := now

/-- The upsert: on a conflict whoever owns the row, it is rewritten. -/
def Tables.createNoteVault (t : Tables)
    (userId privyUserId vaultId : String) (input : VaultInput)
    (now : ℕ) : Tables :=
  match t.noteVaults.insert
      (newVault userId privyUserId vaultId input now) with
  | some noteVaults => { t with noteVaults }
  | none => t.updateVaults (·.vault_id = vaultId) (·.put input now)
      fun _ => rfl

/-- Verified, and with a policy that is enough. -/
def VaultRow.depositReady (r : VaultRow) : DepositReady where
  ready := r.backup_status = .verified
    ∧ (r.recovery_policy_status = .sufficient
      ∨ r.recovery_policy_status = .strong)
  backup_status := r.backup_status
  recovery_policy_status := r.recovery_policy_status

/-- The state of the user's vault, if there is one. -/
def vaultDepositReady (t : Tables) (userId vaultId : String) :
    Option DepositReady :=
  (t.noteVaults.rows.find? (·.isOf userId vaultId)).map
    VaultRow.depositReady

/-- The wrappers of a vault. -/
def listVaultWrappers (t : Tables) (vaultId : String) : List WrapperRow :=
  t.wrappers.rows.filter (·.vault_id = vaultId)

/-- The row a synced wallet is inserted as, -/
def syncedWallet (userId privyUserId : String) (w : PrivyWallet)
    (draw : Draw) : WalletRow where
  id := draw.uuid
  user_id := userId
  privy_user_id := some privyUserId
  wallet_type := w.wallet_type
  wallet_source := some (w.wallet_source.getD "external")
  chain := w.chain
  address := w.address
  privy_wallet_id := w.privy_wallet_id
  is_primary := false
  verified_at := some draw.now

/-- and one that was added with a signature. -/
def addedWallet (userId : String) (walletType : WalletType)
    (chain address : String) (draw : Draw) : WalletRow where
  id := draw.uuid
  user_id := userId
  privy_user_id := none
  wallet_type := walletType
  wallet_source := none
  chain := chain
  address := address
  privy_wallet_id := none
  is_primary := false
  verified_at := none

/-- On a conflict the row changes hands. -/
def WalletRow.sync (userId privyUserId : String) (w : PrivyWallet)
    (now : ℕ) (r : WalletRow) : WalletRow :=
  { r with
    user_id := userId
    privy_user_id := some privyUserId
    wallet_source := some (w.wallet_source.getD "external")
    chain := w.chain
    privy_wallet_id := w.privy_wallet_id
    verified_at := some now }

/-- The nonces that can be used, the newest of them. -/
def usableNonces (t : Tables) (walletType : WalletType)
    (address nonce : String) (now : ℕ) : List NonceRow :=
  let rows := t.nonces.filter fun r =>
    r.wallet_type = walletType ∧ r.address = address ∧ r.nonce = nonce
      ∧ r.consumed_at = none ∧ now < r.expires_at
  rows.filter fun r => ∀ r' ∈ rows, r'.created_at ≤ r.created_at

/-- What each statement does to the tables and what it returns. -/
def performTables (draw : Draw) (t : Tables) :
    (q : Call) → Tables × Except Failure q.Answer
  | .createNoteVault userId privyUserId vaultId input =>
      (t.createNoteVault userId privyUserId vaultId input draw.now,
        .ok ())
  | .getNoteVault userId vaultId =>
      (t, .ok (t.noteVaults.rows.find? (·.isOf userId vaultId)))
  | .updateNoteVault userId vaultId input =>
      (t.updateVaults (·.isOf userId vaultId) (·.put input draw.now)
          fun _ => rfl,
        .ok (t.noteVaults.rows.any (·.isOf userId vaultId)))
  | .setVaultBackupVerified userId vaultId verification =>
      (t.updateVaults (·.isOf userId vaultId)
          (fun r => { r with
            backup_status := .verified
            last_backup_verified_at := some draw.now
            last_backup_verification := some verification
            updated_at := draw.now })
          fun _ => rfl,
        .ok (t.noteVaults.rows.any (·.isOf userId vaultId)))
  | .setVaultRestored userId vaultId =>
      (t.updateVaults (·.isOf userId vaultId)
          (fun r => { r with
            backup_status := .restored
            last_restored_at := some draw.now
            updated_at := draw.now })
          fun _ => rfl,
        .ok (t.noteVaults.rows.any (·.isOf userId vaultId)))
  | .vaultDepositReady userId vaultId =>
      (t, .ok (Vaults.vaultDepositReady t userId vaultId))
  | .addVaultWrapper userId vaultId wrapperType metadata =>
      if t.noteVaults.rows.any (·.vault_id = vaultId) then
        match t.wrappers.insert
            { id := draw.uuid
              vault_id := vaultId
              user_id := userId
              wrapper_type := wrapperType
              wrapper_status := .active
              metadata := metadata } with
        | some wrappers => ({ t with wrappers }, .ok draw.uuid)
        | none => (t, .error duplicateKey)
      else (t, .error foreignKey)
  | .deleteVaultWrapper userId vaultId wrapperId =>
      let p (r : WrapperRow) : Bool := r.id = wrapperId
        ∧ r.vault_id = vaultId ∧ r.user_id = userId
      ({ t with wrappers := t.wrappers.filter fun r => !p r },
        .ok (t.wrappers.rows.any p))
  | .syncPrivyWallet userId privyUserId w =>
      if t.wallets.rows.any (·.is w.wallet_type w.address) then
        (t.updateWallets (·.is w.wallet_type w.address)
            (·.sync userId privyUserId w draw.now)
            fun _ => ⟨rfl, rfl, rfl⟩,
          .ok ())
      else
        match t.wallets.insert (syncedWallet userId privyUserId w draw) with
        | some wallets => ({ t with wallets }, .ok ())
        | none => (t, .error duplicateKey)
  | .listWallets userId =>
      (t, .ok (t.wallets.rows.filter (·.user_id = userId)))
  | .consumeNonce walletType address nonce =>
      let newest := usableNonces t walletType address nonce draw.now
      match newest[draw.pick % newest.length]? with
      | none => (t, .ok none)
      | some r =>
          let consume (r' : NonceRow) : NonceRow :=
            if r'.id = r.id then { r' with consumed_at := some draw.now }
            else r'
          ({ t with nonces := t.nonces.map consume }, .ok (some r.message))
  | .addWallet userId walletType chain address =>
      match t.wallets.rows.find? (·.is walletType address) with
      | some r =>
          (t.updateWallets (·.is walletType address) ({ · with chain })
            fun _ => ⟨rfl, rfl, rfl⟩, .ok r.id)
      | none =>
          match t.wallets.insert
              (addedWallet userId walletType chain address draw) with
          | some wallets => ({ t with wallets }, .ok draw.uuid)
          | none => (t, .error duplicateKey)
  | .deleteWallet userId walletId =>
      let p (r : WalletRow) : Bool := r.id = walletId
        ∧ r.user_id = userId ∧ r.is_primary = false
      ({ t with wallets := t.wallets.filter fun r => !p r },
        .ok (t.wallets.rows.any p))
  | .logActivity _ => (t, .ok ())

/-- What is verified with the statement. -/
def Call.verifies (t : Tables) :
    Call → List (String × EncryptedVaultEnvelope)
  | .setVaultBackupVerified userId vaultId _ =>
      (t.noteVaults.rows.filter (·.isOf userId vaultId)).map fun r =>
        (r.vault_id, r.envelope)
  | _ => []

/-- A statement, with the vaults it marked as verified. -/
def perform (draw : Draw) (w : World) (q : Call) :
    World × Except Failure q.Answer :=
  let (tables, r) := performTables draw w.tables q
  ({ tables
     verifications := w.verifications ++ q.verifies w.tables }, r)

/-- What a statement throws whose answer does not come. -/
def lost : Failure := databaseError "Connection terminated unexpectedly"

-- ================================================================= routes

/-- The code of a route. -/
abbrev Route : Type → Type := Prog Call.Answer Failure

/-- One statement. -/
abbrev ask (q : Call) : Route q.Answer := Prog.query q

/-- `if (c) return reply.code(statusCode).send(…)` -/
def reject (c : Prop) [Decidable c] (statusCode : ℕ) (message : String) :
    Except Failure Unit :=
  Exec.panicIf c ⟨statusCode, message⟩

/-- A request of nobody is refused. -/
def requirePrivyUser (auth : Option Auth) : Except Failure Auth :=
  Exec.orPanic ⟨401, "Privy authentication required"⟩ auth

/-- Its user. -/
def authedUser (auth : Option Auth) : Except Failure String :=
  (requirePrivyUser auth).map (·.userId)

/-- What wallets and their signatures are checked with. -/
structure WalletLib where
  getAddress : String → Except Failure String
  verifyWalletSignature : WalletType → String → String → String → Bool

/-- The chain of a wallet's kind. -/
def CHAIN_FOR : WalletType → String
  | .EVM => "arbitrum-sepolia"
  | .STELLAR => "stellar-testnet"

/-- An EVM address in its checksummed spelling. -/
def normalizeAddress (lib : WalletLib) (walletType : WalletType)
    (address : String) : Except Failure String :=
  match walletType with
  | .EVM => lib.getAddress address
  | .STELLAR => .ok address

/-- What an envelope is stored as. -/
def vaultInput (env : Env) (envelope : EncryptedVaultEnvelope) :
    VaultInput where
  envelope := envelope
  ciphertext := envelope.ciphertext
  aad := envelope.aad
  recoveryPolicyStatus := envelope.policy env

/-- `POST /v1/note-vaults` -/
def createVault (env : Env) (auth : Option Auth)
    (envelope : EncryptedVaultEnvelope) : Route Reply := do
  let auth ← Prog.ofExcept (requirePrivyUser auth)
  Prog.ofExcept (reject (envelope.privy_user_id ≠ auth.privyUserId) 403
    "envelope privy_user_id mismatch")
  let policy := envelope.policy env
  ask (.createNoteVault auth.userId auth.privyUserId envelope.vault_id
    (vaultInput env envelope))
  envelope.wrappers.forM fun w => do
    let _ : String ← ask (.addVaultWrapper auth.userId envelope.vault_id
      w.type w.metadata)
    pure ()
  ask (.logActivity auth.userId)
  pure (.vault envelope.vault_id policy)

/-- `PUT /v1/note-vaults/:vault_id` -/
def updateVault (env : Env) (auth : Option Auth) (vaultId : String)
    (envelope : EncryptedVaultEnvelope) : Route Reply := do
  let auth ← Prog.ofExcept (requirePrivyUser auth)
  Prog.ofExcept (reject (envelope.vault_id ≠ vaultId
    ∨ envelope.privy_user_id ≠ auth.privyUserId) 403
    "vault id / identity mismatch")
  let policy := envelope.policy env
  let ok : Bool ← ask (.updateNoteVault auth.userId vaultId
    (vaultInput env envelope))
  Prog.ofExcept (reject (ok = false) 404 "vault not found")
  pure (.vault vaultId policy)

/-- A status in words. -/
def PolicyStatus.text : PolicyStatus → String
  | .insufficient => "insufficient"
  | .sufficient => "sufficient"
  | .strong => "strong"

/-- A vault that is there and has a policy that is enough. -/
def checkVault (vault : Option VaultRow) : Except Failure Unit := do
  let vault ← Exec.orPanic ⟨404, "vault not found"⟩ vault
  reject (vault.recovery_policy_status ≠ .sufficient
    ∧ vault.recovery_policy_status ≠ .strong) 409
    ("recovery policy insufficient ("
      ++ vault.recovery_policy_status.text ++ ")")

/-- `POST /v1/note-vaults/:vault_id/verify-backup` -/
def verifyBackup (auth : Option Auth) (vaultId : String)
    (verification : Verification) : Route Reply := do
  let auth ← Prog.ofExcept (requirePrivyUser auth)
  Prog.ofExcept (reject (verification.vault_id ≠ vaultId) 400
    "verification vault_id mismatch")
  let vault : Option VaultRow ← ask (.getNoteVault auth.userId vaultId)
  Prog.ofExcept (checkVault vault)
  -- whether a row was marked is not looked at
  let _ : Bool ← ask (.setVaultBackupVerified auth.userId vaultId
    verification)
  ask (.logActivity auth.userId)
  let ready : Option DepositReady ←
    ask (.vaultDepositReady auth.userId vaultId)
  pure (.verified vaultId ready)

/-- `POST /v1/note-vaults/:vault_id/mark-restored` -/
def markRestored (auth : Option Auth) (vaultId : String) :
    Route Reply := do
  let auth ← Prog.ofExcept (requirePrivyUser auth)
  let ok : Bool ← ask (.setVaultRestored auth.userId vaultId)
  Prog.ofExcept (reject (ok = false) 404 "vault not found")
  ask (.logActivity auth.userId)
  pure (.restored vaultId)

/-- `POST /v1/note-vaults/:vault_id/wrappers` -/
def addWrapper (env : Env) (auth : Option Auth) (vaultId : String)
    (wrapper : VaultWrapper) (envelope : EncryptedVaultEnvelope) :
    Route Reply := do
  let auth ← Prog.ofExcept (requirePrivyUser auth)
  Prog.ofExcept (reject (envelope.vault_id ≠ vaultId) 403
    "vault id mismatch")
  let policy := envelope.policy env
  -- whether a row was updated is not looked at
  let _ : Bool ← ask (.updateNoteVault auth.userId vaultId
    (vaultInput env envelope))
  let wrapperId : String ← ask (.addVaultWrapper auth.userId vaultId
    wrapper.type wrapper.metadata)
  pure (.wrapper wrapperId policy)

/-- `DELETE /v1/note-vaults/:vault_id/wrappers/:wrapper_id` -/
def deleteWrapper (auth : Option Auth) (vaultId wrapperId : String) :
    Route Reply := do
  let auth ← Prog.ofExcept (requirePrivyUser auth)
  let ok : Bool ← ask (.deleteVaultWrapper auth.userId vaultId wrapperId)
  Prog.ofExcept (reject (ok = false) 404 "wrapper not found")
  pure .deleted

/-- `POST /v1/me/wallets/sync-privy` -/
def syncPrivy (auth : Option Auth) (wallets : List PrivyWallet) :
    Route Reply := do
  let auth ← Prog.ofExcept (requirePrivyUser auth)
  wallets.forM fun w =>
    ask (.syncPrivyWallet auth.userId auth.privyUserId w)
  ask (.logActivity auth.userId)
  let rows : List WalletRow ← ask (.listWallets auth.userId)
  pure (.synced wallets.length rows)

/-- A nonce that was found, and a signature of its message. -/
def checkSignature (lib : WalletLib) (body : AddWalletBody)
    (address : String) (message : Option String) : Except Failure Unit :=
  reject (∀ m ∈ message.filter (· ≠ ""), lib.verifyWalletSignature
    body.wallet_type address m body.signature = false) 401
    "wallet signature verification failed"

/-- `POST /v1/me/wallets` -/
def addWallet (lib : WalletLib) (auth : Option Auth)
    (body : AddWalletBody) : Route Reply := do
  let userId ← Prog.ofExcept (authedUser auth)
  let address ← Prog.ofExcept
    (normalizeAddress lib body.wallet_type body.address)
  let message : Option String ←
    ask (.consumeNonce body.wallet_type address body.nonce)
  Prog.ofExcept (checkSignature lib body address message)
  let walletId : String ← ask (.addWallet userId body.wallet_type
    (CHAIN_FOR body.wallet_type) address)
  ask (.logActivity userId)
  pure (.wallet walletId)

/-- `DELETE /v1/me/wallets/:wallet_id` -/
def deleteWallet (auth : Option Auth) (walletId : String) :
    Route Reply := do
  let userId ← Prog.ofExcept (authedUser auth)
  let ok : Bool ← ask (.deleteWallet userId walletId)
  Prog.ofExcept (reject (ok = false) 409
    "cannot delete (not found or primary)")
  pure .deleted

/-- The route's handler. -/
def Request.code (env : Env) (lib : WalletLib) : Request → Route Reply
  | .createVault auth envelope => Vaults.createVault env auth envelope
  | .updateVault auth vaultId envelope =>
      Vaults.updateVault env auth vaultId envelope
  | .verifyBackup auth vaultId verification =>
      Vaults.verifyBackup auth vaultId verification
  | .markRestored auth vaultId => Vaults.markRestored auth vaultId
  | .addWrapper auth vaultId wrapper envelope =>
      Vaults.addWrapper env auth vaultId wrapper envelope
  | .deleteWrapper auth vaultId wrapperId =>
      Vaults.deleteWrapper auth vaultId wrapperId
  | .syncPrivy auth wallets => Vaults.syncPrivy auth wallets
  | .addWallet auth body => Vaults.addWallet lib auth body
  | .deleteWallet auth walletId => Vaults.deleteWallet auth walletId

-- ================================================================= system

/-- What becomes of a statement, and what is drawn. -/
abbrev Choice := Statement.Choice Draw

/-- What else happens: nonces are issued. -/
inductive Outside
  | issueNonce (row : NonceRow)

/-- Another route issues a nonce. -/
def World.happen (w : World) : Outside → World
  | .issueNonce row =>
      { w with tables := { w.tables with
          nonces := w.tables.nonces ++ [row] } }

/-- Requests on one database. -/
def vaults (env : Env) (lib : WalletLib) :
    System Call.Answer Failure Reply Request World Choice Outside where
  code := Request.code env lib
  exec _ := Statement.exec perform lost
  outside e w := some (w.happen e, [])

/-- A state of the routes. -/
abbrev Service := Machine Call.Answer Failure Reply Request World

/-- An event of them. -/
abbrev ServiceEvent := MachineEvent Request Choice Outside

/-- No requests are running. -/
def idle (t : Tables) : Service := ⟨⟨t, []⟩, []⟩

end Lumix.Services.Vaults
