/-
Signing in with a wallet.

A client asks for a nonce, signs the message it comes in, and posts the
signature; the server spends the nonce, finds or creates the user of the
wallet and opens a session, of which it stores the hash of a token only.
A wallet is added to an account with a nonce in the same way. Requests
are programs of statements without a transaction, and interleave.

This is the authentication of ENABLE_LEGACY_WALLET_AUTH, where Privy is
not configured; who a wallet is added for was authenticated before.

Every statement carries the request it is made for. `spent`, `gained`
and `owners` are for the reader: which nonce each process spent, which
session or wallet it had for it, and which user a wallet belonged to at
some time. The routes of other modules may rewrite the wallets as they
please (`Outside.wallets`).
-/
import Lumix.Lib.Text
import Lumix.Services.Vaults

namespace Lumix.Services.WalletAuth

open Text Vaults

-- ============================================================= signatures

/-- The text a wallet signs. -/
def authMessage (walletType : WalletType) (address nonce : String) :
    String :=
  let name := match walletType with
    | .EVM => "EVM"
    | .STELLAR => "STELLAR"
  "LumixProtocol Testnet wants you to sign in with your " ++ name
    ++ " wallet:\n" ++ address ++ "\n\nNonce: " ++ nonce

/-- What ethers, the Stellar SDK and Node do; all but the decoder may
throw. -/
structure SignatureLib where
  /-- the address with its checksum -/
  getAddress : String → Except Failure String
  /-- the address whose key signed the message -/
  verifyMessage : (message signature : String) → Except Failure String
  /-- `Keypair.fromPublicKey(address).verify(data, signature)` -/
  keypairVerify : (address : String) → (data signature : List UInt8) →
    Except Failure Bool
  /-- `Buffer.from(_, "base64")` -/
  bufferFromBase64 : String → List UInt8

/-- All characters are hexadecimal digits. -/
def isHex (s : String) : Bool :=
  s.toList.all fun c => (digitValue c).any (· < 16)

/-- An EVM signature recovers the address; a Stellar one verifies under
it. -/
def verifySignature (lib : SignatureLib) (walletType : WalletType)
    (address message signature : String) : Except Failure Bool :=
  match walletType with
  | .EVM => do
      let recovered ← lib.verifyMessage message signature
      pure ((← lib.getAddress recovered) = (← lib.getAddress address))
  | .STELLAR =>
      let sig :=
        if isHex signature = true ∧ signature.length = 128 then
          bufferFromHex signature
        else lib.bufferFromBase64 signature
      lib.keypairVerify address (utf8 message) sig

/-- What throws does not verify. -/
def verifyWalletSignature (lib : SignatureLib) (walletType : WalletType)
    (address message signature : String) : Bool :=
  match verifySignature lib walletType address message signature with
  | .ok b => b
  | .error _ => false

/-- What the routes of the wallets are run with. -/
def SignatureLib.walletLib (lib : SignatureLib) : WalletLib where
  getAddress := lib.getAddress
  verifyWalletSignature := verifyWalletSignature lib

-- ================================================================= tables

/-- A row of `user_sessions`. -/
structure SessionRow where
  id : String
  user_id : String
  session_hash : String
  expires_at : ℕ
  revoked_at : Option ℕ
deriving DecidableEq

/-- Both columns are unique. -/
def SessionRow.Clash (a b : SessionRow) : Prop :=
  a.id = b.id ∨ a.session_hash = b.session_hash

instance : DecidableRel SessionRow.Clash := fun _ _ => instDecidableOr

instance : Std.Symm SessionRow.Clash where
  symm _ _ h := h.imp Eq.symm Eq.symm

/-- The id of a nonce is unique. -/
def SameId (a b : NonceRow) : Prop := a.id = b.id

instance : DecidableRel SameId := fun a b => instDecidableEqString a.id b.id

instance : Std.Symm SameId where
  symm _ _ h := Eq.symm h

/-- The tables of the routes. -/
structure Tables where
  nonces : Table NonceRow SameId
  users : Table String (· = ·)
  wallets : Table WalletRow WalletRow.Clash
  sessions : Table SessionRow SessionRow.Clash

-- =============================================================== requests

/-- The body of `POST /v1/auth/evm/verify` and its sibling. -/
structure VerifyBody where
  address : String
  signature : String
  nonce : String
deriving DecidableEq

/-- `token` is what `readSessionToken` found. -/
inductive Request
  | nonce (walletType : WalletType) (address : String)
  | verify (walletType : WalletType) (body : VerifyBody)
  | addWallet (auth : Option Auth) (body : AddWalletBody)
  | session (token : Option String)
  | logout (token : Option String)

/-- What a route answers. -/
inductive Reply
  | nonce (walletType : WalletType) (address nonce message : String)
  | session (userId token : String) (walletType : WalletType)
      (address : String)
  | wallet (walletId : String)
  | authenticated (userId : Option String)
  | loggedOut

-- ============================================================= statements

/-- A statement, or a draw of the process itself. -/
inductive Query
  | randomUUID
  | randomBytes
  | dateNow
  | createNonce (walletType : WalletType) (address nonce message : String)
      (expiresAt : ℕ)
  | consumeNonce (walletType : WalletType) (address nonce : String)
  | walletUser (walletType : WalletType) (address : String)
  | touchUser (userId : String)
  | insertUser
  | insertProfile (userId : String)
  | insertWallet (userId : String) (walletType : WalletType)
      (chain address : String)
  | addWallet (userId : String) (walletType : WalletType)
      (chain address : String)
  | createSession (userId sessionHash : String) (expiresAt : ℕ)
  | userIdForSession (sessionHash : String)
  | revokeSession (sessionHash : String)
  | logActivity (userId : String)

/-- What each statement returns. -/
@[reducible]
def Query.Answer : Query → Type
  | .randomUUID => String
  | .randomBytes => List UInt8
  | .dateNow => ℕ
  | .consumeNonce _ _ _ => Option String
  | .walletUser _ _ => Option String
  | .insertUser => String
  | .addWallet _ _ _ _ => String
  | .userIdForSession _ => Option String
  | _ => Unit

/-- A statement, and the request that makes it. -/
structure Call where
  request : Request
  query : Query

/-- The statement's. -/
@[reducible]
def Call.Answer (q : Call) : Type := q.query.Answer

/-- The time, a fresh id, bytes, and which of several newest rows comes
first. -/
structure Draw where
  now : ℕ
  uuid : String
  bytes : List UInt8
  pick : ℕ

/-- Of this wallet, neither consumed nor expired. -/
def NonceRow.Usable (walletType : WalletType) (address nonce : String)
    (now : ℕ) (r : NonceRow) : Prop :=
  r.wallet_type = walletType ∧ r.address = address ∧ r.nonce = nonce
    ∧ r.consumed_at = none ∧ now < r.expires_at

instance (walletType : WalletType) (address nonce : String) (now : ℕ)
    (r : NonceRow) :
    Decidable (NonceRow.Usable walletType address nonce now r) :=
  inferInstanceAs (Decidable (_ ∧ _))

/-- The newest usable row; one of them, where several are as new. -/
def usableNonce (t : Tables) (draw : Draw) (walletType : WalletType)
    (address nonce : String) : Option NonceRow :=
  let rows := t.nonces.rows.filter
    (NonceRow.Usable walletType address nonce draw.now ·)
  let newest := rows.filter fun r =>
    ∀ r' ∈ rows, r'.created_at ≤ r.created_at
  newest[draw.pick % newest.length]?

/-- What consuming makes of a row. -/
def NonceRow.consume (id : String) (now : ℕ) (r : NonceRow) : NonceRow :=
  if r.id = id then { r with consumed_at := some now } else r

/-- It keeps its id. -/
@[simp]
theorem NonceRow.consume_id (id : String) (now : ℕ) (r : NonceRow) :
    (NonceRow.consume id now r).id = r.id := by
  unfold NonceRow.consume
  split <;> rfl

/-- `update auth_nonces set consumed_at = now()` -/
def Tables.consumeNonce (t : Tables) (id : String) (now : ℕ) : Tables where
  __ := t
  nonces := t.nonces.map (NonceRow.consume id now) fun a b h => by
    rwa [SameId, NonceRow.consume_id, NonceRow.consume_id] at h

/-- What revoking makes of a row. -/
def SessionRow.revoke (sessionHash : String) (now : ℕ) (r : SessionRow) :
    SessionRow :=
  if r.session_hash = sessionHash then { r with revoked_at := some now }
  else r

/-- It keeps its id, -/
@[simp]
theorem SessionRow.revoke_id (sessionHash : String) (now : ℕ)
    (r : SessionRow) : (r.revoke sessionHash now).id = r.id := by
  unfold SessionRow.revoke
  split <;> rfl

/-- its hash -/
@[simp]
theorem SessionRow.revoke_hash (sessionHash : String) (now : ℕ)
    (r : SessionRow) :
    (r.revoke sessionHash now).session_hash = r.session_hash := by
  unfold SessionRow.revoke
  split <;> rfl

/-- and its user. -/
@[simp]
theorem SessionRow.revoke_user (sessionHash : String) (now : ℕ)
    (r : SessionRow) :
    (r.revoke sessionHash now).user_id = r.user_id := by
  unfold SessionRow.revoke
  split <;> rfl

/-- `update user_sessions set revoked_at = now()` -/
def Tables.revokeSession (t : Tables) (sessionHash : String) (now : ℕ) :
    Tables where
  __ := t
  sessions := t.sessions.map (SessionRow.revoke sessionHash now)
    fun a b h => by
      rwa [SessionRow.Clash, SessionRow.revoke_id, SessionRow.revoke_id,
        SessionRow.revoke_hash, SessionRow.revoke_hash] at h

/-- `on conflict … do update set chain` -/
def Tables.setChain (t : Tables) (walletType : WalletType)
    (address chain : String) : Tables where
  __ := t
  wallets := t.wallets.map
    (fun r => if r.is walletType address then { r with chain } else r)
    fun a b h => by
      have hkey : ∀ r : WalletRow,
          (if r.is walletType address then { r with chain } else r).id = r.id
          ∧ (if r.is walletType address then
              { r with chain } else r).wallet_type = r.wallet_type
          ∧ (if r.is walletType address then
              { r with chain } else r).address = r.address := by
        intro r
        split <;> exact ⟨rfl, rfl, rfl⟩
      rw [WalletRow.Clash, (hkey a).1, (hkey a).2.1, (hkey a).2.2,
        (hkey b).1, (hkey b).2.1, (hkey b).2.2] at h
      exact h

/-- The row of a wallet that signed in for the first time. -/
def primaryWallet (userId : String) (walletType : WalletType)
    (chain address : String) (draw : Draw) : WalletRow where
  id := draw.uuid
  user_id := userId
  privy_user_id := none
  wallet_type := walletType
  wallet_source := none
  chain := chain
  address := address
  privy_wallet_id := none
  is_primary := true
  verified_at := some draw.now

/-- The row a session is inserted as. -/
def newSession (userId sessionHash : String) (expiresAt : ℕ) (draw : Draw) :
    SessionRow where
  id := draw.uuid
  user_id := userId
  session_hash := sessionHash
  expires_at := expiresAt
  revoked_at := none

/-- The row a nonce is inserted as. -/
def newNonce (walletType : WalletType) (address nonce message : String)
    (expiresAt : ℕ) (draw : Draw) : NonceRow where
  id := draw.uuid
  wallet_type := walletType
  address := address
  nonce := nonce
  message := message
  consumed_at := none
  expires_at := expiresAt
  created_at := draw.now

/-- Of this hash, neither revoked nor expired. -/
def SessionRow.Live (sessionHash : String) (now : ℕ) (r : SessionRow) :
    Prop :=
  r.session_hash = sessionHash ∧ r.revoked_at = none ∧ now < r.expires_at

instance (sessionHash : String) (now : ℕ) (r : SessionRow) :
    Decidable (r.Live sessionHash now) :=
  inferInstanceAs (Decidable (_ ∧ _))

/-- Whose the live session of a hash is. -/
def userIdForSession (t : Tables) (sessionHash : String) (now : ℕ) :
    Option String :=
  (t.sessions.rows.find? (SessionRow.Live sessionHash now ·)).map (·.user_id)

/-- An insertion that may violate a constraint. -/
def inserted {α : Type} (t : Tables) (table : Option α)
    (put : α → Tables) : Tables × Except Failure Unit :=
  match table with
  | some rows => (put rows, .ok ())
  | none => (t, .error duplicateKey)

/-- What each statement does to the tables and what it returns. -/
def performTables (draw : Draw) (t : Tables) :
    (q : Query) → Tables × Except Failure q.Answer
  | .randomUUID => (t, .ok draw.uuid)
  | .randomBytes => (t, .ok draw.bytes)
  | .dateNow => (t, .ok draw.now)
  | .createNonce walletType address nonce message expiresAt =>
      inserted t
        (t.nonces.insert
          (newNonce walletType address nonce message expiresAt draw))
        fun nonces => { t with nonces }
  | .consumeNonce walletType address nonce =>
      match usableNonce t draw walletType address nonce with
      | none => (t, .ok none)
      | some r => (t.consumeNonce r.id draw.now, .ok (some r.message))
  | .walletUser walletType address =>
      (t, .ok ((t.wallets.rows.find? (·.is walletType address)).map
        (·.user_id)))
  | .touchUser _ => (t, .ok ())
  | .insertUser =>
      match t.users.insert draw.uuid with
      | some users => ({ t with users }, .ok draw.uuid)
      | none => (t, .error duplicateKey)
  | .insertProfile _ => (t, .ok ())
  | .insertWallet userId walletType chain address =>
      inserted t
        (t.wallets.insert
          (primaryWallet userId walletType chain address draw))
        fun wallets => { t with wallets }
  | .addWallet userId walletType chain address =>
      match t.wallets.rows.find? (·.is walletType address) with
      | some r => (t.setChain walletType address chain, .ok r.id)
      | none =>
          match t.wallets.insert (addedWallet userId walletType chain
              address ⟨draw.now, draw.uuid, draw.pick⟩) with
          | some wallets => ({ t with wallets }, .ok draw.uuid)
          | none => (t, .error duplicateKey)
  | .createSession userId sessionHash expiresAt =>
      inserted t
        (t.sessions.insert (newSession userId sessionHash expiresAt draw))
        fun sessions => { t with sessions }
  | .userIdForSession sessionHash =>
      (t, .ok (WalletAuth.userIdForSession t sessionHash draw.now))
  | .revokeSession sessionHash => (t.revokeSession sessionHash draw.now,
      .ok ())
  | .logActivity _ => (t, .ok ())

-- =============================================================== the trace

/-- A nonce, as it was found, and who spent it. -/
structure Spent where
  proc : ℕ
  request : Request
  row : NonceRow
  spentAt : ℕ

/-- What a nonce is spent for. -/
inductive Gain
  | session (row : SessionRow)
  | wallet (userId : String) (walletType : WalletType) (address : String)

/-- A gain, and the request that made it. -/
structure Gained where
  proc : ℕ
  request : Request
  gain : Gain

/-- A kind of wallet, its address and its user. -/
abbrev Owner := WalletType × String × String

/-- The tables, with a book of the nonces that were spent, of what was
gained, and of whom every wallet ever belonged to. -/
structure World where
  tables : Tables
  spent : List Spent
  gained : List Gained
  owners : List Owner

/-- The nonce a statement spends. -/
def spends (i : ℕ) (draw : Draw) (t : Tables) (q : Call) : List Spent :=
  match q.query with
  | .consumeNonce walletType address nonce =>
      (usableNonce t draw walletType address nonce).toList.map fun r =>
        ⟨i, q.request, r, draw.now⟩
  | _ => []

/-- The session or wallet it makes. -/
def gains (i : ℕ) (draw : Draw) (t : Tables) (q : Call) : List Gained :=
  match q.query with
  | .createSession userId sessionHash expiresAt =>
      let row := newSession userId sessionHash expiresAt draw
      if (t.sessions.insert row).isSome then
        [⟨i, q.request, .session row⟩]
      else []
  | .addWallet userId walletType _ address =>
      [⟨i, q.request, .wallet userId walletType address⟩]
  | _ => []

/-- Whom the wallets belong to. -/
def ownersOf (t : Tables) : List Owner :=
  t.wallets.rows.map fun r => (r.wallet_type, r.address, r.user_id)

/-- A statement, entered into the book. -/
def perform (i : ℕ) (draw : Draw) (w : World) (q : Call) :
    World × Except Failure q.Answer :=
  let (tables, r) := performTables draw w.tables q.query
  ({ tables
     spent := w.spent ++ spends i draw w.tables q
     gained := w.gained ++ gains i draw w.tables q
     owners := w.owners ++ ownersOf tables }, r)

-- ================================================================= routes

/-- Ten minutes. -/
def NONCE_TTL : ℕ := 1000 * 60 * 10

/-- Seven days. -/
def SESSION_TTL : ℕ := 1000 * 60 * 60 * 24 * 7

/-- The code of a route. -/
abbrev Route : Type → Type := Prog Call.Answer Failure

section Routes

variable (lib : SignatureLib) (sha256Hex : String → String)
  (request : Request)

/-- A statement of this request. -/
abbrev ask (q : Query) : Route q.Answer :=
  Prog.query (Call.mk request q)

/-- A UUID without its hyphens. -/
def randomNonce (uuid : String) : String :=
  String.ofList (uuid.toList.filter (· ≠ '-'))

/-- `POST /v1/auth/nonce` -/
def createNonce (walletType : WalletType) (address : String) :
    Route Reply := do
  let address ← Prog.ofExcept
    (normalizeAddress lib.walletLib walletType address)
  let uuid : String ← ask request .randomUUID
  let nonce := randomNonce uuid
  let message := authMessage walletType address nonce
  let now : ℕ ← ask request .dateNow
  ask request (.createNonce walletType address nonce message
    (now + NONCE_TTL))
  pure (.nonce walletType address nonce message)

/-- The wallet's user, or a new one. -/
def upsertUserByWallet (walletType : WalletType) (chain address : String) :
    Route String := do
  let existing : Option String ←
    ask request (.walletUser walletType address)
  match existing with
  | some userId => do
      ask request (.touchUser userId)
      pure userId
  | none => do
      let userId : String ← ask request .insertUser
      ask request (.insertProfile userId)
      ask request (.insertWallet userId walletType chain address)
      pure userId

/-- `verifyHandler`; an empty message counts as none. -/
def verifyHandler (walletType : WalletType) (body : VerifyBody) :
    Route Reply := do
  let address ← Prog.ofExcept
    (normalizeAddress lib.walletLib walletType body.address)
  let message : Option String ←
    ask request (.consumeNonce walletType address body.nonce)
  let message ← Prog.ofExcept
    (Exec.orPanic ⟨401, "invalid or expired nonce"⟩
      (message.filter (· ≠ "")))
  Prog.ofExcept (reject (verifyWalletSignature lib walletType address
    message body.signature = false) 401 "signature verification failed")
  let userId ← upsertUserByWallet request walletType (CHAIN_FOR walletType)
    address
  let bytes : List UInt8 ← ask request .randomBytes
  let token := bytesHex bytes
  let now : ℕ ← ask request .dateNow
  ask request (.createSession userId (sha256Hex token) (now + SESSION_TTL))
  ask request (.logActivity userId)
  pure (.session userId token walletType address)

/-- `POST /v1/me/wallets` -/
def addWallet (auth : Option Auth) (body : AddWalletBody) :
    Route Reply := do
  let userId ← Prog.ofExcept (authedUser auth)
  let address ← Prog.ofExcept
    (normalizeAddress lib.walletLib body.wallet_type body.address)
  let message : Option String ←
    ask request (.consumeNonce body.wallet_type address body.nonce)
  let message ← Prog.ofExcept
    (Exec.orPanic ⟨401, "wallet signature verification failed"⟩
      (message.filter (· ≠ "")))
  Prog.ofExcept (reject (verifyWalletSignature lib body.wallet_type address
    message body.signature = false) 401
    "wallet signature verification failed")
  let walletId : String ← ask request (.addWallet userId body.wallet_type
    (CHAIN_FOR body.wallet_type) address)
  ask request (.logActivity userId)
  pure (.wallet walletId)

/-- `optionalUser`; an empty token counts as none. -/
def optionalUser (token : Option String) : Route Reply :=
  match token.filter (· ≠ "") with
  | none => pure (.authenticated none)
  | some token => do
      let userId : Option String ←
        ask request (.userIdForSession (sha256Hex token))
      pure (.authenticated userId)

/-- `POST /v1/auth/logout` -/
def logout (token : Option String) : Route Reply := do
  match token.filter (· ≠ "") with
  | none => pure .loggedOut
  | some token => do
      ask request (.revokeSession (sha256Hex token))
      pure .loggedOut

end Routes

/-- The route's handler. -/
def Request.code (lib : SignatureLib) (sha256Hex : String → String)
    (request : Request) : Route Reply :=
  match request with
  | .nonce walletType address =>
      WalletAuth.createNonce lib request walletType address
  | .verify walletType body =>
      verifyHandler lib sha256Hex request walletType body
  | .addWallet auth body => WalletAuth.addWallet lib request auth body
  | .session token => optionalUser sha256Hex request token
  | .logout token => WalletAuth.logout sha256Hex request token

-- ================================================================= system

/-- What becomes of a statement, and what is drawn. -/
abbrev Choice := Statement.Choice Draw

/-- What else happens: other routes rewrite the wallets. -/
inductive Outside
  | wallets (rows : Table WalletRow WalletRow.Clash)

/-- Other routes change the wallets. -/
def World.happen (w : World) : Outside → World
  | .wallets rows =>
      let tables := { w.tables with wallets := rows }
      { w with tables, owners := w.owners ++ ownersOf tables }

/-- The routes as a system of requests over the tables. -/
def walletAuth (lib : SignatureLib) (sha256Hex : String → String) :
    System Call.Answer Failure Reply Request World Choice Outside where
  code := Request.code lib sha256Hex
  exec i := Statement.exec (perform i) lost
  outside e w := some (w.happen e, [])

/-- A state of the system. -/
abbrev Service := Machine Call.Answer Failure Reply Request World

/-- An event of it. -/
abbrev ServiceEvent := MachineEvent Request Choice Outside

/-- Nobody has asked for a nonce yet; users and wallets may be there. -/
def opening (users : Table String (· = ·))
    (wallets : Table WalletRow WalletRow.Clash) : Service :=
  let tables : Tables := ⟨.empty, users, wallets, .empty⟩
  ⟨⟨tables, [], [], ownersOf tables⟩, []⟩

end Lumix.Services.WalletAuth
