/-
The keys of the committee's nodes, and how a process comes by them.

The secret keys are sealed with AES-256-GCM under a key of the process's
environment and stored in one row a node. A process that starts reads
the rows of its nodes, opens them, and makes and inserts the key pairs
that are missing; an insertion yields to a row that is already there.
Several processes start on one database, and a statement of one falls
between any two of another.
-/
import Lumix.Lib.Exec
import Lumix.Lib.OrderedMap
import Lumix.Lib.Program
import Lumix.Lib.Table
import Lumix.Lib.Text

namespace Lumix.Committee.Keys

open Text

-- ================================================================= rows

/-- AES-256-GCM. Both directions take the key and the initialisation
vector first; an exception is none. A ciphertext comes with its tag of 16
bytes, and what was sealed opens. -/
structure Gcm where
  encrypt : List UInt8 → List UInt8 → List UInt8 →
    Option (List UInt8 × List UInt8)
  decrypt : List UInt8 → List UInt8 → List UInt8 → List UInt8 →
    Option (List UInt8)
  length_tag : ∀ {key iv plain cipher tag},
    encrypt key iv plain = some (cipher, tag) → tag.length = 16
  decrypt_encrypt : ∀ {key iv plain cipher tag},
    encrypt key iv plain = some (cipher, tag) →
      decrypt key iv tag cipher = some plain

/-- A row of `mpc_committee_keys`. -/
structure KeyRow where
  node_id : String
  encryption_pubkey : String
  encryption_secret : String
  signing_pubkey : String
  signing_secret : String
deriving DecidableEq

/-- A key pair of either kind. -/
structure KeyPair where
  publicKey : List UInt8
  secretKey : List UInt8
deriving DecidableEq

/-- A node's two key pairs. -/
structure CommitteeNodeKeyPair where
  nodeId : String
  encryptionKeyPair : KeyPair
  signingKeyPair : KeyPair
deriving DecidableEq

/-- `randomBytes(12)` -/
abbrev Iv := { bytes : List UInt8 // bytes.length = 12 }

/-- What `loadEncryptionKey` throws. -/
def encryptionSecretMissing : String :=
  "MPC_KEY_ENCRYPTION_SECRET must be set to a 32-byte (64 hex char) key "
    ++ "to persist committee keys. Generate one with: openssl rand -hex 32 "
    ++ "— and keep it out of the database (env/KMS only)."

/-- The key the rows are sealed under: the 64 hex digits of
`MPC_KEY_ENCRYPTION_SECRET`. -/
def loadEncryptionKey (env : Option String) :
    Except String (List UInt8) :=
  match env with
  | none => .error encryptionSecretMissing
  | some hex =>
      if hex = "" ∨ utf16Length hex ≠ 64 then
        .error encryptionSecretMissing
      else
        .ok (bufferFromHex hex)

/-- A secret in hexadecimal, encrypted: vector, tag and ciphertext. -/
def encryptSecret (gcm : Gcm) (plainHex : String) (key : List UInt8)
    (iv : Iv) : Except String String :=
  match gcm.encrypt key iv.val (bufferFromHex plainHex) with
  | none => .error "Invalid key length"
  | some (ciphertext, authTag) =>
      .ok (bytesHex (iv.val ++ authTag ++ ciphertext))

/-- The same three taken apart. -/
def decryptSecret (gcm : Gcm) (encHex : String) (key : List UInt8) :
    Except String String :=
  let raw := bufferFromHex encHex
  let iv := raw.take 12
  let authTag := (raw.drop 12).take 16
  let ciphertext := raw.drop 28
  match gcm.decrypt key iv authTag ciphertext with
  | none => .error "Unsupported state or unable to authenticate data"
  | some plaintext => .ok (bytesHex plaintext)

/-- A row decrypted. -/
def rowToKeyPair (gcm : Gcm) (row : KeyRow) (encKey : List UInt8) :
    Except String CommitteeNodeKeyPair := do
  let encryptionSecret ← decryptSecret gcm row.encryption_secret encKey
  let signingSecret ← decryptSecret gcm row.signing_secret encKey
  pure
    { nodeId := row.node_id
      encryptionKeyPair :=
        { publicKey := bufferFromHex row.encryption_pubkey
          secretKey := bufferFromHex encryptionSecret }
      signingKeyPair :=
        { publicKey := bufferFromHex row.signing_pubkey
          secretKey := bufferFromHex signingSecret } }

/-- A pair encrypted, under two vectors. -/
def keyPairToRow (gcm : Gcm) (kp : CommitteeNodeKeyPair)
    (encKey : List UInt8) (iv₁ iv₂ : Iv) : Except String KeyRow := do
  let encryption_secret ←
    encryptSecret gcm (bytesHex kp.encryptionKeyPair.secretKey) encKey iv₁
  let signing_secret ←
    encryptSecret gcm (bytesHex kp.signingKeyPair.secretKey) encKey iv₂
  pure
    { node_id := kp.nodeId
      encryption_pubkey := bytesHex kp.encryptionKeyPair.publicKey
      encryption_secret
      signing_pubkey := bytesHex kp.signingKeyPair.publicKey
      signing_secret }

/-- What was sealed is opened. -/
theorem decryptSecret_encryptSecret {gcm : Gcm} {plainHex encHex : String}
    {key : List UInt8} {iv : Iv}
    (h : encryptSecret gcm plainHex key iv = .ok encHex) :
    decryptSecret gcm encHex key
      = .ok (bytesHex (bufferFromHex plainHex)) := by
  unfold encryptSecret at h
  split at h
  · cases h
  · rename_i ciphertext authTag hseal
    injection h with h
    have htag := gcm.length_tag hseal
    have hiv := iv.property
    have hhead : (iv.val ++ authTag).length = 28 := by
      rw [List.length_append, htag, hiv]
    have htake : (iv.val ++ authTag ++ ciphertext).take 12 = iv.val := by
      rw [List.append_assoc, List.take_left' hiv]
    have hmid : ((iv.val ++ authTag ++ ciphertext).drop 12).take 16
        = authTag := by
      rw [List.append_assoc, List.drop_left' hiv, List.take_left' htag]
    have hdrop : (iv.val ++ authTag ++ ciphertext).drop 28 = ciphertext :=
      List.drop_left' hhead
    simp only [decryptSecret, ← h, bufferFromHex_bytesHex, htake, hmid,
      hdrop, gcm.decrypt_encrypt hseal]

/-- A row holds the key pair it was made from. -/
theorem rowToKeyPair_keyPairToRow {gcm : Gcm} {kp : CommitteeNodeKeyPair}
    {encKey : List UInt8} {iv₁ iv₂ : Iv} {row : KeyRow}
    (h : keyPairToRow gcm kp encKey iv₁ iv₂ = .ok row) :
    row.node_id = kp.nodeId ∧ rowToKeyPair gcm row encKey = .ok kp := by
  unfold keyPairToRow at h
  rw [Exec.bind_eq_ok] at h
  obtain ⟨encryption_secret, hencryption, h⟩ := h
  rw [Exec.bind_eq_ok] at h
  obtain ⟨signing_secret, hsigning, h⟩ := h
  rw [Exec.pure_eq_ok] at h
  subst h
  refine ⟨rfl, ?_⟩
  unfold rowToKeyPair
  rw [Exec.bind_eq_ok]
  refine ⟨_, decryptSecret_encryptSecret hencryption, ?_⟩
  rw [Exec.bind_eq_ok]
  refine ⟨_, decryptSecret_encryptSecret hsigning, ?_⟩
  simp only [bufferFromHex_bytesHex, Exec.pure_eq_ok]

/-- The row's node. -/
theorem nodeId_rowToKeyPair {gcm : Gcm} {row : KeyRow}
    {encKey : List UInt8} {kp : CommitteeNodeKeyPair}
    (h : rowToKeyPair gcm row encKey = .ok kp) :
    kp.nodeId = row.node_id := by
  unfold rowToKeyPair at h
  rw [Exec.bind_eq_ok] at h
  obtain ⟨encryptionSecret, -, h⟩ := h
  rw [Exec.bind_eq_ok] at h
  obtain ⟨signingSecret, -, h⟩ := h
  rw [Exec.pure_eq_ok] at h
  exact h ▸ rfl

-- ============================================================ statements

/-- `mpc_committee_keys`, with its primary key. -/
abbrev KeyTable := Table KeyRow fun a b => a.node_id = b.node_id

/-- The table is there once it has been created. -/
structure Database where
  keys : Option KeyTable

/-- No rows before there is a table. -/
def Database.rows (w : Database) : List KeyRow := w.keys.elim [] Table.rows

/-- The key pairs and the initialisation vectors a process draws. -/
structure Draw where
  encryptionKeyPair : KeyPair
  signingKeyPair : KeyPair
  iv₁ : Iv
  iv₂ : Iv

/-- The statements of `loadOrCreateNodes`. -/
inductive Call
  | createTable
  | select (nodeIds : List String)
  | draw
  | insert (row : KeyRow)

/-- What each returns. -/
@[reducible]
def Call.Answer : Call → Type
  | .createTable => Unit
  | .select _ => List KeyRow
  | .draw => Draw
  | .insert _ => Unit

/-- A statement goes through; or it fails and does nothing; or it goes
through and its answer is lost. -/
inductive Choice
  | go (draw : Draw)
  | fail
  | lose (draw : Draw)

/-- The rows selected only fill a map, so their order is left out. -/
def perform (draw : Draw) (w : Database) :
    (q : Call) → Database × Except String q.Answer
  | .createTable => ({ keys := some (w.keys.getD .empty) }, .ok ())
  | .select nodeIds =>
      match w.keys with
      | none =>
          (w, .error "relation \"mpc_committee_keys\" does not exist")
      | some t => (w, .ok (t.rows.filter (·.node_id ∈ nodeIds)))
  | .draw => (w, .ok draw)
  | .insert row =>
      match w.keys with
      | none =>
          (w, .error "relation \"mpc_committee_keys\" does not exist")
      | some t => ({ keys := some (t.insertOrIgnore row) }, .ok ())

/-- A statement as chosen. -/
def exec (q : Call) (c : Choice) (w : Database) :
    Database × Except String q.Answer :=
  match c with
  | .go draw => perform draw w q
  | .fail => (w, .error "Connection terminated unexpectedly")
  | .lose draw =>
      ((perform draw w q).1, .error "Connection terminated unexpectedly")

-- =============================================================== loading

/-- A process that loads keys; what it throws is the text of its error. -/
abbrev Loading : Type → Type := Prog Call.Answer String

/-- One statement. -/
abbrev ask (q : Call) : Loading q.Answer := Prog.query q

/-- `rowToKeyPair(byId.get(id)!, encKey)` -/
def readKeyPair (gcm : Gcm) (encKey : List UInt8)
    (byId : OrderedMap String KeyRow) (id : String) :
    Except String CommitteeNodeKeyPair :=
  match byId.get id with
  | none =>
      .error "Cannot read properties of undefined (reading 'node_id')"
  | some row => rowToKeyPair gcm row encKey

/-- One pass of the loop: the key pair that is there, or a new one. -/
def loadOrGenerate (gcm : Gcm) (encKey : List UInt8)
    (existing : OrderedMap String CommitteeNodeKeyPair)
    (keypairs : List CommitteeNodeKeyPair) (id : String) :
    Loading (List CommitteeNodeKeyPair) :=
  match existing.get id with
  | some kp => pure (keypairs ++ [kp])
  | none => do
      let draw : Draw ← ask .draw
      let kp : CommitteeNodeKeyPair :=
        { nodeId := id
          encryptionKeyPair := draw.encryptionKeyPair
          signingKeyPair := draw.signingKeyPair }
      let row ← Prog.ofExcept
        (keyPairToRow gcm kp encKey draw.iv₁ draw.iv₂)
      ask (.insert row)
      pure (keypairs ++ [kp])

/-- The rows by their nodes, decrypted. -/
def existingKeyPairs (gcm : Gcm) (encKey : List UInt8)
    (rows : List KeyRow) :
    Except String (List (String × CommitteeNodeKeyPair)) :=
  rows.mapM fun r => (r.node_id, ·) <$> rowToKeyPair gcm r encKey

/-- `env` is `MPC_KEY_ENCRYPTION_SECRET`. -/
def loadOrGenerateKeys (gcm : Gcm) (env : Option String)
    (nodeIds : List String) : Loading (List CommitteeNodeKeyPair) := do
  let encKey ← Prog.ofExcept (loadEncryptionKey env)
  ask .createTable
  let rows : List KeyRow ← ask (.select nodeIds)
  if rows.length = nodeIds.length then
    let byId := OrderedMap.ofList (rows.map fun r => (r.node_id, r))
    Prog.ofExcept (nodeIds.mapM (readKeyPair gcm encKey byId))
  else do
    let entries ← Prog.ofExcept (existingKeyPairs gcm encKey rows)
    nodeIds.foldlM
      (loadOrGenerate gcm encKey (OrderedMap.ofList entries)) []

/-- A process: the key in its environment, and its nodes. -/
structure LoadTask where
  env : Option String
  nodeIds : List String

/-- The processes of the committee on one database. -/
def loaders (gcm : Gcm) :
    System Call.Answer String (List CommitteeNodeKeyPair) LoadTask Database
      Choice Empty where
  code t := loadOrGenerateKeys gcm t.env t.nodeIds
  exec _ := exec
  outside := nofun

/-- Any number of loaders over one database. -/
abbrev Loaders :=
  Machine Call.Answer String (List CommitteeNodeKeyPair) LoadTask Database

/-- An event of theirs. -/
abbrev LoadEvent := MachineEvent LoadTask Choice Empty

end Lumix.Committee.Keys
