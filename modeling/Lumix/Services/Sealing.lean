/-
Shares on their way to the nodes.

A client splits an amount, writes each share as JSON and seals it in a
box for its node; the package does so for Node, the SDK for a browser,
with its own reading of hexadecimal keys and without the check of the
threshold. A node opens the box and parses what is in it, whatever that
is, and reconstruction reads two numbers off the values (`decodeShare`).

What is between them is text: bytes in hexadecimal, UTF-8, JSON and
decimal numerals. `opened_sealShare` is the whole way of one share, for
either client.
-/
import Lumix.Lib.BigInt
import Lumix.Lib.Utf8
import Lumix.Committee.TrueAmounts
import Lumix.Services.Verification

namespace Lumix.Services

open Committee Exec Text Digits Js

-- =============================================================== boxes

/-- A nonce of `nacl.box`. -/
abbrev Nonce := BitVec 192

/-- `nacl.box` on keys and nonces of the right lengths. -/
structure Box where
  /-- the public key of a secret one -/
  publicKey : Word → Word
  encrypt : Bytes → Nonce → Word → Word → Bytes
  decrypt : Bytes → Nonce → Word → Word → Option Bytes

/-- What one key pair seals for another's public key, the other opens. -/
def Box.Lawful (box : Box) : Prop :=
  ∀ msg nonce a b,
    box.decrypt (box.encrypt msg nonce (box.publicKey b) a) nonce
      (box.publicKey a) b = some msg

/-- The 24 bytes of a nonce. -/
def Nonce.toBytes (nonce : Nonce) : Bytes := beBytes 24 nonce.toNat

/-- The nonce of 24 bytes. -/
def Nonce.ofBytes (bytes : Bytes) : Nonce := BitVec.ofNat 192 (beVal bytes)

variable (box : Box)

/-- `nacl.box` -/
def naclBox (msg nonce publicKey : Bytes) (secretKey : Word) :
    Except String Bytes := do
  panicIf (publicKey.length ≠ 32) "bad public key size"
  panicIf (nonce.length ≠ 24) "bad nonce size"
  pure (box.encrypt msg (Nonce.ofBytes nonce) (Word.ofBytes publicKey)
    secretKey)

/-- `nacl.box.open` -/
def naclBoxOpen (msg nonce publicKey : Bytes) (secretKey : Word) :
    Except String (Option Bytes) := do
  panicIf (publicKey.length ≠ 32) "bad public key size"
  panicIf (nonce.length ≠ 24) "bad nonce size"
  pure (box.decrypt msg (Nonce.ofBytes nonce) (Word.ofBytes publicKey)
    secretKey)

-- ============================================================= sealing

/-- What sealing a share draws: the ephemeral key and the nonce. -/
structure Sender where
  secretKey : Word
  nonce : Nonce

/-- A text has no keys. -/
theorem allKeys_str (s : JsString) :
    (Tree.leaf (Leaf.str s) : Value).AllKeys
      (Tree.ProperKeys arrayIndex) := by
  intro u hu
  rw [List.mem_singleton.mp hu]
  exact properKeys_nil

/-- The fields of an encoded share are numerals, and their names no
array indices. -/
def shareJson (share : EncodedShare) : JsonValue where
  tree := .obj [(ofString "x", .leaf (.str (ofString share.x))),
    (ofString "y", .leaf (.str (ofString share.y)))]
  proper := by
    have hkeys : Tree.ProperKeys arrayIndex [ofString "x", ofString "y"] :=
      by decide
    refine Tree.allKeys_obj.mpr ⟨hkeys, fun f hf => ?_⟩
    rcases List.mem_pair.mp hf with rfl | rfl
    · exact allKeys_str _
    · exact allKeys_str _

/-- `JSON.stringify` -/
def jsonText (v : JsonValue) : String :=
  String.ofList (Tree.write texts v.tree)

/-- `encryptShareForNode` of the package: a fresh key pair and nonce,
and a box for the node. -/
def encryptShareForNode (draw : Sender) (share : EncodedShare)
    (recipientPubkeyHex nodeId : String) :
    Except String EncryptedShare := do
  let recipientPk := bufferFromHex recipientPubkeyHex
  let plaintext := utf8 (jsonText (shareJson share))
  let ciphertext ← naclBox box plaintext draw.nonce.toBytes recipientPk
    draw.secretKey
  pure {
    nodeId
    ciphertext := bytesHex ciphertext
    nonce := bytesHex draw.nonce.toBytes
    senderPubkey := bytesHex (box.publicKey draw.secretKey).toBytes }

/-- The shares of an amount, each for its node. -/
def splitAmountForCommittee (draws : ℕ → ℤ) (senders : ℕ → Sender)
    (amount7dpStr : String) (nodes : List CommitteeNodeInfo)
    (threshold : ℕ) : Except String (List EncryptedShare) := do
  let amount ← orPanic ("Cannot convert " ++ amount7dpStr ++ " to a BigInt")
    (bigInt amount7dpStr)
  let rawShares ← shamirSplit draws amount threshold nodes.length
  nodes.zipIdx.mapM fun p => do
    let rawShare ← orPanic
      "Cannot read properties of undefined (reading 'x')" rawShares[p.2]?
    encryptShareForNode box (senders p.2) (encodeShare rawShare)
      p.1.encryptionPubkey p.1.nodeId

-- ============================================================= the SDK

end Lumix.Services

namespace Lumix.Sdk

open Committee Services Exec Text Digits Js

/-- The code units that `.` does not match. -/
def IsLineEnd (u : ℕ) : Prop := u ∈ [0x0a, 0x0d, 0x2028, 0x2029]

instance (u : ℕ) : Decidable (IsLineEnd u) :=
  inferInstanceAs (Decidable (_ ∈ _))

/-- `s.match(/.{2}/g)`, on the code units -/
def matchPairs : List ℕ → List (ℕ × ℕ)
  | u :: v :: us =>
      if IsLineEnd u then matchPairs (v :: us)
      else if IsLineEnd v then matchPairs us
      else (u, v) :: matchPairs us
  | _ => []

/-- The number the leading digits are; 0 where there is none, as
`NaN` is for a byte. -/
def leadingDigits : List Char → ℕ → ℕ
  | [], n => n
  | c :: cs, n =>
      match digitValue c with
      | some d => leadingDigits cs (16 * n + d)
      | none => n

/-- `parseInt(s, 16)`, for a byte array -/
def parseInt16 (cs : List Char) : ℤ :=
  let unprefixed : List Char → List Char
    | '0' :: 'x' :: cs => cs
    | '0' :: 'X' :: cs => cs
    | cs => cs
  match cs.dropWhile isSpace with
  | '-' :: cs => -(leadingDigits (unprefixed cs) 0)
  | '+' :: cs => leadingDigits (unprefixed cs) 0
  | cs => leadingDigits (unprefixed cs) 0

/-- A byte array takes a number modulo 256. -/
def fromHex (h : String) : Bytes :=
  (matchPairs (utf16 (stripHex h))).map fun p =>
    UInt8.ofInt (parseInt16 [Char.ofNat p.1, Char.ofNat p.2])

variable (box : Box)

/-- `encryptShareForNode` of the sdk: the same box, by way of its own
hexadecimal and base64. -/
def encryptShareForNode (draw : Sender) (share : Share)
    (recipientPubkeyHex nodeId : String) :
    Except String EncryptedShare := do
  let recipientPk := fromHex recipientPubkeyHex
  let plaintext := utf8 (jsonText
    (shareJson ⟨toString share.x, toString share.y⟩))
  let ct ← naclBox box plaintext draw.nonce.toBytes recipientPk
    draw.secretKey
  pure {
    nodeId
    ciphertext := bytesHex ct
    nonce := bytesHex draw.nonce.toBytes
    senderPubkey := bytesHex (box.publicKey draw.secretKey).toBytes }

/-- The shares of an amount, by the client in a browser. -/
def splitAndEncryptAmount (draws : ℕ → ℤ) (senders : ℕ → Sender)
    (amount7dp : ℤ) (nodes : List CommitteeNodeInfo) (threshold : ℕ) :
    Except String (List EncryptedShare) :=
  let shares := Sdk.shamirSplit draws amount7dp threshold nodes.length
  nodes.zipIdx.mapM fun p => do
    let share ← orPanic
      "Cannot read properties of undefined (reading 'x')" shares[p.2]?
    encryptShareForNode box (senders p.2) share p.1.encryptionPubkey
      p.1.nodeId

end Lumix.Sdk

namespace Lumix.Services

open Committee Exec Text Digits Js

-- ============================================================= opening

variable (box : Box) (numbers : Numbers)

/-- What `decryptShare` throws when no box opens. -/
def authenticationFailed : String :=
  "decryptShare: authentication failed — tampered ciphertext"

/-- What opens and parses; none for a falsy value, for which a round
waits as for a share that is not decrypted. `syntaxError` is the message
of `JSON.parse` on a text. -/
def decryptShare (syntaxError : String → String)
    (encrypted : EncryptedShare) (nodeEncryptionSecretKey : Word) :
    Except String (Option Parsed) := do
  let ciphertext := bufferFromHex encrypted.ciphertext
  let nonce := bufferFromHex encrypted.nonce
  let senderPk := bufferFromHex encrypted.senderPubkey
  let opened ← naclBoxOpen box ciphertext nonce senderPk
    nodeEncryptionSecretKey
  let plaintext ← orPanic authenticationFailed opened
  let text := Utf8.decode plaintext
  let v ← orPanic (syntaxError text) (parse text.toList)
  pure (if v.falsy numbers then none else some v)

/-- `decodeShare` on whatever was parsed; none where it throws. -/
def decodeParsed (encoded : Parsed) : Option Share := do
  let x ← (encoded.property (ofString "x")).bind (Parsed.bigInt numbers)
  let y ← (encoded.property (ofString "y")).bind (Parsed.bigInt numbers)
  some ⟨x, y⟩

/-- The functions of the package, as a committee uses them. -/
def packageCrypto (sha256 : Bytes → Word) (syntaxError : String → String) :
    Crypto NodeKeys Parsed where
  decryptShare share keys :=
    decryptShare box numbers syntaxError share keys.encryptionSecretKey
  reconstructAmount := reconstructAmount (decodeParsed numbers)
  computeBatchHash batchId matchResults :=
    computeBatchHash sha256 batchId (matchResults.map MatchResult.batchMatch)
  signBatch := signBatch sha256

/-- The package's crypto is the one batches are hashed and signed
with. -/
theorem packageCrypto_usesPackage (sha256 : Bytes → Word)
    (syntaxError : String → String) :
    UsesPackage sha256 (packageCrypto box numbers sha256 syntaxError) where
  computeBatchHash _ _ := rfl
  signBatch := rfl

-- ========================================================= the way back

variable {box numbers}

/-- A nonce is read back. -/
theorem Nonce.ofBytes_toBytes (nonce : Nonce) :
    Nonce.ofBytes nonce.toBytes = nonce :=
  @bitVec_bytes 24 nonce

/-- It has 24 bytes. -/
theorem Nonce.length_toBytes (nonce : Nonce) :
    nonce.toBytes.length = 24 :=
  length_beBytes ..

/-- No length is wrong with keys and nonces of the types. -/
theorem naclBox_ok (msg : Bytes) (nonce : Nonce) (pk sk : Word) :
    naclBox box msg nonce.toBytes pk.toBytes sk
      = .ok (box.encrypt msg nonce pk sk) := by
  simp only [naclBox, Word.length_toBytes, Nonce.length_toBytes, ne_eq,
    not_true_eq_false, panicIf, Nonce.ofBytes_toBytes,
    Word.ofBytes_toBytes]
  rfl

/-- A box is opened with nonce and keys of the right lengths. -/
theorem naclBoxOpen_ok (msg : Bytes) (nonce : Nonce) (pk sk : Word) :
    naclBoxOpen box msg nonce.toBytes pk.toBytes sk
      = .ok (box.decrypt msg nonce pk sk) := by
  simp only [naclBoxOpen, Word.length_toBytes, Nonce.length_toBytes, ne_eq,
    not_true_eq_false, panicIf, Nonce.ofBytes_toBytes,
    Word.ofBytes_toBytes]
  rfl

/-- A share as either client sends it to a node. -/
def sealShare (box : Box) (draw : Sender) (share : Share)
    (node : CommitteeNodeKeyPair NodeKeys) : EncryptedShare where
  nodeId := node.nodeId
  ciphertext := bytesHex (box.encrypt
    (utf8 (jsonText (shareJson (encodeShare share)))) draw.nonce
    node.secretKey.encryptionPublicKey draw.secretKey)
  nonce := bytesHex draw.nonce.toBytes
  senderPubkey := bytesHex (box.publicKey draw.secretKey).toBytes

/-- The package's client seals a share for the node. -/
theorem encryptShareForNode_ok (draw : Sender) (share : Share)
    (node : CommitteeNodeKeyPair NodeKeys) :
    encryptShareForNode box draw (encodeShare share)
        (nodePublicInfo node).encryptionPubkey (nodePublicInfo node).nodeId
      = .ok (sealShare box draw share node) := by
  simp only [encryptShareForNode, nodePublicInfo, bufferFromHex_bytesHex,
    naclBox_ok]
  rfl

/-- What is parsed of a share. -/
def shareValue (share : Share) : Parsed :=
  Js.read (shareJson (encodeShare share)).tree

/-- The value a share is written as is decoded as the share is. -/
theorem decodeParsed_shareValue (share : Share) :
    decodeParsed numbers (shareValue share)
      = decodeShare (encodeShare share) := by
  have hx : (shareValue share).property (ofString "x")
      = some (.leaf (.str (ofString (toString share.x)))) := rfl
  have hy : (shareValue share).property (ofString "y")
      = some (.leaf (.str (ofString (toString share.y)))) := rfl
  rw [decodeParsed, hx, hy]
  simp only [Option.bind_some, Parsed.bigInt, textBigInt_ofString]
  rfl

/-- A box that was sealed for the node opens to the share. -/
theorem decryptShare_sealShare (numbers : Numbers) (hbox : box.Lawful)
    {node : CommitteeNodeKeyPair NodeKeys}
    (hkeys : node.secretKey.encryptionPublicKey
      = box.publicKey node.secretKey.encryptionSecretKey)
    (syntaxError : String → String) (draw : Sender) (share : Share) :
    decryptShare box numbers syntaxError (sealShare box draw share node)
        node.secretKey.encryptionSecretKey
      = .ok (some (shareValue share)) := by
  have hparse : parse (jsonText (shareJson (encodeShare share))).toList
      = some (shareValue share) := by
    rw [jsonText, String.toList_ofList]
    exact parse_write _
  simp only [decryptShare, sealShare, bufferFromHex_bytesHex,
    naclBoxOpen_ok, hkeys, hbox _ _ _ _, bind_eq_ok, orPanic_eq_ok,
    pure_eq_ok]
  refine ⟨_, rfl, _, rfl, shareValue share, ?_, rfl⟩
  rw [Utf8.decode_utf8]
  exact hparse

-- ================================================ the keys of the SDK

/-- Two digits are read as the byte they are. -/
theorem parseInt16_digits : ∀ hi < 16, ∀ lo < 16,
    Sdk.parseInt16 [Nat.digitChar hi, Nat.digitChar lo]
      = (16 * hi + lo : ℕ) := by
  decide +kernel

/-- A hexadecimal digit is one code unit, and no line end. -/
theorem codeUnits_digit : ∀ d < 16,
    codeUnits (Nat.digitChar d) = [(Nat.digitChar d).toNat]
      ∧ ¬Sdk.IsLineEnd (Nat.digitChar d).toNat := by
  decide +kernel

/-- A small number is the byte of itself. -/
theorem ofInt_natCast {n : ℕ} (h : n < 256) :
    UInt8.ofInt (n : ℤ) = UInt8.ofNat n := by
  rw [UInt8.ofInt, Int.emod_eq_of_lt (by omega) (by omega),
    Int.toNat_natCast]

/-- The sdk's pairs of digits are the bytes. -/
theorem matchPairs_byteHex (bytes : Bytes) :
    (Sdk.matchPairs ((bytes.flatMap byteHex).flatMap codeUnits)).map
        (fun p => UInt8.ofInt
          (Sdk.parseInt16 [Char.ofNat p.1, Char.ofNat p.2]))
      = bytes := by
  induction bytes with
  | nil => rfl
  | cons b bytes ih =>
      have hlt := b.toNat_lt
      obtain ⟨hu, hend⟩ := codeUnits_digit (b.toNat / 16) (by omega)
      obtain ⟨hv, hend'⟩ := codeUnits_digit (b.toNat % 16) (by omega)
      have hread := parseInt16_digits (b.toNat / 16) (by omega)
        (b.toNat % 16) (by omega)
      have hbyte : UInt8.ofInt (Sdk.parseInt16
          [Nat.digitChar (b.toNat / 16), Nat.digitChar (b.toNat % 16)])
          = b := by
        rw [hread, ofInt_natCast (by omega), byte_halves]
      simp only [List.flatMap_cons, byteHex, List.cons_append,
        List.nil_append, hu, hv, Sdk.matchPairs, if_neg hend,
        if_neg hend', List.map_cons, Char.ofNat_toNat, hbyte, ih]

/-- A key that was written in hexadecimal is read by the SDK. -/
theorem fromHex_bytesHex (bytes : Bytes) :
    Sdk.fromHex (bytesHex bytes) = bytes := by
  rw [Sdk.fromHex, stripHex_bytesHex, bytesHex, utf16, String.toList_ofList]
  exact matchPairs_byteHex bytes

/-- The sdk's client seals the same box. -/
theorem sdk_encryptShareForNode_ok (draw : Sender) (share : Share)
    (node : CommitteeNodeKeyPair NodeKeys) :
    Sdk.encryptShareForNode box draw share
        (nodePublicInfo node).encryptionPubkey (nodePublicInfo node).nodeId
      = .ok (sealShare box draw share node) := by
  simp only [Sdk.encryptShareForNode, nodePublicInfo, fromHex_bytesHex,
    naclBox_ok]
  rfl

-- ========================================================= every share

/-- The shares of a committee, each sealed for its node. -/
def sealedShares (box : Box) (senders : ℕ → Sender) (shares : List Share)
    (nodes : List (CommitteeNodeKeyPair NodeKeys)) :
    List EncryptedShare :=
  (nodes.zip shares).zipIdx.map fun p =>
    sealShare box (senders p.2) p.1.2 p.1.1

/-- Each node has its own share sealed for it. -/
theorem getElem?_sealedShares (box : Box) (senders : ℕ → Sender) {shares : List Share}
    {nodes : List (CommitteeNodeKeyPair NodeKeys)} {i : ℕ}
    {node : CommitteeNodeKeyPair NodeKeys} {share : Share}
    (hnode : nodes[i]? = some node) (hshare : shares[i]? = some share) :
    (sealedShares box senders shares nodes)[i]?
      = some (sealShare box (senders i) share node) := by
  have hzip : (nodes.zip shares)[i]? = some (node, share) := by
    rw [List.getElem?_zip_eq_some]
    exact ⟨hnode, hshare⟩
  rw [sealedShares, List.getElem?_map, List.getElem?_zipIdx, hzip]
  simp

/-- Every sealed share is one node's. -/
theorem mem_sealedShares {senders : ℕ → Sender} {shares : List Share}
    {nodes : List (CommitteeNodeKeyPair NodeKeys)} {sh : EncryptedShare}
    (h : sh ∈ sealedShares box senders shares nodes) :
    ∃ (i : ℕ) (node : CommitteeNodeKeyPair NodeKeys) (share : Share),
      nodes[i]? = some node ∧ shares[i]? = some share
        ∧ sh = sealShare box (senders i) share node := by
  obtain ⟨p, hp, rfl⟩ := List.mem_map.mp h
  obtain ⟨⟨node, share⟩, i⟩ := p
  have hzip := List.mem_zipIdx_iff_getElem?.mp hp
  rw [List.getElem?_zip_eq_some] at hzip
  exact ⟨i, node, share, hzip.1, hzip.2, rfl⟩

/-- They name the nodes in order. -/
theorem nodeIds_sealedShares {senders : ℕ → Sender} {shares : List Share}
    {nodes : List (CommitteeNodeKeyPair NodeKeys)}
    (hlen : shares.length = nodes.length) :
    (sealedShares box senders shares nodes).map EncryptedShare.nodeId
      = nodes.map (·.nodeId) := by
  have hfst : (nodes.zip shares).map Prod.fst = nodes :=
    List.map_fst_zip hlen.ge
  have hidx : (nodes.zip shares).zipIdx.map Prod.fst = nodes.zip shares :=
    List.zipIdx_map_fst ..
  calc (sealedShares box senders shares nodes).map EncryptedShare.nodeId
      = ((nodes.zip shares).zipIdx.map Prod.fst).map
          fun q => q.1.nodeId := by
        rw [sealedShares, List.map_map, List.map_map]
        rfl
    _ = ((nodes.zip shares).map Prod.fst).map (·.nodeId) := by
        rw [hidx, List.map_map]
        rfl
    _ = nodes.map (·.nodeId) := by rw [hfst]

/-- A client that seals each share of its own seals all of them. -/
theorem mapM_sealedShares {senders : ℕ → Sender} {shares : List Share}
    {nodes : List (CommitteeNodeKeyPair NodeKeys)}
    (hlen : shares.length = nodes.length)
    {f : CommitteeNodeInfo × ℕ → Except String EncryptedShare}
    (hf : ∀ (i : ℕ) node share, shares[i]? = some share →
      f (nodePublicInfo node, i)
        = .ok (sealShare box (senders i) share node)) :
    (nodes.map nodePublicInfo).zipIdx.mapM f
      = .ok (sealedShares box senders shares nodes) := by
  rw [mapM_eq_ok, List.forall₂_iff_get]
  refine ⟨by simp [sealedShares, hlen], ?_⟩
  intro i hi hi'
  have hnode : i < nodes.length := by simpa using hi
  have hshare : i < shares.length := hlen ▸ hnode
  have hseal := getElem?_sealedShares box senders
    (List.getElem?_eq_getElem hnode) (List.getElem?_eq_getElem hshare)
  obtain ⟨hlt, hseal⟩ := List.getElem?_eq_some_iff.mp hseal
  have hat : (nodes.map nodePublicInfo).zipIdx.get ⟨i, hi⟩
      = (nodePublicInfo nodes[i], i) := by simp
  rw [hat, hf i nodes[i] shares[i] (List.getElem?_eq_getElem hshare)]
  exact congrArg Except.ok hseal.symm

/-- A split has a share for each node, -/
theorem length_split (draws : ℕ → ℤ) (secret : ℤ) (t n : ℕ) :
    (Sdk.shamirSplit draws secret t n).length = n := by
  simp [Sdk.shamirSplit]

/-- What the package sends for an amount. -/
theorem splitAmountForCommittee_eq {text : String} {amount : ℤ}
    (htext : bigInt text = some amount) (draws : ℕ → ℤ)
    (senders : ℕ → Sender) {t : ℕ}
    (nodes : List (CommitteeNodeKeyPair NodeKeys)) (ht : 2 ≤ t)
    (hle : t ≤ nodes.length) :
    splitAmountForCommittee box draws senders text
        (nodes.map nodePublicInfo) t
      = .ok (sealedShares box senders
          (Sdk.shamirSplit draws amount t nodes.length) nodes) := by
  simp only [splitAmountForCommittee, bind_eq_ok, orPanic_eq_ok]
  refine ⟨amount, htext, Sdk.shamirSplit draws amount t nodes.length, ?_,
    mapM_sealedShares (length_split ..) ?_⟩
  · rw [List.length_map]
    exact shamirSplit_ok draws amount ht hle
  · intro i node share hshare
    simp only [bind_eq_ok, orPanic_eq_ok]
    exact ⟨share, hshare, encryptShareForNode_ok _ _ _⟩

/-- What the SDK sends for it: the same shares of its own draws. -/
theorem splitAndEncryptAmount_eq (draws : ℕ → ℤ) (senders : ℕ → Sender)
    (amount : ℤ) (t : ℕ) (nodes : List (CommitteeNodeKeyPair NodeKeys)) :
    Sdk.splitAndEncryptAmount box draws senders amount
        (nodes.map nodePublicInfo) t
      = .ok (sealedShares box senders
          (Sdk.shamirSplit draws amount t nodes.length) nodes) := by
  unfold Sdk.splitAndEncryptAmount
  refine mapM_sealedShares (length_split ..) fun i node share hshare => ?_
  simp only [bind_eq_ok, orPanic_eq_ok, List.length_map]
  exact ⟨share, hshare, sdk_encryptShareForNode_ok _ _ _⟩

-- ====================================================== the round trip

/-- The keys of a node are a pair. -/
def Paired (box : Box) (node : CommitteeNodeKeyPair NodeKeys) : Prop :=
  node.secretKey.encryptionPublicKey
    = box.publicKey node.secretKey.encryptionSecretKey

/-- Every node opens the share at its place, and what `t` or more of them
open gives the amount. -/
structure Arrives (box : Box) (numbers : Numbers)
    (syntaxError : String → String)
    (nodes : List (CommitteeNodeKeyPair NodeKeys)) (t amount : ℕ)
    (values : List Parsed) (sent : List EncryptedShare) : Prop where
  opens : ∀ (i : ℕ) node, nodes[i]? = some node →
    ∃ sh v, sent[i]? = some sh ∧ values[i]? = some v
      ∧ sh.nodeId = node.nodeId
      ∧ decryptShare box numbers syntaxError sh
          node.secretKey.encryptionSecretKey = .ok (some v)
  gives : ∀ picked : List ℕ, picked.Nodup →
    (∀ i ∈ picked, i < nodes.length) → t ≤ picked.length →
    reconstructAmount (decodeParsed numbers)
      (picked.filterMap fun i => values[i]?) = some amount

/-- at the node's place. -/
theorem point_split (draws : ℕ → ℤ) (secret : ℤ) (t : ℕ) {n i : ℕ}
    (hi : i < n) :
    ∃ share, (Sdk.shamirSplit draws secret t n)[i]? = some share
      ∧ share.x = i + 1 := by
  simp only [Sdk.shamirSplit, List.getElem?_map, List.getElem?_range hi,
    Option.map_some]
  exact ⟨_, rfl, rfl⟩

/-- The values at different places are decoded to different shares. -/
theorem decode_picked (numbers : Numbers) (draws : ℕ → ℤ) (secret : ℤ)
    (t : ℕ) {n : ℕ} {picked : List ℕ} (hnodup : picked.Nodup)
    (hlt : ∀ i ∈ picked, i < n) :
    ∃ shares, (picked.filterMap fun i =>
          ((Sdk.shamirSplit draws secret t n).map shareValue)[i]?).mapM
            (decodeParsed numbers) = some shares
      ∧ (∀ share ∈ shares, share ∈ Sdk.shamirSplit draws secret t n)
      ∧ shares.map Share.x = picked.map fun (i : ℕ) => (i : ℤ) + 1 := by
  induction picked with
  | nil => exact ⟨[], rfl, List.forall_mem_nil _, rfl⟩
  | cons i picked ih =>
      obtain ⟨-, hnodup⟩ := List.nodup_cons.mp hnodup
      obtain ⟨hi, hlt⟩ := List.forall_mem_cons.mp hlt
      obtain ⟨shares, hdecode, hmem, hxs⟩ := ih hnodup hlt
      obtain ⟨share, hshare, hx⟩ := point_split draws secret t hi
      have hin := List.mem_of_getElem? hshare
      obtain ⟨hpos, -, hy, -⟩ := mem_split hin
      have hvalue : ((Sdk.shamirSplit draws secret t n).map shareValue)[i]?
          = some (shareValue share) := by
        rw [List.getElem?_map, hshare]
        rfl
      have hread : decodeParsed numbers (shareValue share)
          = some share := by
        rw [decodeParsed_shareValue]
        exact decodeShare_encodeShare hpos.le hy
      refine ⟨share :: shares, ?_,
        List.forall_mem_cons.mpr ⟨hin, hmem⟩, ?_⟩
      · rw [List.filterMap_cons_some hvalue, List.mapM_cons, hread, hdecode]
        rfl
      · rw [List.map_cons, List.map_cons, hx, hxs]

/-- What the nodes open are points of the sharing. -/
theorem arrives_sealedShares (hbox : box.Lawful)
    {nodes : List (CommitteeNodeKeyPair NodeKeys)}
    (hkeys : ∀ node ∈ nodes, Paired box node)
    (syntaxError : String → String) (draws : ℕ → ℤ)
    (senders : ℕ → Sender) {t amount : ℕ} (ht : 2 ≤ t)
    (hn : nodes.length < 2 ^ 32) (hamount : amount < P) :
    Arrives box numbers syntaxError nodes t amount
      ((Sdk.shamirSplit draws amount t nodes.length).map shareValue)
      (sealedShares box senders
        (Sdk.shamirSplit draws amount t nodes.length) nodes) where
  opens := by
    intro i node hnode
    obtain ⟨hlt, -⟩ := List.getElem?_eq_some_iff.mp hnode
    obtain ⟨share, hshare, -⟩ := point_split draws amount t hlt
    refine ⟨_, shareValue share, getElem?_sealedShares box senders hnode hshare,
      ?_, rfl, ?_⟩
    · rw [List.getElem?_map, hshare]
      rfl
    · exact decryptShare_sealShare numbers hbox
        (hkeys node (List.mem_of_getElem? hnode)) _ _ _
  gives := by
    intro picked hnodup hlt hlen
    obtain ⟨shares, hdecode, hmem, hxs⟩ :=
      decode_picked numbers draws amount t hnodup hlt
    have hcount : t ≤ shares.length := by
      have hlengths := congrArg List.length hxs
      rw [List.length_map, List.length_map] at hlengths
      omega
    have hdistinct : (shares.map Share.x).Nodup := by
      rw [hxs]
      exact hnodup.map fun i j hij => by simpa using hij
    have hP : nodes.length < P := hn.trans (by decide)
    have hvalue := (recovers_split draws amount (by omega) hP shares hmem
      hcount hdistinct).1
    rw [reconstructAmount, hdecode, Option.map_some, hvalue,
      Int.emod_eq_of_lt (Int.natCast_nonneg _) (by exact_mod_cast hamount),
      Int.toNat_natCast]

/-- What an amount is on its way through either client. For every
committee of key pairs, every threshold the split accepts and every
amount below `P`, both clients seal one share for each node; each node
opens its own, and what any `t` different nodes have opened is
reconstructed to the amount. -/
theorem sealed_amount_returns (hbox : box.Lawful)
    (syntaxError : String → String)
    (nodes : List (CommitteeNodeKeyPair NodeKeys))
    (hkeys : ∀ node ∈ nodes, Paired box node) {t amount : ℕ}
    (ht : 2 ≤ t) (hle : t ≤ nodes.length) (hn : nodes.length < 2 ^ 32)
    (hamount : amount < P) {text : String}
    (htext : bigInt text = some (amount : ℤ)) (draws draws' : ℕ → ℤ)
    (senders senders' : ℕ → Sender) :
    (∃ sent values, splitAmountForCommittee box draws senders text
          (nodes.map nodePublicInfo) t = .ok sent
        ∧ Arrives box numbers syntaxError nodes t amount values sent)
      ∧ ∃ sent values, Sdk.splitAndEncryptAmount box draws' senders' amount
          (nodes.map nodePublicInfo) t = .ok sent
        ∧ Arrives box numbers syntaxError nodes t amount values sent :=
  ⟨⟨_, _, splitAmountForCommittee_eq htext draws senders nodes ht hle,
      arrives_sealedShares hbox hkeys _ _ _ ht hn hamount⟩,
    ⟨_, _, splitAndEncryptAmount_eq draws' senders' amount t nodes,
      arrives_sealedShares hbox hkeys _ _ _ ht hn hamount⟩⟩

namespace Demo

/-- Boxes that only say whose they are. -/
def plainBox : Box where
  publicKey a := a
  encrypt msg nonce pk sk := (pk ^^^ sk).toBytes ++ nonce.toBytes ++ msg
  decrypt c nonce pk sk :=
    let head := (pk ^^^ sk).toBytes ++ nonce.toBytes
    if c.take head.length = head then some (c.drop head.length) else none

/-- The plain boxes open for whom they were made. -/
theorem plainBox_lawful : plainBox.Lawful := by
  intro msg nonce a b
  have hkey : a ^^^ b = b ^^^ a := BitVec.xor_comm a b
  simp only [plainBox, hkey, List.take_left, List.drop_left, if_true]

/-- The numerals without a fraction or an exponent, as they are. -/
def plainNumbers : Numbers where
  bigInt negative l :=
    if l.fraction = [] ∧ l.exponent = none then
      let n : ℤ := (Nat.ofDigitChars 10 l.whole 0 : ℕ)
      some (if negative then -n else n)
    else none
  text negative l :=
    ofString (String.ofList ((if negative then ['-'] else []) ++ l.text))

/-- Three nodes with keys of their own. -/
def threeNodes : List (CommitteeNodeKeyPair NodeKeys) :=
  [⟨"node-1", nodeKeys 1⟩, ⟨"node-2", nodeKeys 2⟩, ⟨"node-3", nodeKeys 3⟩]

/-- Their keys fit. -/
theorem threeNodes_paired : ∀ node ∈ threeNodes, Paired plainBox node := by
  intro node hnode
  simp only [threeNodes, List.mem_cons, List.not_mem_nil, or_false]
    at hnode
  rcases hnode with rfl | rfl | rfl <;> rfl

/-- A key pair and a nonce for each share. -/
def sender (i : ℕ) : Sender := ⟨BitVec.ofNat 256 (7 + i), BitVec.ofNat 192 i⟩

end Demo

/-- Two of three nodes for an amount of four. -/
theorem four_returns :
    (∃ sent values, splitAmountForCommittee Demo.plainBox
          (fun i => (3 * i + 5 : ℤ)) Demo.sender "4"
          (Demo.threeNodes.map nodePublicInfo) 2 = .ok sent
        ∧ Arrives Demo.plainBox Demo.plainNumbers id Demo.threeNodes 2 4 values sent)
      ∧ ∃ sent values, Sdk.splitAndEncryptAmount Demo.plainBox
          (fun i => (i + 1 : ℤ)) Demo.sender 4
          (Demo.threeNodes.map nodePublicInfo) 2 = .ok sent
        ∧ Arrives Demo.plainBox Demo.plainNumbers id Demo.threeNodes 2 4 values
          sent :=
  sealed_amount_returns Demo.plainBox_lawful id Demo.threeNodes
    Demo.threeNodes_paired (by decide) (by decide) (by decide)
    (by decide) (bigInt_toString 4) _ _ _ _

end Lumix.Services
