/-
The prover of the same-asset committee circuit: the witness it builds
from two coin files, and the public signals that come out
(`proof_signals`).

Everything is text here. A signal is read from its text by the witness
calculator (`signal`); the proof's public signals leave as hexadecimal
text in the pool's layout, which `circom2soroban` prints. `coinutils` and
`snarkjs`, the other programs the prover runs, are parameters; what is
relied on is that a proof is made of an assignment that reads the witness
and satisfies the circuit, and that decimal numbers are read as what they
are (`Tools.Faithful`).

The output notes are no input of the prover: it draws their labels,
nullifiers and secrets itself (`Draws`), so no output commitment is known
before the proof is.

Files are read as they are when the prover starts; the names of its
scratch files are left out.
-/
import Lumix.Circuits.Mpc
import Lumix.Lib.Exec
import Lumix.Lib.Text
import Lumix.Pool.Decoding
import Lumix.Proving.Circom2Soroban

namespace Lumix.Proving

open Exec Text ProofVerifier

-- ============================================================== notes

/-- What a commitment is of. -/
structure NotePreimage where
  value : String
  label : String
  nullifier : String
  secret : String
deriving DecidableEq

/-- A coin file; a missing `asset_id` is empty. -/
structure CoinFile where
  commitmentHex : String
  commitment : String
  assetId : String
  preimage : NotePreimage
deriving DecidableEq

/-- A coin as the prover is given it. -/
structure GeneratedCoin where
  path : String
  commitmentHex : String
  commitmentDecimal : String
  value7dp : String
  assetIdField : String
deriving DecidableEq

/-- The arguments of the prover. -/
structure MpcSettlementParams where
  coinA : GeneratedCoin
  coinB : GeneratedCoin
  commitmentsDecimal : List String
  assocPath : String
  scope : String
  batchHashHex : String
  poolId : String
  chainId : String
  matchedAmount7dp : String
  deadlineLedger : String

-- ========================================================== randomness

/-- The modulus the random draws are reduced by. -/
def BN254_P : ℕ :=
  21888242871839275222246405745257275088548364400416034343698204186575808495617

/-- The six draws of 31 bytes of one witness, in their order. -/
structure Draws where
  labelA : BitVec 248
  nullifierA : BitVec 248
  secretA : BitVec 248
  labelB : BitVec 248
  nullifierB : BitVec 248
  secretB : BitVec 248

/-- The field element of a draw. -/
def randField (bytes : BitVec 248) : String :=
  toString (bytes.toNat % BN254_P)

/-- The note party B receives. -/
def Draws.outPreimageA (d : Draws) (matchedAmount7dp : String) :
    NotePreimage where
  value := matchedAmount7dp
  label := randField d.labelA
  nullifier := randField d.nullifierA
  secret := randField d.secretA

/-- The note party A receives. -/
def Draws.outPreimageB (d : Draws) (matchedAmount7dp : String) :
    NotePreimage where
  value := matchedAmount7dp
  label := randField d.labelB
  nullifier := randField d.nullifierB
  secret := randField d.secretB

-- ======================================================== the witness

/-- What `coinutils withdraw` writes of a coin's paths. -/
structure WithdrawPaths where
  stateRoot : String
  associationRoot : String
  stateIndex : String
  stateSiblings : List String
  labelIndex : String
  labelSiblings : List String
deriving DecidableEq

/-- The inputs with suffix `A`, or those with suffix `B`. -/
structure SideSignals where
  label : String
  value : String
  nullifier : String
  secret : String
  stateIndex : String
  stateSiblings : List String
  labelIndex : String
  labelSiblings : List String
  outValue : String
  outLabel : String
  outNullifier : String
  outSecret : String
deriving DecidableEq

/-- The circuit's inputs. -/
structure MpcWitness where
  stateRoot : String
  associationRoot : String
  batchHash : String
  poolId : String
  chainId : String
  matchedAmount7dp : String
  deadlineLedger : String
  assetId : String
  a : SideSignals
  b : SideSignals
deriving DecidableEq

/-- The inputs of one party. -/
def sideSignals (pre : NotePreimage) (paths : WithdrawPaths)
    (out : NotePreimage) : SideSignals where
  label := pre.label
  value := pre.value
  nullifier := pre.nullifier
  secret := pre.secret
  stateIndex := paths.stateIndex
  stateSiblings := paths.stateSiblings
  labelIndex := paths.labelIndex
  labelSiblings := paths.labelSiblings
  outValue := out.value
  outLabel := out.label
  outNullifier := out.nullifier
  outSecret := out.secret

/-- The programs and files outside. What a program prints is without the
white space around it. -/
structure Tools where
  /-- the circuit's three artifacts are there -/
  hasArtifacts : Bool
  readCoin : (path : String) → Except String CoinFile
  /-- `coinutils withdraw`, on a state file of these commitments -/
  withdraw : (coinPath : String) → (commitments : List String) →
    (scope assocPath : String) → Except String WithdrawPaths
  /-- `snarkjs wtns calculate` and `snarkjs groth16 prove` -/
  prove : MpcWitness → Except String (String × List Fr)
  /-- `snarkjs groth16 verify` -/
  verify : (publicJson : List Fr) → (proofJson : String) →
    Except String String
  /-- `circom2soroban proof` -/
  proofHex : (proofJson : String) → Except String String
  /-- what `circom2soroban` is built from -/
  crates : Circom2Soroban.Crates
  /-- what `execFileSync` throws for a program that panics -/
  commandFailed : (stderr : String) → String

/-- `circom2soroban public`: the signals are decimal numbers in the
file. -/
def Tools.publicHex (tools : Tools) (publicJson : List Fr) :
    Except String String :=
  ((Circom2Soroban.publicToBytes tools.crates
    (publicJson.map fun n => toString n.val)).map bytesHex).mapError
      tools.commandFailed

section

variable (tools : Tools)

/-- The first 31 bytes of a hash. -/
def hashToField (hex32 : String) : Except String String :=
  let h := "0x" ++ String.ofList ((stripHex hex32).toList.take 62)
  orPanic ("Cannot convert " ++ h ++ " to a BigInt")
    ((bigInt h).map toString)

/-- A signal as 32 bytes in hexadecimal. -/
def hexOut (n : Fr) : String := "0x" ++ padStart 64 (toString16 n.val)

theorem hexOut_ne (n : Fr) : hexOut n ≠ "" := by
  intro h
  have htext : (hexOut n).toList
      = '0' :: 'x' :: (padStart 64 (toString16 n.val)).toList :=
    String.toList_append
  rw [h] at htext
  cases htext

/-- A `BytesN<n>` argument on the command line: bare hexadecimal of that
many bytes. -/
def bytesN (n : ℕ) (s : String) : Option Bytes :=
  (hexBytes s).filter fun bs => bs.length = n

/-- A word on the command line. -/
def wordArg (s : String) : Option Word := (bytesN 32 s).map Word.ofBytes

/-- A signal's own text is read as its word. -/
theorem wordArg_hexOut (x : Fr) :
    wordArg (stripHex (hexOut x)) = some (Word.ofFr x) := by
  have hlt : x.val < 256 ^ 32 := Fr.val_lt_two_pow x
  obtain ⟨bs, hbs, hlen, hval⟩ :=
    hexBytes_padded (k := 32) (by decide) hlt
  unfold hexOut wordArg bytesN
  rw [stripHex_append, hbs, Option.filter_some, if_pos (by simpa using hlen),
    Option.map_some]
  show some (BitVec.ofNat 256 (Digits.beVal bs)) = _
  rw [hval]
  rfl

/-- The preimage in a coin file. -/
def readCoinPreimage (coin : GeneratedCoin) :
    Except String NotePreimage := do
  let raw ← tools.readCoin coin.path
  pure raw.preimage

/-- The inputs, and the preimages of the two notes that come out. -/
def buildMpcSettlementWitness (d : Draws) (p : MpcSettlementParams) :
    Except String (MpcWitness × NotePreimage × NotePreimage) := do
  let wA ← tools.withdraw p.coinA.path p.commitmentsDecimal p.scope
    p.assocPath
  let wB ← tools.withdraw p.coinB.path p.commitmentsDecimal p.scope
    p.assocPath
  let assetId := p.coinA.assetIdField
  panicIf (assetId = "" ∨ assetId ≠ p.coinB.assetIdField)
    "mpc_settlement is same-asset only: coinA and coinB must share one assetId"
  let preA ← readCoinPreimage tools p.coinA
  let preB ← readCoinPreimage tools p.coinB
  let outPreimageA := d.outPreimageA p.matchedAmount7dp
  let outPreimageB := d.outPreimageB p.matchedAmount7dp
  let batchHash ← hashToField p.batchHashHex
  pure ({
    stateRoot := wA.stateRoot
    associationRoot := wA.associationRoot
    batchHash
    poolId := p.poolId
    chainId := p.chainId
    matchedAmount7dp := p.matchedAmount7dp
    deadlineLedger := p.deadlineLedger
    assetId
    a := sideSignals preA wA outPreimageA
    b := sideSignals preB wB outPreimageB }, outPreimageA, outPreimageB)

-- ========================================================== the proof

/-- What the prover returns. -/
structure MpcSettlementProof where
  proofHex : String
  publicHex : String
  nullifierHashAHex : String
  nullifierHashBHex : String
  outputCommitmentAHex : String
  outputCommitmentBHex : String
  outPreimageA : NotePreimage
  outPreimageB : NotePreimage
  locallyVerified : Bool

/-- The text of `MpcCircuitNotBuiltError`. -/
def mpcCircuitNotBuilt : String :=
  "mpc_settlement circuit not compiled yet. "
    ++ "Run: bash circuits/mpc_settlement/build.sh"

/-- `hexOut(pub[i])` -/
def publicOut (pub : List Fr) (i : ℕ) : Except String String := do
  let n ← orPanic "Cannot convert undefined to a BigInt" pub[i]?
  pure (hexOut n)

/-- Witness, proof, verification and conversion. -/
def buildMpcSettlementProof (d : Draws) (p : MpcSettlementParams) :
    Except String MpcSettlementProof := do
  panicIf (tools.hasArtifacts = false) mpcCircuitNotBuilt
  let (witnessJson, outPreimageA, outPreimageB) ←
    buildMpcSettlementWitness tools d p
  let (proofJson, pub) ← tools.prove witnessJson
  let verifyOut ← tools.verify pub proofJson
  let proofHex ← tools.proofHex proofJson
  let publicHex ← tools.publicHex pub
  let nullifierHashAHex ← publicOut pub 0
  let nullifierHashBHex ← publicOut pub 1
  let outputCommitmentAHex ← publicOut pub 2
  let outputCommitmentBHex ← publicOut pub 3
  pure {
    proofHex
    publicHex
    nullifierHashAHex
    nullifierHashBHex
    outputCommitmentAHex
    outputCommitmentBHex
    outPreimageA
    outPreimageB
    locallyVerified := decide ("OK!".toList <:+: verifyOut.toList) }

-- ============================================= what the tools promise

/-- How the witness calculator reads an input. -/
def signal (s : String) : Option Fr :=
  (bigInt s).map fun n : ℤ => ((n % r).toNat : Fr)

/-- A number's own text is read modulo the order. -/
theorem signal_toString (n : ℕ) : signal (toString n) = some (n : Fr) := by
  unfold signal
  rw [bigInt_toString, Option.map_some, ← Int.natCast_mod,
    Int.toNat_natCast, ZMod.natCast_mod]

/-- The text of a field element. -/
def text (x : Fr) : String := toString x.val

theorem signal_text (x : Fr) : signal (text x) = some x := by
  unfold text
  rw [signal_toString, ZMod.natCast_zmod_val]

theorem mapM_signal_text (xs : List Fr) :
    (xs.map text).mapM signal = some xs := by
  induction xs with
  | nil => rfl
  | cons x xs ih =>
      simp only [List.map_cons, List.mapM_cons, signal_text, ih]
      rfl

/-- One side's inputs are the signals of its two notes and two paths. -/
structure SideSignals.Reads (s : SideSignals) (note out : Note)
    (state association : Opening) : Prop where
  label : signal s.label = some note.label
  value : signal s.value = some note.value
  nullifier : signal s.nullifier = some note.nullifier
  secret : signal s.secret = some note.secret
  stateIndex : signal s.stateIndex = some state.leafIndex
  stateSiblings : s.stateSiblings.mapM signal = some state.siblings
  labelIndex : signal s.labelIndex = some association.leafIndex
  labelSiblings : s.labelSiblings.mapM signal
    = some association.siblings
  outValue : signal s.outValue = some out.value
  outLabel : signal s.outLabel = some out.label
  outNullifier : signal s.outNullifier = some out.nullifier
  outSecret : signal s.outSecret = some out.secret

/-- The inputs are an assignment's input signals. -/
structure MpcWitness.Reads (w : MpcWitness) (a : MpcSettlement) :
    Prop where
  stateRoot : signal w.stateRoot = some a.stateRoot
  associationRoot : signal w.associationRoot = some a.associationRoot
  batchHash : signal w.batchHash = some a.batchHash
  poolId : signal w.poolId = some a.poolId
  chainId : signal w.chainId = some a.chainId
  matchedAmount7dp : signal w.matchedAmount7dp = some a.matchedAmount7dp
  deadlineLedger : signal w.deadlineLedger = some a.deadlineLedger
  assetId : signal w.assetId = some a.assetId
  sideA : w.a.Reads a.noteA a.outNoteA a.stateA a.associationA
  sideB : w.b.Reads a.noteB a.outNoteB a.stateB a.associationB

/-- A proof comes with the public signals of an assignment that reads
the witness and satisfies the circuit, and a number's decimal text is
read as the number. -/
structure Tools.Faithful : Prop where
  prove : ∀ w proofJson pub, tools.prove w = .ok (proofJson, pub) →
    ∃ a : MpcSettlement, w.Reads a ∧ a.Satisfied poseidon255 12 2
      ∧ pub = a.publicSignals
  decimals : tools.crates.ReadsDecimals

variable {tools} in
/-- The tool prints the pool's layout of the signals. -/
theorem Tools.publicHex_eq (hdecimals : tools.crates.ReadsDecimals)
    {pub : List Fr} (hlen : (pub.map Word.ofFr).length < 2 ^ 32) :
    tools.publicHex pub
      = .ok (bytesHex (encodeSignals (pub.map Word.ofFr))) := by
  have hsmall : ∀ n ∈ pub.map ZMod.val, n < 2 ^ 256 := by
    intro n hn
    obtain ⟨x, -, rfl⟩ := List.mem_map.mp hn
    exact Fr.val_lt_two_pow x
  rw [List.length_map] at hlen
  have hprinted := Circom2Soroban.publicToBytes_toString hdecimals hsmall
    (by rw [List.length_map]; exact hlen)
  rw [List.map_map] at hprinted
  have hwords : Circom2Soroban.words (pub.map ZMod.val)
      = pub.map Word.ofFr := by
    rw [Circom2Soroban.words, List.map_map]
    rfl
  rw [hwords] at hprinted
  have hmap : (fun n : Fr => toString n.val)
      = (fun n : ℕ => toString n) ∘ ZMod.val := rfl
  unfold Tools.publicHex
  rw [hmap, hprinted]
  rfl

variable {tools} in
theorem Tools.publicHex_bytes (hdecimals : tools.crates.ReadsDecimals)
    {pub : List Fr} (hlen : (pub.map Word.ofFr).length < 2 ^ 32)
    {hex : String} (h : tools.publicHex pub = .ok hex) :
    hexBytes hex = some (encodeSignals (pub.map Word.ofFr)) := by
  rw [Tools.publicHex_eq hdecimals hlen] at h
  obtain rfl := Except.ok.inj h
  exact hexBytes_bytesHex _

-- ================================================== the public signals

/-- The public nullifier of a coin, as the pool's word. -/
def nullifierHashWord (poolId chainId nullifier : String) :
    Option Word := do
  let nullifier ← signal nullifier
  let poolId ← signal poolId
  let chainId ← signal chainId
  some (Word.ofFr (poseidon255 [nullifier, poolId, chainId]))

/-- The commitment of a note, as the pool's word. -/
def commitmentWord (assetId : String) (pre : NotePreimage) :
    Option Word := do
  let assetId ← signal assetId
  let value ← signal pre.value
  let label ← signal pre.label
  let nullifier ← signal pre.nullifier
  let secret ← signal pre.secret
  some (Word.ofFr (Note.commitment poseidon255
    ⟨assetId, value, label, nullifier, secret⟩))

variable {tools}
variable {d : Draws} {p : MpcSettlementParams}
  {proof : MpcSettlementProof} {w : MpcWitness}

/-- The witness is of the two coins' preimages and two fresh notes. -/
theorem buildMpcSettlementWitness_ok {outA outB : NotePreimage}
    (h : buildMpcSettlementWitness tools d p = .ok (w, outA, outB)) :
    ∃ coinA coinB wA wB,
      tools.readCoin p.coinA.path = .ok coinA
      ∧ tools.readCoin p.coinB.path = .ok coinB
      ∧ w.poolId = p.poolId ∧ w.chainId = p.chainId
      ∧ w.deadlineLedger = p.deadlineLedger
      ∧ w.assetId = p.coinA.assetIdField
      ∧ w.a = sideSignals coinA.preimage wA
          (d.outPreimageA p.matchedAmount7dp)
      ∧ w.b = sideSignals coinB.preimage wB
          (d.outPreimageB p.matchedAmount7dp) := by
  simp only [buildMpcSettlementWitness, readCoinPreimage, bind_eq_ok,
    panicIf_eq_ok, pure_eq_ok, Prod.mk.injEq] at h
  obtain ⟨wA, -, wB, -, -, -, _, ⟨coinA, hA, rfl⟩, _, ⟨coinB, hB, rfl⟩,
    batchHash, -, rfl, -, -⟩ := h
  exact ⟨coinA, coinB, wA, wB, hA, hB, rfl, rfl, rfl, rfl, rfl, rfl⟩

/-- The signals one side reads, and the public words the circuit makes of
them. -/
theorem SideSignals.Reads.words {pre out : NotePreimage}
    {paths : WithdrawPaths} {note outNote : Note}
    {state association : Opening} {poolId chainId assetId : String}
    {pool chain : Fr}
    (h : (sideSignals pre paths out).Reads note outNote state association)
    (hpool : signal poolId = some pool)
    (hchain : signal chainId = some chain)
    (hasset : signal assetId = some outNote.assetId) :
    nullifierHashWord poolId chainId pre.nullifier
        = some (Word.ofFr (note.nullifierHash poseidon255 pool chain))
      ∧ commitmentWord assetId out
        = some (Word.ofFr (outNote.commitment poseidon255)) := by
  have hnullifier : signal pre.nullifier = some note.nullifier :=
    h.nullifier
  have hvalue : signal out.value = some outNote.value := h.outValue
  have hlabel : signal out.label = some outNote.label := h.outLabel
  have houtNullifier : signal out.nullifier = some outNote.nullifier :=
    h.outNullifier
  have hsecret : signal out.secret = some outNote.secret := h.outSecret
  constructor
  · unfold nullifierHashWord
    rw [hnullifier, hpool, hchain]
    rfl
  · unfold commitmentWord
    rw [hasset, hvalue, hlabel, houtNullifier, hsecret]
    rfl

/-- What a finished proof has to say in public. -/
structure Signals (tools : Tools) (d : Draws) (p : MpcSettlementParams)
    (publicHex : String) (coinA coinB : CoinFile) (sb : Bytes)
    (ws : List Word) (deadline : Fr) : Prop where
  readA : tools.readCoin p.coinA.path = .ok coinA
  readB : tools.readCoin p.coinB.path = .ok coinB
  bytes : hexBytes publicHex = some sb
  words : parsePublicSignals sb = .ok ws
  nullifierA : ws[0]?
    = nullifierHashWord p.poolId p.chainId coinA.preimage.nullifier
  nullifierB : ws[1]?
    = nullifierHashWord p.poolId p.chainId coinB.preimage.nullifier
  outputCommitmentA : ws[2]? = commitmentWord p.coinA.assetIdField
    (d.outPreimageA p.matchedAmount7dp)
  outputCommitmentB : ws[3]? = commitmentWord p.coinA.assetIdField
    (d.outPreimageB p.matchedAmount7dp)
  readDeadline : signal p.deadlineLedger = some deadline
  deadlineLedger : ws[10]? = some (Word.ofFr deadline)
  length : ws.length = 12

/-- The text is not empty: the layout begins with a length. -/
theorem Signals.publicHex_ne {publicHex : String} {coinA coinB : CoinFile}
    {sb : Bytes} {ws : List Word} {deadline : Fr}
    (hs : Signals tools d p publicHex coinA coinB sb ws deadline) :
    publicHex ≠ "" := by
  intro hempty
  have hbytes := hs.bytes
  have hwords := hs.words
  rw [hempty] at hbytes
  obtain rfl : [] = sb := Option.some.inj hbytes
  cases hwords

theorem length_words (a : MpcSettlement) :
    (a.publicSignals.map Word.ofFr).length < 2 ^ 32 := by
  rw [List.length_map]
  show 12 < 2 ^ 32
  decide

/-- The public signals of a proof are of the coins' nullifiers, of the
two fresh notes and of the given deadline. -/
theorem proof_signals (hfaithful : tools.Faithful)
    (h : buildMpcSettlementProof tools d p = .ok proof) :
    ∃ coinA coinB sb ws deadline, Signals tools d p proof.publicHex
      coinA coinB sb ws deadline := by
  simp only [buildMpcSettlementProof, bind_eq_ok, panicIf_eq_ok,
    pure_eq_ok, Prod.exists] at h
  obtain ⟨_, -, w, outA, outB, hw, proofJson, pub, hprove, verifyOut, -,
    proofHex, -, publicHex, hpublic, _, -, _, -, _, -, _, -, rfl⟩ := h
  obtain ⟨coinA, coinB, wA, wB, hcoinA, hcoinB, hpool, hchain, hdeadline,
    hasset, ha, hb⟩ := buildMpcSettlementWitness_ok hw
  obtain ⟨a, hreads, hsat, rfl⟩ := hfaithful.prove _ _ _ hprove
  have hsideA := hreads.sideA
  have hsideB := hreads.sideB
  have hdl := hreads.deadlineLedger
  rw [ha] at hsideA
  rw [hb] at hsideB
  rw [hdeadline] at hdl
  obtain ⟨hnA, hcA⟩ := hsideA.words (hpool ▸ hreads.poolId)
    (hchain ▸ hreads.chainId) (hasset ▸ hreads.assetId)
  obtain ⟨hnB, hcB⟩ := hsideB.words (hpool ▸ hreads.poolId)
    (hchain ▸ hreads.chainId) (hasset ▸ hreads.assetId)
  have hparse := parse_encodeSignals (length_words a)
  exact ⟨coinA, coinB, _, _, a.deadlineLedger,
    { readA := hcoinA
      readB := hcoinB
      bytes := Tools.publicHex_bytes hfaithful.decimals
        (length_words a) hpublic
      words := hparse
      nullifierA := by
        rw [hnA, ← hsat.nhA]
        rfl
      nullifierB := by
        rw [hnB, ← hsat.nhB]
        rfl
      outputCommitmentA := by
        rw [hcA, ← hsat.outCmtA]
        rfl
      outputCommitmentB := by
        rw [hcB, ← hsat.outCmtB]
        rfl
      readDeadline := hdl
      deadlineLedger := rfl
      length := rfl }⟩

/-- The proof's own texts are read as its first four signals, so a call
that passes them on is of what was proved. -/
theorem own_hex_signals (hfaithful : tools.Faithful)
    (h : buildMpcSettlementProof tools d p = .ok proof) :
    ∃ sb ws, hexBytes proof.publicHex = some sb
      ∧ parsePublicSignals sb = .ok ws
      ∧ wordArg (stripHex proof.nullifierHashAHex) = ws[0]?
      ∧ wordArg (stripHex proof.nullifierHashBHex) = ws[1]?
      ∧ wordArg (stripHex proof.outputCommitmentAHex) = ws[2]?
      ∧ wordArg (stripHex proof.outputCommitmentBHex) = ws[3]? := by
  simp only [buildMpcSettlementProof, publicOut, bind_eq_ok, panicIf_eq_ok,
    pure_eq_ok, orPanic_eq_ok, Prod.exists] at h
  obtain ⟨_, -, w, _, _, -, proofJson, pub, hprove, _, -, _, -, publicHex,
    hpublic, _, ⟨x₀, h₀, rfl⟩, _, ⟨x₁, h₁, rfl⟩, _, ⟨x₂, h₂, rfl⟩, _,
    ⟨x₃, h₃, rfl⟩, rfl⟩ := h
  obtain ⟨a, -, -, rfl⟩ := hfaithful.prove _ _ _ hprove
  refine ⟨_, _, Tools.publicHex_bytes hfaithful.decimals (length_words a)
    hpublic, parse_encodeSignals (length_words a), ?_, ?_, ?_, ?_⟩
  · rw [wordArg_hexOut, List.getElem?_map, h₀, Option.map_some]
  · rw [wordArg_hexOut, List.getElem?_map, h₁, Option.map_some]
  · rw [wordArg_hexOut, List.getElem?_map, h₂, Option.map_some]
  · rw [wordArg_hexOut, List.getElem?_map, h₃, Option.map_some]

end

-- ====================================================== two coins crossed

namespace Demo

/-- The assignment the tools prove: two notes of 100, alone in the tree,
crossed for 100 each. -/
def assignment : MpcSettlement :=
  .crossing poseidonFast ⟨Note.usdcId, 100, 11, 1001, 2001⟩
    ⟨Note.usdcId, 100, 11, 1003, 2003⟩

/-- A note as its coin file, -/
def coin (note : Note) : CoinFile where
  commitmentHex := hexOut (note.commitment poseidonFast)
  commitment := text (note.commitment poseidonFast)
  assetId := text note.assetId
  preimage := ⟨text note.value, text note.label, text note.nullifier,
    text note.secret⟩

/-- its paths as `coinutils` prints them, -/
def paths (state association : Opening) : WithdrawPaths where
  stateRoot := text assignment.stateRoot
  associationRoot := text assignment.associationRoot
  stateIndex := text state.leafIndex
  stateSiblings := state.siblings.map text
  labelIndex := text association.leafIndex
  labelSiblings := association.siblings.map text

/-- The draws of the two output notes. -/
def draws : Draws := ⟨11, 1001, 2001, 11, 1003, 2003⟩

/-- and the inputs the prover builds of two. -/
def witness : MpcWitness where
  stateRoot := text assignment.stateRoot
  associationRoot := text assignment.associationRoot
  batchHash := text assignment.batchHash
  poolId := text assignment.poolId
  chainId := text assignment.chainId
  matchedAmount7dp := text assignment.matchedAmount7dp
  deadlineLedger := text assignment.deadlineLedger
  assetId := text assignment.assetId
  a := sideSignals (coin assignment.noteA).preimage
    (paths assignment.stateA assignment.associationA)
    (draws.outPreimageA (text assignment.matchedAmount7dp))
  b := sideSignals (coin assignment.noteB).preimage
    (paths assignment.stateB assignment.associationB)
    (draws.outPreimageB (text assignment.matchedAmount7dp))

/-- Programs that know these two coins and this one proof. -/
def tools : Tools where
  hasArtifacts := true
  readCoin path :=
    if path = "a.json" then .ok (coin assignment.noteA)
    else if path = "b.json" then .ok (coin assignment.noteB)
    else .error "ENOENT"
  withdraw coinPath _ _ _ :=
    if coinPath = "a.json" then
      .ok (paths assignment.stateA assignment.associationA)
    else .ok (paths assignment.stateB assignment.associationB)
  prove w :=
    if w = witness then .ok ("proof", assignment.publicSignals)
    else .error "Assert Failed"
  verify _ _ := .ok "snarkJS: OK!"
  proofHex _ := .ok "00"
  crates := Circom2Soroban.zeroCrates
  commandFailed stderr := "Command failed: circom2soroban\n" ++ stderr

theorem assignment_satisfied :
    assignment.Satisfied poseidon255 12 2 := by
  rw [← poseidonFast_eq]
  decide +kernel

theorem side_reads (note out : Note) (state association : Opening) :
    (sideSignals (coin note).preimage (paths state association)
      (coin out).preimage).Reads note out state association where
  label := signal_text _
  value := signal_text _
  nullifier := signal_text _
  secret := signal_text _
  stateIndex := signal_text _
  stateSiblings := mapM_signal_text _
  labelIndex := signal_text _
  labelSiblings := mapM_signal_text _
  outValue := signal_text _
  outLabel := signal_text _
  outNullifier := signal_text _
  outSecret := signal_text _

theorem witness_reads : witness.Reads assignment where
  stateRoot := signal_text _
  associationRoot := signal_text _
  batchHash := signal_text _
  poolId := signal_text _
  chainId := signal_text _
  matchedAmount7dp := signal_text _
  deadlineLedger := signal_text _
  assetId := signal_text _
  sideA := side_reads _ assignment.outNoteA _ _
  sideB := side_reads _ assignment.outNoteB _ _

theorem tools_faithful : tools.Faithful where
  prove := by
    intro w proofJson pub h
    unfold tools at h
    by_cases hw : w = witness
    · simp only [hw, if_true, Except.ok.injEq, Prod.mk.injEq] at h
      obtain ⟨-, rfl⟩ := h
      exact ⟨assignment, hw ▸ witness_reads, assignment_satisfied, rfl⟩
    · simp only [hw, if_false, reduceCtorEq] at h
  decimals := Circom2Soroban.zeroCrates_readsDecimals

theorem readCoin_a :
    tools.readCoin "a.json" = .ok (coin assignment.noteA) := by
  simp [tools]

theorem readCoin_b :
    tools.readCoin "b.json" = .ok (coin assignment.noteB) := by
  simp [tools]

/-- These parameters are proved. -/
theorem built {p : MpcSettlementParams} (hA : p.coinA.path = "a.json")
    (hB : p.coinB.path = "b.json")
    (hassetA : p.coinA.assetIdField = text assignment.assetId)
    (hassetB : p.coinB.assetIdField = text assignment.assetId)
    (hbatch : hashToField p.batchHashHex = .ok (text assignment.batchHash))
    (hpool : p.poolId = text assignment.poolId)
    (hchain : p.chainId = text assignment.chainId)
    (hmatched : p.matchedAmount7dp = text assignment.matchedAmount7dp)
    (hdeadline : p.deadlineLedger = text assignment.deadlineLedger) :
    ∃ proof, buildMpcSettlementProof tools draws p = .ok proof
      ∧ proof.locallyVerified = true ∧ proof.proofHex = "00" := by
  have hne : text assignment.assetId ≠ "" := Nat.repr_ne_empty
  have hpathsA : tools.withdraw "a.json" p.commitmentsDecimal p.scope
      p.assocPath
        = .ok (paths assignment.stateA assignment.associationA) := by
    simp [tools]
  have hpathsB : tools.withdraw "b.json" p.commitmentsDecimal p.scope
      p.assocPath
        = .ok (paths assignment.stateB assignment.associationB) := by
    simp [tools]
  have hprove : tools.prove witness
      = .ok ("proof", assignment.publicSignals) := by
    simp only [tools, if_true]
  have hsame : ¬(text assignment.assetId = ""
      ∨ text assignment.assetId ≠ text assignment.assetId) := by
    simp [hne]
  have hwitness : buildMpcSettlementWitness tools draws p
      = .ok (witness, draws.outPreimageA p.matchedAmount7dp,
        draws.outPreimageB p.matchedAmount7dp) := by
    simp only [buildMpcSettlementWitness, readCoinPreimage, hA, hB, hassetA,
      hassetB, hbatch, hpool, hchain, hmatched, hdeadline, readCoin_a,
      readCoin_b, hpathsA, hpathsB, panicIf, if_neg hsame]
    rfl
  simp only [buildMpcSettlementProof, bind_eq_ok, panicIf_eq_ok, pure_eq_ok,
    Prod.exists]
  have hpublic : tools.publicHex assignment.publicSignals
      = .ok (bytesHex (encodeSignals
        (assignment.publicSignals.map Word.ofFr))) :=
    Tools.publicHex_eq Circom2Soroban.zeroCrates_readsDecimals
      (length_words assignment)
  have hverified : decide ("OK!".toList <:+: "snarkJS: OK!".toList)
      = true := by decide +kernel
  exact ⟨_, ⟨(), by simp [tools], witness, _, _, hwitness, "proof", _,
    hprove, "snarkJS: OK!", rfl, "00", rfl, _, hpublic, _, rfl, _, rfl, _,
    rfl, _, rfl, rfl⟩, hverified, rfl⟩

end Demo

end Lumix.Proving
