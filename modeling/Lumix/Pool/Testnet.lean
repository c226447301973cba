/-
A deployment to run the pool in, and what is needed to check such a run
by evaluation.

The general part comes first. `occurring_only` turns "no hash collides
in this run" into finitely many look-ups when the tree has one leaf:
all other inputs of the tree are the two-padding pairs of its levels.

`Testnet.env` is the host with the real hashes of the addresses the
deployment uses, Poseidon255 through its table, and ed25519 restricted
to two signatures. Its proofs and keys consist of points at infinity,
on which the pairing equation of every verifier holds; the assignment
behind each proof is given with the call instead.
-/
import Lumix.Circuits.Poseidon255
import Lumix.Pool.System

namespace Lumix

open Exec Run Digits

-- ====================================================== one-leaf trees

/-- The inputs hashed in a tree whose only node at the lowest level is
`x`, beside padding `pad`. -/
def spinePairs (H : List Fr → Fr) : (depth : ℕ) → (x pad : Fr) →
    List (List Fr)
  | 0, _, _ => []
  | depth + 1, x, pad =>
      [x, pad] :: [pad, pad]
        :: spinePairs H depth (H [x, pad]) (H [pad, pad])

/-- Levels `b` to `b + depth` of a tree with one leaf. -/
theorem mem_spinePairs (H : List Fr → Fr) (leaf : Word) (depth b : ℕ)
    {l : ℕ} (hb : b ≤ l) (hl : l < b + depth) (i : ℕ) :
    [LeanIMT.plainNode H [leaf] l (2 * i),
      LeanIMT.plainNode H [leaf] l (2 * i + 1)]
    ∈ spinePairs H depth (LeanIMT.plainNode H [leaf] b 0)
        (Merkle.padNode (LeanIMT.hashPair H) 0 b) := by
  -- a node right of the first has only padding below it
  have hpad : ∀ l j : ℕ, 0 < j → LeanIMT.plainNode H [leaf] l j
      = Merkle.padNode (LeanIMT.hashPair H) 0 l := by
    intro l j hj
    apply LeanIMT.plainNode_eq_padNode
    exact Nat.mul_pos hj (Nat.two_pow_pos l)
  induction depth generalizing b with
  | zero => omega
  | succ depth ih =>
      rcases Nat.eq_or_lt_of_le hb with rfl | hlt
      · cases i with
        | zero =>
            rw [hpad b (2 * 0 + 1) (by omega)]
            exact List.mem_cons_self ..
        | succ i =>
            rw [hpad b (2 * (i + 1)) (by omega),
              hpad b (2 * (i + 1) + 1) (by omega)]
            exact List.mem_cons_of_mem _ (List.mem_cons_self ..)
      · have hrest := ih (b + 1) hlt (by omega)
        rw [show LeanIMT.plainNode H [leaf] (b + 1) 0
          = H [LeanIMT.plainNode H [leaf] b 0,
              LeanIMT.plainNode H [leaf] b 1] from rfl,
          hpad b 1 (by omega)] at hrest
        exact List.mem_cons_of_mem _ (List.mem_cons_of_mem _ hrest)

variable {L : Type} [TokenHost L]

/-- What a run with one leaf hashed, from finitely many inputs. -/
theorem occurring_only {env : Env} {w : World L} {es : List (Event L)}
    {leaf : Word} {K : List (List Fr)}
    (hleaves : (run (step env) w es).pool.treeLeaves = [leaf])
    (hevents : ∀ t ∈ accepted (step env) w es,
      ∀ y ∈ t.event.hashInputs env.poseidon, y ∈ K)
    (hspine : ∀ y ∈ spinePairs env.poseidon
      (run (step env) w es).pool.treeDepth.toNat leaf.toFr 0, y ∈ K) :
    occurring env w es ⊆ { y | y ∈ K } := by
  rintro y (⟨t, ht, hy⟩ | ⟨k, hk, l, hl, i, rfl⟩)
  · exact hevents t ht y hy
  · rw [hleaves, List.take_of_length_le (by simpa using Nat.succ_le_of_lt hk)]
    exact hspine _ (mem_spinePairs env.poseidon leaf _ 0 (Nat.zero_le l)
      (by omega) i)

-- ============================================================= the host

namespace Testnet

def usdc : Address := ⟨1⟩

def xlm : Address := ⟨2⟩

def pool : Address := ⟨3⟩

def user : Address := ⟨4⟩

def admin : Address := ⟨5⟩

def messenger : Address := ⟨6⟩

def nullifierRegistry : Address := ⟨7⟩

def withdrawVerifier : Address := ⟨8⟩

def depositVerifier : Address := ⟨9⟩

def pricedVerifier : Address := ⟨10⟩

/-- The strkeys that are hashed, as the numbers their 56 characters
spell. -/
def strkeys : List (Address × Bytes) := [
  -- CBIELTK6YBZJU5UP2WWQEUCYKLPU6AUNZ2BQ4WWFEIE3USCIHMXQDAMA
  (usdc, beBytes 28 0x434249454c544b3659425a4a5535555032575751455543594b4c5055
    ++ beBytes 28 0x3641554e5a324251345757464549453355534349484d585144414d41),
  -- CDLZFC3SYJYDZT7K67VZ75HPJVIEUVNIXF47ZG2FB2RMQQVU2HHGCYSC
  (xlm, beBytes 28 0x43444c5a46433353594a59445a54374b3637565a373548504a564945
    ++ beBytes 28 0x55564e49584634375a4732464232524d515156553248484743595343),
  -- CCXN7UIMZIIGQWAY7M7D7BXNBCG2QDLO6H7AO56CFYCNTTL7T7ZERQAY
  (pool, beBytes 28 0x4343584e3755494d5a49494751574159374d37443742584e42434732
    ++ beBytes 28 0x51444c4f364837414f3536434659434e54544c3754375a4552514159),
  -- GAQY7ZIK3JFSLQTRF4V2JT3I2VBW3HQAN6DIVS7X7FUERINBFB4SOYCL
  (user, beBytes 28 0x47415159375a494b334a46534c515452463456324a54334932564257
    ++ beBytes 28 0x334851414e364449565337583746554552494e42464234534f59434c)]

/-- Their SHA-256 hashes. -/
def hashes : List (Address × Word) := [
  (usdc, 0xb29782765a764c30ce5abc1136d67fd7ea60f4229e74dd9c8ea26f5dcf7d9af7),
  (xlm, 0x80c44eb66e80c734bae9dd0fff63399da6e5bed4b5dc4611e6c83b54043198d2),
  (pool, 0x799888bf7dc13fcf3b4eba05019222e164964085306173cfe849a2c312ba22b9),
  (user, 0x37a9f034809d75b753853cd71b5f57a9c1496e36c094d648dcea7f78756d824b)]

/-- The hash of an address's strkey, as a field element. -/
def idOf (a : Address) : Word := hashToField ((hashes.lookup a).getD 0)

/-- The hash of the quote, -/
def quoteHash : Word := 0x100

/-- and of the batch. -/
def batchHash : Word := 0x200

/-- The key the quote is signed with, -/
def solverKey : Word :=
  0x15ade05c50af0818508338cf342190890ee82815ec48cb9038bb27a890cbd14d

/-- The solver's signature of `quoteHash`. -/
def solverSig : Signature :=
  0x79bfa86d194d962f08b13d4756edb7c15ba78620d2ed0ac6818b24f8c619d5de#256
    ++ 0x4cfef25f5f9ddd04c0606d1fe96ee52590823dc5a63690b536372a199f2d5a02#256

/-- and the batch. -/
def committeeKey : Word :=
  0xcdaa125db1af2f3aa6ec088f67e32da68cde17ba23fab583a0d1dd0a624c840f

/-- The committee's signature of `batchHash`. -/
def committeeSig : Signature :=
  0x4b895d66079b296adfec69a27ad0bd1b4a89b5fd5451cd3b09c96a5802d35f3a#256
    ++ 0x2ab612e027c3c9dfa3f0bfc0308fa03989f3bb48e2abba0b07849b07edea4f0d#256

/-- The points at infinity of the two groups, serialised. -/
def infinityG1 : Bytes := 0x40 :: List.replicate 95 0

/-- The point at infinity of the second group. -/
def infinityG2 : Bytes := 0x40 :: List.replicate 191 0

/-- BLS12-381 on the points at infinity; no other point occurs. -/
def bls : Bls12381 where
  g1Mul p _ := if p = infinityG1 then some p else none
  g1Add p q := if p = infinityG1 ∧ q = infinityG1 then some p else none
  g1Neg p := p
  pairingCheck ps qs :=
    if ps.all (· = infinityG1) ∧ qs.all (· = infinityG2) then some true
    else none

/-- A key for `n` public signals. -/
def keyBytes (n : ℕ) : Bytes :=
  infinityG1 ++ infinityG2 ++ infinityG2 ++ infinityG2
    ++ beBytes 4 (n + 1) ++ (List.replicate (n + 1) infinityG1).flatten

/-- A proof of three such points. -/
def proofBytes : Bytes := infinityG1 ++ infinityG2 ++ infinityG1

/-- The host the runs are on: hashes of the strkeys they name, and one
signature each. -/
def env : Env where
  poseidon := poseidonFast
  sha256 bytes :=
    match strkeys.find? (·.2 = bytes) with
    | some (a, _) => (hashes.lookup a).getD 0
    | none => 0
  ed25519Verify key message signature :=
    (key, message, signature) ∈ [
      (solverKey, quoteHash.toBytes, solverSig),
      (committeeKey, batchHash.toBytes, committeeSig)]
  strkey a := (strkeys.lookup a).getD []
  bls := bls
  self := pool

theorem env_poseidon : env.poseidon = poseidon255 := poseidonFast_eq

/-- Every authorisation given, at ledger 10. -/
def ctx : Ctx := ⟨fun _ => true, 10⟩

-- ============================================================ the world

/-- The pool constructed with tree depth 12, pool id 1 and chain id 27,
authorised at its registry, and holding the given balances. -/
def genesis (usdcHeld xlmHeld : ℕ) : World SacLedger where
  pool := Pool.construct admin usdc withdrawVerifier nullifierRegistry
    12 1 27
  registry := {
    admin := some admin
    paused := false
    spent := fun _ => false
    authorized := fun a => decide (a = pool) }
  verifiers a :=
    if a = withdrawVerifier then some (some (keyBytes 18))
    else if a = depositVerifier then some (some (keyBytes 14))
    else if a = pricedVerifier then some (some (keyBytes 20))
    else none
  tokens := {
    bal := fun t a =>
      if a = pool then
        if t = usdc then usdcHeld else if t = xlm then xlmHeld else 0
      else 0
    allow := fun _ _ _ => 0
    nonneg := by
      intro t a
      split
      · split
        · omega
        · split <;> omega
      · omega }
  trace := []
  events := []

theorem genesis_constructed (usdcHeld xlmHeld : ℕ) :
    (genesis usdcHeld xlmHeld).Constructed :=
  ⟨_, _, _, _, _, _, _, rfl⟩

/-- The admin configures the pool. -/
def configure (c : AdminCall) : Event SacLedger :=
  .pool ctx (.admin c) .none

/-- The root of the association set that holds the label 11 only. -/
def associationRoot : Fr := (Opening.only env.poseidon 2).root env.poseidon 11

/-- Both assets registered, and every contract and key the runs below
use configured. -/
def setup : List (Event SacLedger) := [
  .pool ctx (.registerAsset (idOf usdc) usdc) .none,
  .pool ctx (.registerAsset (idOf xlm) xlm) .none,
  configure (.setDepositVerifier depositVerifier),
  configure (.setMpcPricedVerifier pricedVerifier),
  configure (.setCctpMessenger messenger),
  configure (.setAssociationRoot (Word.ofFr associationRoot)),
  configure (.setAuthorizedSolver solverKey true),
  configure (.setCommittee [committeeKey])]

-- ========================================================= the calls

/-- The canonical bytes of an assignment's public signals. -/
def canonicalBytes (x : Witness) : Bytes :=
  encodeSignals (x.publicSignals.map Word.ofFr)

/-- The note of 100 USDC that is deposited first. -/
def noteU : Note := ⟨(idOf usdc).toFr, 100, 11, 1001, 2001⟩

/-- A note of 2500 XLM. -/
def noteX : Note := ⟨(idOf xlm).toFr, 2500, 11, 1002, 2002⟩

/-- The deposit of a note, with a nonce of its own. -/
def mint (n : Note) (nonce : Word) (amount6dp amount7dp poolId : Fr) :
    DepositNoteMint where
  operationType := 4
  sourceDomain := 3
  destinationDomain := 27
  cctpNonceHash := (hashToField nonce).toFr
  burnTxHashHash := 1
  amount6dp := amount6dp
  amount7dp := amount7dp
  recipientPool := (idOf pool).toFr
  encryptedNotePayloadHash := 0
  policyIdHash := 0
  poolId := poolId
  chainId := 27
  note := n
  commitment := n.commitment env.poseidon

/-- The root of the pool's tree over the given notes. -/
def rootOf (notes : List Note) : Word :=
  match (LeanIMT.new env.poseidon 12).insertAll env.poseidon
      (notes.map fun n => Word.ofFr (n.commitment env.poseidon)) with
  | some tree => tree.root
  | none => 0

/-- The call that makes a deposit; `notes` are the ones there already. -/
def depositCall (asset : Address) (amount : I128) (nonce : Word)
    (x : DepositNoteMint) (notes : List Note) : Call :=
  .receiveCctpDeposit {
    sourceDomain := 3
    cctpNonce := nonce
    asset := asset
    amount := amount
    commitment := Word.ofFr x.commitment
    newRoot := rootOf (notes ++ [x.note])
    encryptedNotePayloadHash := 0
    policyId := 0
    proofBytes := proofBytes
    pubSignalsBytes := canonicalBytes (.deposit x) }

/-- `noteU` deposited into the empty tree. -/
def depositU : Event SacLedger :=
  let x := mint noteU 0x100 1000 100 1
  .pool ctx (depositCall usdc 100 0x100 x []) (.deposit x)

/-- `noteX` deposited next. -/
def depositX : Event SacLedger :=
  let x := mint noteX 0x200 1000 2500 1
  .pool ctx (depositCall xlm 2500 0x200 x [noteU]) (.deposit x)

/-- The pool with both notes deposited. -/
def twoNotes : World SacLedger :=
  run (step env) (genesis 100 2500) (setup ++ [depositU, depositX])

/-- A public exit of `value` from a note, under the operation type of
any of the four exits. -/
def exit (operationType : Fr) (n : Note) (o : Opening) (value maxFee : Fr) :
    Withdraw where
  operationType := operationType
  withdrawnValue := value
  recipientHash := (idOf user).toFr
  relayerFee := 0
  deadlineLedger := 100
  stateRoot := o.root env.poseidon (n.commitment env.poseidon)
  associationRoot := associationRoot
  poolId := 1
  chainId := 27
  quoteHash := (hashToField quoteHash).toFr
  intentHash := 0
  fillReceiptHash := 0
  destinationDomain := 3
  destinationRecipient := 7
  maxFee := maxFee
  minFinalityThreshold := 1000
  note := n
  state := o
  association := Opening.only env.poseidon 2
  nullifierHash := n.nullifierHash env.poseidon 1 27

/-- The opening of `noteU` while it is alone in the tree. -/
def openU : Opening := Opening.only env.poseidon 12

/-- A settlement by this assignment. -/
def rfqArgs (x : Withdraw) : RfqSettleArgs where
  toSolver := user
  proofBytes := proofBytes
  pubSignalsBytes := canonicalBytes (.withdraw x)
  quoteHash := quoteHash
  intentHash := 0
  fillReceiptHash := 0
  solverPubkey := solverKey
  solverSig := solverSig

/-- `withdraw` of an assignment, in canonical words. -/
def withdrawal (x : Withdraw) : Event SacLedger :=
  .pool ctx (.withdraw ⟨user, proofBytes, canonicalBytes (.withdraw x)⟩)
    (.withdraw x)

/-- The same with the order added to the nullifier word. -/
def aliasedWithdrawal (x : Withdraw) : Event SacLedger :=
  .pool ctx (.withdraw {
      toAddr := user
      proofBytes := proofBytes
      pubSignalsBytes := encodeSignals
        ((x.publicSignals.map Word.ofFr).modifyHead
          (· + BitVec.ofNat 256 r)) })
    (.withdraw x)

/-- 40 of `noteU`, withdrawn. -/
def withdraw40 : Withdraw := exit 1 noteU openU 40 0

/-- `noteU` deposited. -/
def depositRun : List (Event SacLedger) := setup ++ [depositU]

/-- And 40 of it withdrawn. -/
def withdrawRun : List (Event SacLedger) :=
  depositRun ++ [withdrawal withdraw40]

/-- And the note withdrawn from once more, under an alias of its
nullifier. -/
def aliasRun : List (Event SacLedger) :=
  withdrawRun ++ [aliasedWithdrawal withdraw40]

/-- The three runs evaluated: the one leaf, that every accepted call is
proven, and that every input hashed in them is in the table. -/
theorem runs_evaluated :
    ∀ es ∈ [depositRun, withdrawRun, aliasRun],
    (run (step env) (genesis 100 0) es).pool.treeLeaves
        = [Word.ofFr (noteU.commitment env.poseidon)]
      ∧ (∀ t ∈ accepted (step env) (genesis 100 0) es,
        t.event.Proven env.poseidon 12 2)
      ∧ (∀ t ∈ accepted (step env) (genesis 100 0) es,
        ∀ y ∈ t.event.hashInputs env.poseidon, y ∈ digests.map Prod.fst)
      ∧ ∀ y ∈ spinePairs env.poseidon
          (run (step env) (genesis 100 0) es).pool.treeDepth.toNat
          (Word.ofFr (noteU.commitment env.poseidon)).toFr 0,
        y ∈ digests.map Prod.fst := by
  decide +kernel

theorem occurring_digests {es : List (Event SacLedger)}
    (hes : es ∈ [depositRun, withdrawRun, aliasRun]) :
    occurring env (genesis 100 0) es
      ⊆ { y | y ∈ digests.map Prod.fst } := by
  obtain ⟨hleaves, -, hevents, hspine⟩ := runs_evaluated es hes
  exact occurring_only hleaves hevents hspine

/-- `rfq_settle` of an assignment, in canonical words. -/
def rfqSettlement (x : Withdraw) : Event SacLedger :=
  .pool ctx (.rfqSettle (rfqArgs x)) (.withdraw x)

end Testnet

end Lumix
