/-
How far a committee's signatures reach.

The committee signs the hash of a batch of matches, and every settlement
of the batch shows these signatures again. The pool checks that the
proof names the batch hash that was signed, but the circuit only copies
it: neither says which notes a match is between. Nor does the pool
record which batches it has settled. So signatures once published settle
any pair of notes.

What does hold comes from the registry: a pair of nullifiers is spent
once. If every settlement under a batch hash is of one of the batch's
matches, there are no more of them than matches
(`batch_settlements_le`).
-/
import Lumix.Pool.Committee
import Lumix.Pool.Nullifiers

namespace Lumix

open Exec Run

variable {L : Type} [TokenHost L]

-- ========================================================= settlements

/-- The nullifier pair a call settles under the batch hash `b`. -/
def Call.settlement (b : Word) : Call → Option (Word × Word)
  | mpcSettle a | mpcSettlePriced a =>
      if a.batchHash = b then some (a.nullifierA, a.nullifierB) else none
  | _ => none

/-- What the event settles of the batch, if anything. -/
def Event.settlement (b : Word) : Event L → Option (Word × Word)
  | pool _ c _ => c.settlement b
  | registry _ _ | tokens _ _ => none

/-- The accepted committee settlements of a history that carry the batch
hash `b`, each as the pair it spent. -/
def settlements (b : Word) (h : List (Transition (World L) (Event L))) :
    List (Word × Word) :=
  h.filterMap fun t => t.event.settlement b

/-- A settlement spends the pair it is of. -/
theorem Call.nullifierWords_of_settlement {c : Call} {b : Word}
    {pair : Word × Word} (h : c.settlement b = some pair) :
    c.nullifierWords = [pair.1, pair.2] := by
  unfold Call.settlement at h
  split at h
  · split at h
    · cases h
      rfl
    · cases h
  · split at h
    · cases h
      rfl
    · cases h
  · cases h

omit [TokenHost L] in
theorem Event.nullifierWords_of_settlement {e : Event L} {b : Word}
    {pair : Word × Word} (h : e.settlement b = some pair) :
    e.nullifierWords = [pair.1, pair.2] := by
  cases e with
  | pool ctx c x => exact Call.nullifierWords_of_settlement h
  | registry ctx c => cases h
  | tokens drawer ledger => cases h

omit [TokenHost L] in
/-- The first nullifiers of the settlements are among the words the
history spent, in order. -/
theorem settlements_sublist (b : Word)
    (h : List (Transition (World L) (Event L))) :
    ((settlements b h).map Prod.fst).Sublist (spentWords h) := by
  induction h with
  | nil => exact List.Sublist.slnil
  | cons t h ih =>
      show ((settlements b (t :: h)).map Prod.fst).Sublist
        (t.event.nullifierWords ++ spentWords h)
      cases hpair : t.event.settlement b with
      | none =>
          simp only [settlements, List.filterMap_cons, hpair]
          exact ih.trans (List.sublist_append_right _ _)
      | some pair =>
          simp only [settlements, List.filterMap_cons, hpair]
          rw [Event.nullifierWords_of_settlement hpair]
          exact (ih.trans (List.sublist_cons_self _ _)).cons_cons pair.1

/-- No pair is settled twice. -/
theorem settlements_nodup (env : Env) (b : Word) (w₀ : World L)
    (es : List (Event L)) :
    (settlements b (accepted (step env) w₀ es)).Nodup := by
  have hwords := @spentWords_nodup _ _ env w₀ es
  exact (hwords.sublist (settlements_sublist b _)).of_map

/-- Committee authorisation. If every accepted settlement that carries a
batch hash is of one of the batch's matches, given by their nullifier
pairs, then at most as many settlements carrying it are accepted over
the whole run as the batch has matches. -/
theorem batch_settlements_le {env : Env} (w₀ : World L)
    (es : List (Event L)) (b : Word) (batch : List (Word × Word))
    (hbatch : ∀ t ∈ accepted (step env) w₀ es, ∀ pair,
      t.event.settlement b = some pair → pair ∈ batch) :
    (settlements b (accepted (step env) w₀ es)).length ≤ batch.length := by
  have hsub : settlements b (accepted (step env) w₀ es) ⊆ batch := by
    intro pair hpair
    obtain ⟨t, ht, hset⟩ := List.mem_filterMap.mp hpair
    exact hbatch t ht pair hset
  exact ((settlements_nodup env b w₀ es).subperm hsub).length_le

section Runs

open Testnet

namespace Batch

/-- Digests of a second crossing: its outputs, the nullifiers it spends,
and the trees after them. -/
def digests : List (List Fr × Fr) := [
  ([1009, 2009],
   0x60d6b5d89148308467384a508506b247c047dccb4f3140d1121229ebb7addd38),
  ([0x4b2e21aae5447e2de0bfaf7c4b3ebce755af24103b3ddd725834ae06337bf279,
    0x60d6b5d89148308467384a508506b247c047dccb4f3140d1121229ebb7addd38],
   0x5986c69b5431162238c8eb8d371724c5ab1ed3eb2d5c597770e8beb4d1e178f7),
  ([1010, 2010],
   0x4fb782fb26d7a112dfa78ee032d06dc11dbb2da0f96546c723866ec7a89a6a93),
  ([0x11ec96ab0d629741005a590d3f855fa5fd275cc94d3b4f5aa41d81daef296bba,
    0x4fb782fb26d7a112dfa78ee032d06dc11dbb2da0f96546c723866ec7a89a6a93],
   0x6dd60b05a22e974ded5f3be285d7373d0c946822581b481a57830dca40b9615a),
  ([1006, 1, 27],
   0x19efdcced0d84401d8eb4a26f11d9c97197d0a945b45bddf68e0ed0b582bcbed),
  ([1005, 1, 27],
   0x223e5ef1a8ecc7aec80a4bd8f2eb3c26157c710b4aeaedd37443bc312602300b),
  ([0x5986c69b5431162238c8eb8d371724c5ab1ed3eb2d5c597770e8beb4d1e178f7, 0],
   0x1935cc4df30291793c213e86da32a5d6f5541c219e5bbd5ba7342f9290d1950b),
  ([0x1935cc4df30291793c213e86da32a5d6f5541c219e5bbd5ba7342f9290d1950b,
    0x720772992425c4618eaf8a7ff4b6ad5333a76fe17dd3624e2329a57dfaaa505e],
   0x4e36c6495cba6d9433a268c477cc5336e5f89100dde3f0a81d51003b73ebc686),
  ([0x398cd719a373df7f8bfa85e4ba95046fdc9d1276cc3ddc9702909d384f2ed6af,
    0x4e36c6495cba6d9433a268c477cc5336e5f89100dde3f0a81d51003b73ebc686],
   0x682bd38d861fea43c5dafdcd6bd19b406c716d9b789c9fb330fa777eed1a2e1e),
  ([0x682bd38d861fea43c5dafdcd6bd19b406c716d9b789c9fb330fa777eed1a2e1e,
    0x3d80cb9c131f7c003cfb82ad7580b88420c216204962cf952256dc785ff68839],
   0x4ee1d3f00f069034851df15ebd91441f2c39d38c190e828a46b89d236e3967ba),
  ([0x4ee1d3f00f069034851df15ebd91441f2c39d38c190e828a46b89d236e3967ba,
    0x571de3db51ffb4a0181a0b56a613726377dbd093265c4c3800f6c4595079c5c8],
   0x6a0f6c77c3ca4ac956337bfbb4316dd5b8359aa17d0937c1caedf5d51706858e),
  ([0x6a0f6c77c3ca4ac956337bfbb4316dd5b8359aa17d0937c1caedf5d51706858e,
    0x3710eeae180bad05ae19ce0bcc836ad2dee7fb9835a00f2ac4675466a0eef347],
   0x190b46bc82c443d912ddf96f3520b936318be47cc5f7d555e0a90f5df55810f9),
  ([0x190b46bc82c443d912ddf96f3520b936318be47cc5f7d555e0a90f5df55810f9,
    0x30de0f3432e12933f0fe438a960eeb42855c7d666a378b2ebc43aff37c52d053],
   0x18ac43e238951ceff1967bccb0a72e0cc6b1e263fadd87fee54a2c2f1261993f),
  ([0x18ac43e238951ceff1967bccb0a72e0cc6b1e263fadd87fee54a2c2f1261993f,
    0x3f6004a2a18568e13c38e4cafe62cb89f10142516f1c217617885d33a54e4dff],
   0x4aa972d17aa7de8896a11c97dcbece1bb4e125c8fefc6b5fcc424389d7876f95),
  ([0x4aa972d17aa7de8896a11c97dcbece1bb4e125c8fefc6b5fcc424389d7876f95,
    0xf014e0c4bc64f4b27d439c1d94837f99e4d9df3a4c9a062c5294c1a0842eea1],
   0x474445a66ed4f3ab7618ba372fa6201f50a7b0504c328eba265af81237a49e8e),
  ([0x474445a66ed4f3ab7618ba372fa6201f50a7b0504c328eba265af81237a49e8e,
    0x70bf7834ccd244e48fa857920f61b6202cd1dcf49e3017164c82c30ff56cec99],
   0xb1bbf1eee3cfe7fbd77b1bc3497d365e50b5bdc4cf2627e2437ab658358486f),
  ([0xb1bbf1eee3cfe7fbd77b1bc3497d365e50b5bdc4cf2627e2437ab658358486f,
    0x1ec4b50cea868b8ae6ac178b403ed3bcc9a2340e99e4ac0cff7ae09c51d4ca0b],
   0x5357f3ce137e74054f8ecb0a1d57b0aeb6fdca33317d047d90c9fb21ca15db4a),
  ([0x5357f3ce137e74054f8ecb0a1d57b0aeb6fdca33317d047d90c9fb21ca15db4a,
    0x2950a7758b1c3583fa951dd305922403108abe2c0c41bb3f667fae3c53f8ac74],
   0x3cb5a36ab43ce5e11594474af73cb38b97abbc40f9c1a99b00edaa3e9934232d),
  ([0x5986c69b5431162238c8eb8d371724c5ab1ed3eb2d5c597770e8beb4d1e178f7,
    0x6dd60b05a22e974ded5f3be285d7373d0c946822581b481a57830dca40b9615a],
   0x3e0d506ad57e0d6c0b23a59586936df6561b74edb606e0d548541b234eda9649),
  ([0x3e0d506ad57e0d6c0b23a59586936df6561b74edb606e0d548541b234eda9649,
    0x720772992425c4618eaf8a7ff4b6ad5333a76fe17dd3624e2329a57dfaaa505e],
   0x21b43176f6304d2d85a7b49e022dc93349f9d09b33490901fdbfb59af9c60dcb),
  ([0x398cd719a373df7f8bfa85e4ba95046fdc9d1276cc3ddc9702909d384f2ed6af,
    0x21b43176f6304d2d85a7b49e022dc93349f9d09b33490901fdbfb59af9c60dcb],
   0xa29fbbcddc1ece219e9eab8e97afbbfa5ef317bb9432b5b98a3af1bf9e76ebc),
  ([0xa29fbbcddc1ece219e9eab8e97afbbfa5ef317bb9432b5b98a3af1bf9e76ebc,
    0x3d80cb9c131f7c003cfb82ad7580b88420c216204962cf952256dc785ff68839],
   0x7129e72bc3f797307052eb0bfaa2f969334d7ed71136cab838ed0ad4b629a3df),
  ([0x7129e72bc3f797307052eb0bfaa2f969334d7ed71136cab838ed0ad4b629a3df,
    0x571de3db51ffb4a0181a0b56a613726377dbd093265c4c3800f6c4595079c5c8],
   0x3784c68564802e89a13849fa721288f667ce0f42ba7174f77ab15efa4613b03b),
  ([0x3784c68564802e89a13849fa721288f667ce0f42ba7174f77ab15efa4613b03b,
    0x3710eeae180bad05ae19ce0bcc836ad2dee7fb9835a00f2ac4675466a0eef347],
   0x145d19c5672a00853c85bd3e0f5d0b43bf09b77fd17be9280d1fcd0081a14698),
  ([0x145d19c5672a00853c85bd3e0f5d0b43bf09b77fd17be9280d1fcd0081a14698,
    0x30de0f3432e12933f0fe438a960eeb42855c7d666a378b2ebc43aff37c52d053],
   0x183c127693e87fddbece146bb54495d8422ae24ea321a09de8e4eb22a9438fc3),
  ([0x183c127693e87fddbece146bb54495d8422ae24ea321a09de8e4eb22a9438fc3,
    0x3f6004a2a18568e13c38e4cafe62cb89f10142516f1c217617885d33a54e4dff],
   0x460b07dc59b3c843838f7524a1cc4d0626254a9caef41f65bd2d58d4a8e761ca),
  ([0x460b07dc59b3c843838f7524a1cc4d0626254a9caef41f65bd2d58d4a8e761ca,
    0xf014e0c4bc64f4b27d439c1d94837f99e4d9df3a4c9a062c5294c1a0842eea1],
   0x17c27dcc26a1b2f9738f6fe968089ba9adf23dc73c29cf4af8e7ff99876529a5),
  ([0x17c27dcc26a1b2f9738f6fe968089ba9adf23dc73c29cf4af8e7ff99876529a5,
    0x70bf7834ccd244e48fa857920f61b6202cd1dcf49e3017164c82c30ff56cec99],
   0x65334620788b0dfdb9c667c9bf1da0f85cb580cea949acaedef601c8503304b2),
  ([0x65334620788b0dfdb9c667c9bf1da0f85cb580cea949acaedef601c8503304b2,
    0x1ec4b50cea868b8ae6ac178b403ed3bcc9a2340e99e4ac0cff7ae09c51d4ca0b],
   0x1be94ec9eddbc7d96298e492e1d1edec1b2c9de82ecdca6bbe150bb82c61afa2),
  ([0x1be94ec9eddbc7d96298e492e1d1edec1b2c9de82ecdca6bbe150bb82c61afa2,
    0x2950a7758b1c3583fa951dd305922403108abe2c0c41bb3f667fae3c53f8ac74],
   0x4487d3d1a31dc35039d2747ac281cff335c6b4e3f097a7c8da57534f01e5ce5f)]

/-- The digests of the three runs below. -/
def digestTable : DigestTable where
  entries := digests
  residues := by decide +kernel

/-- The testnet host, with these digests in its table too. -/
def env : Env :=
  { Testnet.env with
    poseidon := tabulated poseidon255 (Lumix.digests ++ digests) }

theorem env_poseidon : env.poseidon = poseidon255 := by
  apply tabulated_eq
  intro entry hentry
  rcases List.mem_append.mp hentry with hentry | hentry
  · exact digests_right entry hentry
  · exact digestTable.right entry hentry

/-- The match the committee signed. -/
def signed : MpcPricedSettlement := pricedCrossing 25000000000

/-- The opening of one of the two outputs of the match, which are the
third and fourth leaf; `right` says which, `other` is the one beside
it. -/
def openOutput (right : Bool) (other : Fr) : Opening where
  leafIndex := 2 + right.toNat
  siblings := other
    :: env.poseidon [noteU.commitment env.poseidon,
      noteX.commitment env.poseidon]
    :: (Opening.only env.poseidon 12).siblings.drop 2
  indices := right :: true :: List.replicate 10 false

/-- The outputs of the match crossed back, under the same batch hash. -/
def unsigned : MpcPricedSettlement :=
  { signed with
    stateRoot := (openOutput true signed.outputCommitmentA).root
      env.poseidon signed.outputCommitmentB
    nullifierA := 1006
    secretA := 2006
    stateA := openOutput true signed.outputCommitmentA
    nullifierB := 1005
    secretB := 2005
    stateB := openOutput false signed.outputCommitmentB
    outNullifierA := 1009
    outSecretA := 2009
    outNullifierB := 1010
    outSecretB := 2010
    nullifierHashA := signed.outNoteB.nullifierHash env.poseidon 1 27
    nullifierHashB := signed.outNoteA.nullifierHash env.poseidon 1 27
    outputCommitmentA := Note.commitment env.poseidon
      ⟨noteX.assetId, 2500, 11, 1009, 2009⟩
    outputCommitmentB := Note.commitment env.poseidon
      ⟨noteU.assetId, 100, 11, 1010, 2010⟩ }

/-- The root after both crossings. -/
def newRoot : Word :=
  match (LeanIMT.new env.poseidon 12).insertAll env.poseidon
      ([noteU, noteX, signed.outNoteA, signed.outNoteB, unsigned.outNoteA,
        unsigned.outNoteB].map fun n =>
          Word.ofFr (n.commitment env.poseidon)) with
  | some tree => tree.root
  | none => 0

/-- The settlement of the batch's own match. -/
def settleSigned : Event SacLedger :=
  .pool ctx (.mpcSettlePriced (pricedArgs signed)) (.priced signed)

/-- A settlement under the batch's hash that no match of it asks for. -/
def settleUnsigned : Event SacLedger :=
  .pool ctx (.mpcSettlePriced { pricedArgs unsigned with newRoot := newRoot })
    (.priced unsigned)

/-- Both notes deposited and crossed as signed. -/
def signedRun : List (Event SacLedger) :=
  setup ++ [depositU, depositX, settleSigned]

/-- And the outputs crossed back with the same signatures. -/
def replayRun : List (Event SacLedger) := signedRun ++ [settleUnsigned]

/-- The batch: one match, between `noteU` and `noteX`. -/
def pairs : List (Word × Word) :=
  [(Word.ofFr signed.nullifierHashA, Word.ofFr signed.nullifierHashB)]

/-- Every accepted call of the longer run is proven. It settles two
pairs, the shorter run the one signed for. -/
theorem runs_evaluated :
    (∀ t ∈ accepted (step env) (genesis 100 2500) replayRun,
      t.event.Proven env.poseidon 12 2)
    ∧ settlements batchHash (accepted (step env) (genesis 100 2500)
        signedRun) = pairs
    ∧ (settlements batchHash (accepted (step env) (genesis 100 2500)
        replayRun)).length = 2 := by
  decide +kernel

end Batch

/-- The signed match is settled within its batch. -/
theorem batch_settlements_le_signed :
    (settlements batchHash (accepted (step Batch.env) (genesis 100 2500)
        Batch.signedRun)).length = 1
      ∧ (settlements batchHash (accepted (step Batch.env)
        (genesis 100 2500) Batch.signedRun)).length
        ≤ Batch.pairs.length := by
  obtain ⟨-, hpairs, -⟩ := Batch.runs_evaluated
  refine ⟨by rw [hpairs]; rfl, ?_⟩
  apply batch_settlements_le
  intro t ht pair hpair
  rw [← hpairs]
  exact List.mem_filterMap.mpr ⟨t, ht, hpair⟩

/-- The same signatures settle a second pair. -/
theorem batch_settlements_replayed :
    (genesis 100 2500).Constructed
      ∧ Batch.env.poseidon = poseidon255
      ∧ (∀ t ∈ accepted (step Batch.env) (genesis 100 2500)
        Batch.replayRun, t.event.Proven Batch.env.poseidon 12 2)
      ∧ Batch.pairs.length = 1
      ∧ ¬(settlements batchHash (accepted (step Batch.env)
        (genesis 100 2500) Batch.replayRun)).length
          ≤ Batch.pairs.length := by
  obtain ⟨hproven, -, htwo⟩ := Batch.runs_evaluated
  refine ⟨genesis_constructed 100 2500, Batch.env_poseidon, hproven, rfl,
    ?_⟩
  rw [htwo]
  decide

end Runs

end Lumix
