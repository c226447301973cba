/-
What else the tree offers: node lookups, inclusion proofs, and the trip
through storage. A deserialised tree keeps its leaves and its root and
forgets its caches, so from then on it answers from the leaves what the
original answers from its caches. Both answers are the plain tree's, so
nobody can tell the two apart (`Sound.agree`), now or after any further
insertions.

The siblings of an inclusion proof are the plain tree's too, and the
circuit's `MerkleProof` climbs along them to the stored root. The prover
walks by the parity of an index, the circuit by the bits `Num2Bits`
gives it; below 32 levels those bits are the only ones that fit.
-/
import Lumix.Circuits.Gadgets
import Lumix.Contracts.TreeRuns

namespace Lumix.LeanIMT

open Digits

variable (poseidon : List Fr → Fr)

-- ========================================================== the source

/-- `get_node`. -/
def getNode (t : LeanIMT) (level index : ℕ) : Option Word :=
  if level = 0 then t.leaves[index]?
  else if level > t.depth then none
  else some (Word.ofFr (computeNodeAtLevelScalar poseidon t level index))

/-- The loop of `generate_proof`, `remaining` levels below the root. -/
def proofSiblings (t : LeanIMT) : (remaining level index : ℕ) → List Fr
  | 0, _, _ => []
  | remaining + 1, level, index =>
      let siblingIndex := if index % 2 = 0 then index + 1 else index - 1
      let siblingScalar :=
        if level = 0 then leafScalar t.leaves siblingIndex
        else computeNodeAtLevelScalar poseidon t level siblingIndex
      siblingScalar :: proofSiblings t remaining (level + 1) (index / 2)

/-- `generate_proof`, with its own case for two leaves at depth 1. -/
def generateProof (t : LeanIMT) (leafIndex : ℕ) :
    Option (List Fr × ℕ) :=
  if leafIndex ≥ t.leaves.length then none
  else if t.depth = 1 ∧ t.leaves.length = 2 then
    if leafIndex = 0 then some ([leafScalar t.leaves 1], t.depth)
    else some ([leafScalar t.leaves 0], t.depth)
  else some (proofSiblings poseidon t t.depth 0 leafIndex, t.depth)

/-- `recompute_tree`: the root and the subtree cache of an empty tree. -/
def recomputeTree (t : LeanIMT) : LeanIMT :=
  if t.depth = 0 then { t with root := 0 }
  else
    { t with
      root := Word.ofFr (emptyLevels poseidon t.depth).2
      subtreeCache := fun level =>
        match (emptyLevels poseidon t.depth).1 level with
        | some hash => some hash
        | none => t.subtreeCache level }

/-- `rebuild_cache_from_leaves`. -/
def rebuildCacheFromLeaves (t : LeanIMT) : LeanIMT :=
  if t.leaves = [] then recomputeTree poseidon t
  else { t with subtreeCache := fun _ => none, sparseCache := fun _ => none }

/-- `to_storage`. -/
def toStorage (t : LeanIMT) : List Word × ℕ × Word :=
  (t.leaves, t.depth, t.root)

/-- `from_storage`. -/
def fromStorage : List Word × ℕ × Word → LeanIMT
  | (leaves, depth, root) =>
      rebuildCacheFromLeaves poseidon {
        leaves, depth, root
        capacity := capacityOf depth
        subtreeCache := fun _ => none
        sparseCache := fun _ => none }

-- ======================================================== the answers

variable {poseidon} {d : ℕ} {t t' : LeanIMT}

/-- A sound tree computes the plain nodes, -/
theorem Sound.compute_eq (h : Sound poseidon d t) {level : ℕ}
    (hl : level ≤ d) (index : ℕ) :
    computeNodeAtLevelScalar poseidon t level index
      = plainNode poseidon t.leaves level index := by
  have hd := h.depth_eq
  exact computeNode_eq poseidon (by omega)
    (fun l hl' i v hv => h.refines.cache l (by omega) i v hv) index

/-- The siblings collected are the plain tree's. -/
theorem Sound.siblings_eq (h : Sound poseidon d t)
    (remaining level index : ℕ) (hle : level + remaining ≤ d) :
    proofSiblings poseidon t remaining level index
      = (Merkle.opening (hashPair poseidon) (leafScalar t.leaves) remaining
          level index).map Prod.snd := by
  induction remaining generalizing level index with
  | zero => rfl
  | succ remaining ih =>
      have hsib : (if level = 0 then
            leafScalar t.leaves (Merkle.sibling index)
          else computeNodeAtLevelScalar poseidon t level
            (Merkle.sibling index))
          = plainNode poseidon t.leaves level (Merkle.sibling index) := by
        by_cases h0 : level = 0
        · rw [if_pos h0]
          subst h0
          rfl
        · rw [if_neg h0]
          exact h.compute_eq (by omega) _
      simp only [proofSiblings, Merkle.opening, List.map_cons]
      rw [ih (level + 1) (index / 2) (by omega)]
      exact congrArg (· :: _) hsib

/-- A proof is the plain tree's opening, in the special case too. -/
theorem Sound.proof_eq (h : Sound poseidon d t) (leafIndex : ℕ) :
    generateProof poseidon t leafIndex
      = if leafIndex < t.leaves.length then
          some ((Merkle.opening (hashPair poseidon) (leafScalar t.leaves) d
            0 leafIndex).map Prod.snd, d)
        else none := by
  unfold generateProof
  rw [h.depth_eq]
  by_cases hi : leafIndex < t.leaves.length
  · rw [if_neg (by omega), if_pos hi]
    by_cases htwo : d = 1 ∧ t.leaves.length = 2
    · rw [if_pos htwo]
      obtain ⟨rfl, hlen⟩ := htwo
      rcases (show leafIndex = 0 ∨ leafIndex = 1 by omega) with rfl | rfl
      · rfl
      · rfl
    · rw [if_neg htwo, h.siblings_eq d 0 leafIndex (by omega)]
  · rw [if_pos (by omega), if_neg hi]

/-- and so gives them out. -/
theorem Sound.node_eq (h : Sound poseidon d t) (level index : ℕ) :
    getNode poseidon t level index
      = if level = 0 then t.leaves[index]?
        else if level > d then none
        else some (Word.ofFr (plainNode poseidon t.leaves level index)) := by
  unfold getNode
  rw [h.depth_eq]
  by_cases h0 : level = 0
  · rw [if_pos h0, if_pos h0]
  · rw [if_neg h0, if_neg h0]
    by_cases hgt : level > d
    · rw [if_pos hgt, if_pos hgt]
    · rw [if_neg hgt, if_neg hgt, h.compute_eq (by omega)]

/-- Two sound trees over one leaf list give the same answers. -/
theorem Sound.agree (h : Sound poseidon d t) (h' : Sound poseidon d t')
    (hl : t'.leaves = t.leaves) :
    t'.root = t.root
      ∧ (∀ level index, getNode poseidon t' level index
        = getNode poseidon t level index)
      ∧ (∀ leafIndex, generateProof poseidon t' leafIndex
        = generateProof poseidon t leafIndex)
      ∧ ∀ leaf, (tryInsert poseidon t' leaf).1
        = (tryInsert poseidon t leaf).1 := by
  refine ⟨?_, ?_, ?_, ?_⟩
  · rw [h'.refines.root, h.refines.root, h'.depth_eq, h.depth_eq, hl]
  · intro level index
    rw [h'.node_eq, h.node_eq, hl]
  · intro leafIndex
    rw [h'.proof_eq, h.proof_eq, hl]
  · intro leaf
    unfold tryInsert
    rw [hl, h'.capacity_eq, h.capacity_eq]
    split
    · rfl
    · rfl

-- ============================================================ storage

/-- A deserialised tree is sound, over the same leaves. -/
theorem Sound.restored (h : Sound poseidon d t) :
    Sound poseidon d (fromStorage poseidon t.toStorage)
      ∧ (fromStorage poseidon t.toStorage).leaves = t.leaves := by
  have hroom : t.leaves.length ≤ capacityOf t.depth := by
    rw [h.depth_eq, ← h.capacity_eq]
    exact h.room
  have hcap : capacityOf t.depth = capacityOf d := by rw [h.depth_eq]
  have hread : fromStorage poseidon t.toStorage
      = rebuildCacheFromLeaves poseidon { t with
          capacity := capacityOf t.depth
          subtreeCache := fun _ => none
          sparseCache := fun _ => none } := rfl
  rw [hread]
  unfold rebuildCacheFromLeaves
  split
  case isTrue hempty =>
    have hnil : t.leaves = [] := hempty
    unfold recomputeTree
    split
    case isTrue h0 =>
      have hd0 : t.depth = 0 := h0
      refine ⟨⟨h.depth_eq, hcap, ⟨?_, ?_⟩, hroom⟩, rfl⟩
      · intro l hl i v hv
        cases hv
      · show (0 : Word) = Word.ofFr (plainRoot poseidon t.depth t.leaves)
        rw [hnil, hd0]
        exact (new_refines poseidon 0).root
    case isFalse =>
      refine ⟨⟨h.depth_eq, hcap, ⟨?_, ?_⟩, hroom⟩, rfl⟩
      · intro l hl i v hv
        simp only [getCachedNode] at hv
        split at hv
        case h_1 hash hhash =>
          injection hv with hv
          rw [← hv, emptyLevels_fst poseidon hhash, plainNode_eq_padNode]
          simp [hnil]
        case h_2 => cases hv
      · show Word.ofFr (emptyLevels poseidon t.depth).2
          = Word.ofFr (plainRoot poseidon t.depth t.leaves)
        rw [emptyLevels_snd, plainRoot, plainNode_eq_padNode]
        simp [hnil]
  case isFalse =>
    refine ⟨⟨h.depth_eq, hcap, ⟨?_, h.refines.root⟩, hroom⟩, rfl⟩
    intro l hl i v hv
    cases hv

/-- The trip through storage cannot be observed. For every tree reached
from `new` by insertions, the tree and its deserialised copy agree on
the root, on every node, on every proof and on the result of the next
insertion, now and after any further insertions made to both. -/
theorem storage_unobservable (poseidon : List Fr → Fr) {d : ℕ}
    (_hd : d < 32) (ls ms : List Word) :
    let t := inserts poseidon (new poseidon d) ls
    let u := inserts poseidon t ms
    let u' := inserts poseidon (fromStorage poseidon t.toStorage) ms
    u'.root = u.root
      ∧ (∀ level ≤ d, ∀ index < 2 ^ (d - level),
        getNode poseidon u' level index = getNode poseidon u level index)
      ∧ (∀ leafIndex, generateProof poseidon u' leafIndex
        = generateProof poseidon u leafIndex)
      ∧ ∀ leaf, (tryInsert poseidon u' leaf).1
        = (tryInsert poseidon u leaf).1 := by
  intro t u u'
  have ht : Sound poseidon d t := (new_sound poseidon d).after_inserts ls
  obtain ⟨ht', hl⟩ := ht.restored
  -- the two leaf lists move in step
  have hleaves : u'.leaves = u.leaves := by
    show (inserts poseidon _ ms).leaves = (inserts poseidon _ ms).leaves
    rw [ht'.leaves_inserts, ht.leaves_inserts, hl, ht'.capacity_eq,
      ht.capacity_eq]
  obtain ⟨hroot, hnode, hproof, hresult⟩ :=
    (ht.after_inserts ms).agree (ht'.after_inserts ms) hleaves
  exact ⟨hroot, fun level _ index _ => hnode level index, hproof, hresult⟩

/-- A tree of depth 2 with one leaf, stored, read back, and grown by two
more. -/
theorem storage_unobservable_three :
    (inserts poseidon255 (fromStorage poseidon255
        (inserts poseidon255 (new poseidon255 2) [5]).toStorage) [7, 9]).root
      = (inserts poseidon255 (inserts poseidon255 (new poseidon255 2) [5])
          [7, 9]).root :=
  (storage_unobservable poseidon255 (d := 2) (by decide) [5] [7, 9]).1

-- ============================================================== proofs

/-- A leaf as a scalar. -/
theorem leafScalar_getElem {leaves : List Word} {i : ℕ}
    (hi : i < leaves.length) :
    leafScalar leaves i = leaves[i].toFr := by
  unfold leafScalar
  rw [List.getElem?_eq_getElem hi]

/-- The bits of an index below `2 ^ d`, where the order cannot wrap. -/
theorem num2Bits_index {bits : List Bool} {i : ℕ} (hd : d < 32)
    (hi : i < 2 ^ d) : Num2Bits d (i : Fr) bits ↔ bits = bitsOf d i := by
  have hr : 2 ^ 32 < r := by decide
  have hpow : 2 ^ d ≤ 2 ^ 32 := Nat.pow_le_pow_right (by omega) hd.le
  constructor
  · rintro ⟨hlen, hval⟩
    have hlt := bitsVal_lt bits
    rw [hlen] at hlt
    rw [ZMod.natCast_eq_natCast_iff', Nat.mod_eq_of_lt (by omega),
      Nat.mod_eq_of_lt (by omega)] at hval
    rw [← hval, ← hlen, bitsOf_bitsVal]
  · rintro rfl
    exact ⟨length_bitsOf d i, by rw [bitsVal_bitsOf hi]⟩

/-- The circuit climbs along the siblings of a sound tree's proof to the
tree's root, and to nothing else. -/
theorem Sound.proof_opens (h : Sound poseidon d t) (hd : d < 32)
    {leafIndex : ℕ} (hi : leafIndex < t.leaves.length) :
    ∃ siblings, generateProof poseidon t leafIndex = some (siblings, d)
      ∧ siblings.length = d
      ∧ (∃ indices, MerkleProof poseidon d t.leaves[leafIndex].toFr
          ⟨leafIndex, siblings, indices⟩ t.root.toFr)
      ∧ ∀ indices out, MerkleProof poseidon d t.leaves[leafIndex].toFr
          ⟨leafIndex, siblings, indices⟩ out → Word.ofFr out = t.root := by
  have hindex : leafIndex < 2 ^ d := by
    have hroom := h.room
    have hle := capacityOf_le d
    rw [h.capacity_eq] at hroom
    omega
  have hlength : (Merkle.opening (hashPair poseidon) (leafScalar t.leaves) d
      0 leafIndex).length = d := by
    have hsides := congrArg List.length (Merkle.opening_sides
      (hashPair poseidon) (leafScalar t.leaves) d 0 leafIndex)
    rwa [List.length_map, length_bitsOf] at hsides
  -- with the right bits the circuit walks the tree's own opening
  have hclimb : Merkle.climb (hashPair poseidon) t.leaves[leafIndex].toFr
      ((bitsOf d leafIndex).zip ((Merkle.opening (hashPair poseidon)
        (leafScalar t.leaves) d 0 leafIndex).map Prod.snd))
      = plainRoot poseidon d t.leaves := by
    rw [← List.zip_of_prod (Merkle.opening_sides _ _ d 0 leafIndex) rfl,
      ← leafScalar_getElem hi]
    have hup := Merkle.climb_opening (h := hashPair poseidon)
      (leafScalar t.leaves) d 0 leafIndex
    rwa [Nat.zero_add, Nat.div_eq_of_lt hindex] at hup
  have hroot : t.root = Word.ofFr (plainRoot poseidon d t.leaves) := by
    rw [h.refines.root, h.depth_eq]
  refine ⟨_, by rw [h.proof_eq, if_pos hi], by rw [List.length_map, hlength],
    ⟨bitsOf d leafIndex, ?_⟩, ?_⟩
  · refine ⟨by rw [List.length_map, hlength],
      (num2Bits_index hd hindex).mpr rfl, ?_⟩
    rw [hroot, Word.toFr_ofFr]
    exact hclimb
  · rintro indices out ⟨-, hbits, hout⟩
    obtain rfl := (num2Bits_index hd hindex).mp hbits
    rw [hroot, ← hout]
    exact congrArg Word.ofFr hclimb

/-- On-chain proofs open in the circuit. For every tree of depth 1 to 31
grown from `new`, or read back from storage and grown further, a proof of
a present leaf has one sibling per level, and `MerkleProof` fed with the
leaf, its index and these siblings outputs the stored root and nothing
else. -/
theorem generated_proof_opens (poseidon : List Fr → Fr) {d : ℕ}
    (_hd : 1 ≤ d) (hd' : d < 32) (ls ms : List Word) {t : LeanIMT}
    (ht : t = inserts poseidon (new poseidon d) ls
      ∨ t = inserts poseidon (fromStorage poseidon
        (inserts poseidon (new poseidon d) ls).toStorage) ms)
    {leafIndex : ℕ} (hi : leafIndex < t.leaves.length) :
    ∃ siblings, generateProof poseidon t leafIndex = some (siblings, d)
      ∧ siblings.length = d
      ∧ (∃ indices, MerkleProof poseidon d t.leaves[leafIndex].toFr
          ⟨leafIndex, siblings, indices⟩ t.root.toFr)
      ∧ ∀ indices out, MerkleProof poseidon d t.leaves[leafIndex].toFr
          ⟨leafIndex, siblings, indices⟩ out → Word.ofFr out = t.root := by
  have hgrown : Sound poseidon d (inserts poseidon (new poseidon d) ls) :=
    (new_sound poseidon d).after_inserts ls
  have hsound : Sound poseidon d t := by
    rcases ht with rfl | rfl
    · exact hgrown
    · exact hgrown.restored.1.after_inserts ms
  exact hsound.proof_opens hd' hi

/-- The second of two leaves at depth 1, the case `generate_proof`
treats apart. -/
theorem generated_proof_opens_second :
    ∃ siblings, generateProof poseidon255
        (inserts poseidon255 (new poseidon255 1) [5, 7]) 1
        = some (siblings, 1)
      ∧ ∃ indices, MerkleProof poseidon255 1 (7 : Word).toFr
          ⟨1, siblings, indices⟩
          (inserts poseidon255 (new poseidon255 1) [5, 7]).root.toFr := by
  have hleaves : (inserts poseidon255 (new poseidon255 1) [5, 7]).leaves
      = [5, 7] := (new_sound poseidon255 1).leaves_inserts [5, 7]
  have hi : 1 < (inserts poseidon255 (new poseidon255 1) [5, 7]).leaves.length
      := by
    rw [hleaves]
    decide
  obtain ⟨siblings, hproof, -, ⟨indices, hopen⟩, -⟩ :=
    generated_proof_opens poseidon255 (d := 1) (by decide) (by decide)
      [5, 7] [] (Or.inl rfl) hi
  rw [List.getElem_of_eq hleaves] at hopen
  have hone : ((1 : ℕ) : Fr) = 1 := Nat.cast_one
  rw [hone] at hopen
  exact ⟨siblings, hproof, indices, hopen⟩

end Lumix.LeanIMT
