/-
The two committee circuits. `MpcSettlement` crosses two notes of one
asset for a matched amount; `MpcPricedSettlement` crosses two notes of
different assets at a fixed-point price.

Both state their arithmetic in the field. What it means over the
integers is worked out here: `MpcSettlement.conserves_iff` says when the
two outputs really are two matched amounts, and
`MpcPricedSettlement.priced_iff` when the price and the minimum outputs
hold of the integers. In both cases some signal is compared without
having been range-checked, and the condition says what that leaves open.
-/
import Mathlib.Tactic.MkIffOfInductiveProp
import Lumix.Circuits.Gadgets
import Lumix.Circuits.Poseidon255

namespace Lumix

variable (H : List Fr → Fr) (treeDepth associationDepth : ℕ)

-- ====================================================== MpcSettlement

/-- The signals of `mpc_settlement`. -/
structure MpcSettlement where
  stateRoot : Fr
  associationRoot : Fr
  batchHash : Fr
  poolId : Fr
  chainId : Fr
  matchedAmount7dp : Fr
  deadlineLedger : Fr
  assetId : Fr
  labelA : Fr
  valueA : Fr
  nullifierA : Fr
  secretA : Fr
  stateA : Opening
  associationA : Opening
  outValueA : Fr
  outLabelA : Fr
  outNullifierA : Fr
  outSecretA : Fr
  labelB : Fr
  valueB : Fr
  nullifierB : Fr
  secretB : Fr
  stateB : Opening
  associationB : Opening
  outValueB : Fr
  outLabelB : Fr
  outNullifierB : Fr
  outSecretB : Fr
  nullifierHashA : Fr
  nullifierHashB : Fr
  outputCommitmentA : Fr
  outputCommitmentB : Fr

namespace MpcSettlement

/-- The note of the one party, -/
def noteA (a : MpcSettlement) : Note :=
  ⟨a.assetId, a.valueA, a.labelA, a.nullifierA, a.secretA⟩

/-- and of the other. -/
def noteB (a : MpcSettlement) : Note :=
  ⟨a.assetId, a.valueB, a.labelB, a.nullifierB, a.secretB⟩

/-- The note it gets, -/
def outNoteA (a : MpcSettlement) : Note :=
  ⟨a.assetId, a.outValueA, a.outLabelA, a.outNullifierA, a.outSecretA⟩

/-- and the other. -/
def outNoteB (a : MpcSettlement) : Note :=
  ⟨a.assetId, a.outValueB, a.outLabelB, a.outNullifierB, a.outSecretB⟩

/-- Its constraints. -/
@[mk_iff]
structure Satisfied (a : MpcSettlement) : Prop where
  merkleA : MerkleProof H treeDepth (a.noteA.commitment H) a.stateA
    a.stateRoot
  merkleB : MerkleProof H treeDepth (a.noteB.commitment H) a.stateB
    a.stateRoot
  assocA : MerkleProof H associationDepth a.labelA a.associationA
    a.associationRoot
  assocB : MerkleProof H associationDepth a.labelB a.associationB
    a.associationRoot
  nhA : a.nullifierHashA = a.noteA.nullifierHash H a.poolId a.chainId
  nhB : a.nullifierHashB = a.noteB.nullifierHash H a.poolId a.chainId
  outCmtA : a.outputCommitmentA = a.outNoteA.commitment H
  outCmtB : a.outputCommitmentB = a.outNoteB.commitment H
  rngA : InRange 128 (a.valueA - a.matchedAmount7dp)
  rngB : InRange 128 (a.valueB - a.matchedAmount7dp)
  outSum : a.outValueA + a.outValueB = a.matchedAmount7dp * 2

instance (a : MpcSettlement) :
    Decidable (a.Satisfied H treeDepth associationDepth) :=
  decidable_of_iff _ (satisfied_iff H treeDepth associationDepth a).symm

/-- What is public, in order. -/
def publicSignals (a : MpcSettlement) : List Fr :=
  [a.nullifierHashA, a.nullifierHashB, a.outputCommitmentA,
    a.outputCommitmentB, a.stateRoot, a.associationRoot, a.batchHash,
    a.poolId, a.chainId, a.matchedAmount7dp, a.deadlineLedger, a.assetId]

/-- What it hashes. -/
def hashInputs (a : MpcSettlement) : List (List Fr) :=
  a.noteA.hashInputs H ++ a.noteB.hashInputs H
    ++ a.outNoteA.hashInputs H ++ a.outNoteB.hashInputs H
    ++ [[a.nullifierA, a.poolId, a.chainId],
        [a.nullifierB, a.poolId, a.chainId]]
    ++ a.stateA.hashInputs H (a.noteA.commitment H)
    ++ a.stateB.hashInputs H (a.noteB.commitment H)
    ++ a.associationA.hashInputs H a.labelA
    ++ a.associationB.hashInputs H a.labelB

end MpcSettlement

-- ================================================ MpcPricedSettlement

/-- The signals of `mpc_priced_settlement`. -/
structure MpcPricedSettlement where
  stateRoot : Fr
  associationRoot : Fr
  batchHash : Fr
  poolId : Fr
  chainId : Fr
  deadlineLedger : Fr
  inputAssetA : Fr
  outputAssetA : Fr
  inputAssetB : Fr
  outputAssetB : Fr
  matchedAmountA : Fr
  matchedAmountB : Fr
  priceScaled : Fr
  priceScale : Fr
  minOutputA : Fr
  minOutputB : Fr
  labelA : Fr
  nullifierA : Fr
  secretA : Fr
  stateA : Opening
  associationA : Opening
  labelB : Fr
  nullifierB : Fr
  secretB : Fr
  stateB : Opening
  associationB : Opening
  outLabelA : Fr
  outNullifierA : Fr
  outSecretA : Fr
  outLabelB : Fr
  outNullifierB : Fr
  outSecretB : Fr
  nullifierHashA : Fr
  nullifierHashB : Fr
  outputCommitmentA : Fr
  outputCommitmentB : Fr

namespace MpcPricedSettlement

/-- The note of the one party, -/
def noteA (a : MpcPricedSettlement) : Note :=
  ⟨a.inputAssetA, a.matchedAmountA, a.labelA, a.nullifierA, a.secretA⟩

/-- and of the other. -/
def noteB (a : MpcPricedSettlement) : Note :=
  ⟨a.inputAssetB, a.matchedAmountB, a.labelB, a.nullifierB, a.secretB⟩

/-- The note party A receives. -/
def outNoteA (a : MpcPricedSettlement) : Note :=
  ⟨a.outputAssetA, a.matchedAmountB, a.outLabelA, a.outNullifierA,
    a.outSecretA⟩

/-- The note party B receives. -/
def outNoteB (a : MpcPricedSettlement) : Note :=
  ⟨a.outputAssetB, a.matchedAmountA, a.outLabelB, a.outNullifierB,
    a.outSecretB⟩

/-- `prod - scaled`. -/
def rem (a : MpcPricedSettlement) : Fr :=
  a.matchedAmountA * a.priceScaled - a.matchedAmountB * a.priceScale

/-- Its constraints. -/
@[mk_iff]
structure Satisfied (a : MpcPricedSettlement) : Prop where
  pairA : a.outputAssetA = a.inputAssetB
  pairB : a.outputAssetB = a.inputAssetA
  /-- `IsEqual` with `out === 0` -/
  crossAsset : a.inputAssetA ≠ a.inputAssetB
  scale : a.priceScale = 1000000000
  merkleA : MerkleProof H treeDepth (a.noteA.commitment H) a.stateA
    a.stateRoot
  merkleB : MerkleProof H treeDepth (a.noteB.commitment H) a.stateB
    a.stateRoot
  assocA : MerkleProof H associationDepth a.labelA a.associationA
    a.associationRoot
  assocB : MerkleProof H associationDepth a.labelB a.associationB
    a.associationRoot
  nhA : a.nullifierHashA = a.noteA.nullifierHash H a.poolId a.chainId
  nhB : a.nullifierHashB = a.noteB.nullifierHash H a.poolId a.chainId
  outCmtA : a.outputCommitmentA = a.outNoteA.commitment H
  outCmtB : a.outputCommitmentB = a.outNoteB.commitment H
  le : LessEqThan 128 (a.matchedAmountB * a.priceScale)
    (a.matchedAmountA * a.priceScaled)
  lt : LessThan 64 a.rem a.priceScale
  geA : GreaterEqThan 64 a.matchedAmountB a.minOutputA
  geB : GreaterEqThan 64 a.matchedAmountA a.minOutputB

instance (a : MpcPricedSettlement) :
    Decidable (a.Satisfied H treeDepth associationDepth) :=
  decidable_of_iff _ (satisfied_iff H treeDepth associationDepth a).symm

/-- What is public, in order. -/
def publicSignals (a : MpcPricedSettlement) : List Fr :=
  [a.nullifierHashA, a.nullifierHashB, a.outputCommitmentA,
    a.outputCommitmentB, a.stateRoot, a.associationRoot, a.batchHash,
    a.poolId, a.chainId, a.deadlineLedger, a.inputAssetA, a.outputAssetA,
    a.inputAssetB, a.outputAssetB, a.matchedAmountA, a.matchedAmountB,
    a.priceScaled, a.priceScale, a.minOutputA, a.minOutputB]

/-- What it hashes. -/
def hashInputs (a : MpcPricedSettlement) : List (List Fr) :=
  a.noteA.hashInputs H ++ a.noteB.hashInputs H
    ++ a.outNoteA.hashInputs H ++ a.outNoteB.hashInputs H
    ++ [[a.nullifierA, a.poolId, a.chainId],
        [a.nullifierB, a.poolId, a.chainId]]
    ++ a.stateA.hashInputs H (a.noteA.commitment H)
    ++ a.stateB.hashInputs H (a.noteB.commitment H)
    ++ a.associationA.hashInputs H a.labelA
    ++ a.associationB.hashInputs H a.labelB

end MpcPricedSettlement

-- ========================================== the crossing over the integers

variable {H treeDepth associationDepth}

/-- A matched amount that has not wrapped is covered by a note it was
subtracted from. -/
theorem matched_le {value matched : Fr}
    (hrng : InRange 128 (value - matched)) (hm : matched.val < 2 ^ 128) :
    matched.val ≤ value.val := by
  rw [inRange_iff] at hrng
  have hr := two_pow_254_lt_r
  rcases Fr.val_sub_cases value matched with h | h
  · omega
  · omega

/-- The sum constraint over the integers, for an unwrapped matched
amount: exact, or off by one order. -/
theorem outSum_cases {x y matched : Fr} (hsum : x + y = matched * 2)
    (hm : matched.val < 2 ^ 128) :
    x.val + y.val = 2 * matched.val
      ∨ x.val + y.val = 2 * matched.val + r := by
  have hr := two_pow_254_lt_r
  have hdouble : (matched * 2).val = 2 * matched.val := by
    rw [ZMod.val_mul, show (2 : Fr).val = 2 from rfl, Nat.mul_comm]
    exact Nat.mod_eq_of_lt (by omega)
  rcases Fr.val_add_cases x y with h | h
  · rw [hsum, hdouble] at h
    exact Or.inl h.symm
  · rw [hsum, hdouble] at h
    exact Or.inr h.symm

/-- When the outputs of a crossing are two matched amounts. The sum is
constrained modulo the order and neither output is range-checked, so
the conclusion holds exactly when the matched amount is itself not
wrapped and the first output leaves a second one between 0 and 2^128. -/
theorem MpcSettlement.conserves_iff {a : MpcSettlement}
    (h : a.Satisfied H treeDepth associationDepth) :
    (a.outValueA.val < 2 ^ 128 ∧ a.outValueB.val < 2 ^ 128
      ∧ a.outValueA.val + a.outValueB.val = 2 * a.matchedAmount7dp.val
      ∧ a.outValueA.val + a.outValueB.val ≤ a.valueA.val + a.valueB.val)
    ↔ (a.matchedAmount7dp.val < 2 ^ 128 ∧ a.outValueA.val < 2 ^ 128
      ∧ a.outValueA.val ≤ 2 * a.matchedAmount7dp.val
      ∧ 2 * a.matchedAmount7dp.val < a.outValueA.val + 2 ^ 128) := by
  constructor
  · rintro ⟨hoA, hoB, hsum, -⟩
    refine ⟨by omega, hoA, by omega, by omega⟩
  · rintro ⟨hm, hoA, hle, hgap⟩
    have hmA := matched_le h.rngA hm
    have hmB := matched_le h.rngB hm
    have hlt := Fr.val_lt a.outValueB
    rcases outSum_cases h.outSum hm with hsum | hsum
    · refine ⟨hoA, by omega, hsum, by omega⟩
    · omega

/-- Two USDC notes of 100, alone in the tree, crossed for 100 each into
the given outputs. -/
def MpcSettlement.crossing (H : List Fr → Fr) (outA outB : Note) :
    MpcSettlement :=
  let noteA : Note := ⟨Note.usdcId, 100, 11, 1001, 2001⟩
  let noteB : Note := ⟨Note.usdcId, 100, 11, 1003, 2003⟩
  { stateRoot := (Opening.ofTwo H 12 false (noteB.commitment H)).root H
      (noteA.commitment H)
    associationRoot := (Opening.only H 2).root H 11
    batchHash := 1
    poolId := 1
    chainId := 27
    matchedAmount7dp := 100
    deadlineLedger := 100
    assetId := Note.usdcId
    labelA := 11
    valueA := 100
    nullifierA := 1001
    secretA := 2001
    stateA := Opening.ofTwo H 12 false (noteB.commitment H)
    associationA := Opening.only H 2
    outValueA := outA.value
    outLabelA := outA.label
    outNullifierA := outA.nullifier
    outSecretA := outA.secret
    labelB := 11
    valueB := 100
    nullifierB := 1003
    secretB := 2003
    stateB := Opening.ofTwo H 12 true (noteA.commitment H)
    associationB := Opening.only H 2
    outValueB := outB.value
    outLabelB := outB.label
    outNullifierB := outB.nullifier
    outSecretB := outB.secret
    nullifierHashA := noteA.nullifierHash H 1 27
    nullifierHashB := noteB.nullifierHash H 1 27
    outputCommitmentA := outA.commitment H
    outputCommitmentB := outB.commitment H }

/-- The outputs 1000 and -800 add up to 200 in the field. -/
theorem MpcSettlement.crossing_mints :
    let a := crossing poseidon255 ⟨Note.usdcId, 1000, 11, 1007, 2007⟩
      ⟨Note.usdcId, -800, 11, 1008, 2008⟩
    a.Satisfied poseidon255 12 2
      ∧ a.valueA.val < 2 ^ 128 ∧ a.valueB.val < 2 ^ 128
      ∧ ¬(a.outValueA.val < 2 ^ 128 ∧ a.outValueB.val < 2 ^ 128
        ∧ a.outValueA.val + a.outValueB.val = 2 * a.matchedAmount7dp.val
        ∧ a.outValueA.val + a.outValueB.val
          ≤ a.valueA.val + a.valueB.val) := by
  rw [← poseidonFast_eq]
  decide +kernel

/-- The outputs 100 and 100 are the two matched amounts. -/
theorem MpcSettlement.crossing_conserves :
    let a := crossing poseidonFast ⟨Note.usdcId, 100, 11, 1001, 2001⟩
      ⟨Note.usdcId, 100, 11, 1003, 2003⟩
    a.Satisfied poseidonFast 12 2
      ∧ a.outValueA.val < 2 ^ 128 ∧ a.outValueB.val < 2 ^ 128
      ∧ a.outValueA.val + a.outValueB.val = 2 * a.matchedAmount7dp.val
      ∧ a.outValueA.val + a.outValueB.val
        ≤ a.valueA.val + a.valueB.val := by
  have hsat : (crossing poseidonFast ⟨Note.usdcId, 100, 11, 1001, 2001⟩
      ⟨Note.usdcId, 100, 11, 1003, 2003⟩).Satisfied poseidonFast 12 2 := by
    decide +kernel
  exact ⟨hsat, (conserves_iff hsat).mpr (by decide +kernel)⟩

-- ============================================ the price over the integers

/-- What the two price comparators say: the product, as a field element,
is `matchedAmountB` scales and a remainder below one scale. -/
theorem MpcPricedSettlement.prod_val {a : MpcPricedSettlement}
    (h : a.Satisfied H treeDepth associationDepth)
    (hB : a.matchedAmountB.val < 2 ^ 128) :
    ∃ rem < 10 ^ 9, (a.matchedAmountA * a.priceScaled).val
      = a.matchedAmountB.val * 10 ^ 9 + rem := by
  have hr := two_pow_254_lt_r
  have hscaled : (a.matchedAmountB * a.priceScale).val
      = a.matchedAmountB.val * 10 ^ 9 := by
    rw [h.scale, ZMod.val_mul, show (1000000000 : Fr).val = 10 ^ 9 from rfl]
    exact Nat.mod_eq_of_lt (by omega)
  have hle := lessThan_iff.mp h.le
  have hlt := lessThan_iff.mp h.lt
  rw [h.scale] at hlt
  -- both comparators speak of the remainder `x`: one says it is at most
  -- 2^128 - 1, the other that it is below the scale or just below the
  -- order
  have hx : a.matchedAmountA * a.priceScaled
      = a.rem + a.matchedAmountB * a.priceScale := by
    unfold MpcPricedSettlement.rem
    ring
  have hle' : (2 ^ 128 - 1 - a.rem).val < 2 ^ 128 := by
    have heq : (2 : Fr) ^ 128 - 1 - a.rem
        = a.matchedAmountB * a.priceScale + 2 ^ 128
          - (a.matchedAmountA * a.priceScaled + 1) := by
      rw [hx]
      ring
    rw [heq]
    exact hle
  have hlt' : (a.rem - (1000000000 - 2 ^ 64)).val < 2 ^ 64 := by
    have heq : a.rem - (1000000000 - 2 ^ 64)
        = a.rem + 2 ^ 64 - 1000000000 := by ring
    rw [heq]
    exact hlt
  have hc1 : ((2 : Fr) ^ 128 - 1).val = 2 ^ 128 - 1 := by decide +kernel
  have hc2 : ((1000000000 : Fr) - 2 ^ 64).val = r + 10 ^ 9 - 2 ^ 64 := by
    decide +kernel
  have hcmp1 := Fr.val_sub_cases (2 ^ 128 - 1) a.rem
  have hcmp2 := Fr.val_sub_cases a.rem (1000000000 - 2 ^ 64)
  have hsum := Fr.val_add_cases a.rem (a.matchedAmountB * a.priceScale)
  rw [hc1] at hcmp1
  rw [hc2] at hcmp2
  rw [← hx, hscaled] at hsum
  have hrem := Fr.val_lt a.rem
  exact ⟨a.rem.val, by omega, by omega⟩

/-- A `GreaterEqThan(64)` on a 128-bit left side: the comparison holds
of the integers exactly when the right side has not wrapped. -/
theorem greaterEqThan_iff_of_lt {x y : Fr} (h : GreaterEqThan 64 x y)
    (hx : x.val < 2 ^ 128) : y.val ≤ x.val ↔ y.val < 2 ^ 128 := by
  have hr := two_pow_254_lt_r
  have hd := lessThan_iff.mp h
  -- the constrained value is (2^64 - 1) - (x - y)
  have heq : y + 2 ^ 64 - (x + 1) = (2 ^ 64 - 1) - (x - y) := by ring
  rw [heq] at hd
  have hc : ((2 : Fr) ^ 64 - 1).val = 2 ^ 64 - 1 := by decide +kernel
  have hcmp := Fr.val_sub_cases (2 ^ 64 - 1) (x - y)
  have hxy := Fr.val_sub_cases x y
  have hlt := Fr.val_lt (x - y)
  rw [hc] at hcmp
  constructor
  · omega
  · intro hy
    omega

/-- When a priced crossing meets its price and its minimums over the
integers: the price product stays below the order, and neither minimum
is a wrapped negative. -/
theorem MpcPricedSettlement.priced_iff {a : MpcPricedSettlement}
    (h : a.Satisfied H treeDepth associationDepth)
    (hA : a.matchedAmountA.val < 2 ^ 128)
    (hB : a.matchedAmountB.val < 2 ^ 128) :
    (a.matchedAmountB.val
        = a.matchedAmountA.val * a.priceScaled.val / 10 ^ 9
      ∧ a.minOutputA.val ≤ a.matchedAmountB.val
      ∧ a.minOutputB.val ≤ a.matchedAmountA.val)
    ↔ (a.matchedAmountA.val * a.priceScaled.val < r
      ∧ a.minOutputA.val < 2 ^ 128 ∧ a.minOutputB.val < 2 ^ 128) := by
  have hr := two_pow_254_lt_r
  obtain ⟨rem, hrem, hprod⟩ := prod_val h hB
  rw [ZMod.val_mul] at hprod
  rw [greaterEqThan_iff_of_lt h.geA hB, greaterEqThan_iff_of_lt h.geB hA]
  have hfloor : a.matchedAmountB.val
        = a.matchedAmountA.val * a.priceScaled.val / 10 ^ 9
      ↔ a.matchedAmountA.val * a.priceScaled.val < r := by
    constructor
    · intro heq
      by_contra hge
      -- a wrapped product would put at least one order between the two
      have hdiv := Nat.div_add_mod
        (a.matchedAmountA.val * a.priceScaled.val) r
      have hq : 1 ≤ a.matchedAmountA.val * a.priceScaled.val / r :=
        (Nat.one_le_div_iff (by omega)).mpr (by omega)
      have hmul : r ≤ r * (a.matchedAmountA.val * a.priceScaled.val / r) :=
        Nat.le_mul_of_pos_right r hq
      omega
    · intro hlt
      rw [Nat.mod_eq_of_lt hlt] at hprod
      omega
  rw [hfloor]

end Lumix
