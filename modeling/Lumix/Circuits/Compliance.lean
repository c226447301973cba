/-
The `ComplianceMembership` circuit: a label is in the allow tree and not
in the deny tree. Absence is shown by two neighbours: the deny tree is
sorted, and two adjacent leaves of it enclose the label.

`ComplianceMembership.sound` says what a satisfying assignment proves.
Four things meet in it: each opening binds its leaf to its index
(`MerkleProof.binds`), an index has one reading below the order
(`Num2Bits.val_eq`), a comparator on range-checked values compares
integers (`lessThan_iff_val_lt`), and the padding after the last leaf is
zero, which lies above no label.
-/
import Mathlib.Data.List.GetD
import Mathlib.Tactic.MkIffOfInductiveProp
import Lumix.Circuits.Gadgets

namespace Lumix

open Digits Opening

-- ============================================================== circuit

/-- The signals of `compliance_membership`. -/
structure ComplianceMembership where
  allowRoot : Fr
  denyRoot : Fr
  policyId : Fr
  label : Fr
  /-- `allowIndex`, `allowSiblings` -/
  allow : Opening
  denyLo : Fr
  /-- `denyLoIndex`, `denyLoSiblings` -/
  lo : Opening
  denyHi : Fr
  /-- `denyHiIndex`, `denyHiSiblings` -/
  hi : Opening

namespace ComplianceMembership

variable (H : List Fr → Fr) (allowDepth denyDepth rangeBits : ℕ)

/-- Its constraints: the label is in the allow tree, and between two
neighbours of the deny tree. -/
@[mk_iff]
structure Satisfied (a : ComplianceMembership) : Prop where
  allowP : MerkleProof H allowDepth a.label a.allow a.allowRoot
  loP : MerkleProof H denyDepth a.denyLo a.lo a.denyRoot
  hiP : MerkleProof H denyDepth a.denyHi a.hi a.denyRoot
  rLo : InRange rangeBits a.denyLo
  rLab : InRange rangeBits a.label
  rHi : InRange rangeBits a.denyHi
  ltLo : LessThan rangeBits a.denyLo a.label
  ltHi : LessThan rangeBits a.label a.denyHi
  adjacent : a.hi.leafIndex = a.lo.leafIndex + 1

instance (a : ComplianceMembership) :
    Decidable (a.Satisfied H allowDepth denyDepth rangeBits) :=
  decidable_of_iff _ (satisfied_iff H allowDepth denyDepth rangeBits a).symm

/-- The output `ok` is the constant 1. -/
def publicSignals (a : ComplianceMembership) : List Fr :=
  [1, a.allowRoot, a.denyRoot, a.policyId]

/-- What it hashes. -/
def hashInputs (a : ComplianceMembership) : List (List Fr) :=
  a.allow.hashInputs H a.label ++ a.lo.hashInputs H a.denyLo
    ++ a.hi.hashInputs H a.denyHi

end ComplianceMembership

-- ============================================================== gadgets

variable {H : List Fr → Fr}

/-- An index below 2^254 is spelled by one bit string only. -/
theorem Num2Bits.val_eq {n : ℕ} {x : Fr} {out : List Bool}
    (h : Num2Bits n x out) (hn : n ≤ 254) : x.val = bitsVal out := by
  obtain ⟨hlen, rfl⟩ := h
  rw [ZMod.val_natCast]
  apply Nat.mod_eq_of_lt
  calc bitsVal out < 2 ^ out.length := bitsVal_lt out
    _ = 2 ^ n := by rw [hlen]
    _ ≤ 2 ^ 254 := Nat.pow_le_pow_right (by omega) hn
    _ < r := two_pow_254_lt_r

theorem val_two_pow {n : ℕ} (hn : n ≤ 254) :
    ((2 : Fr) ^ n).val = 2 ^ n := by
  have hcast : ((2 : Fr) ^ n) = ((2 ^ n : ℕ) : Fr) := by
    rw [Nat.cast_pow, Nat.cast_ofNat]
  rw [hcast, ZMod.val_natCast]
  apply Nat.mod_eq_of_lt
  exact lt_of_le_of_lt (Nat.pow_le_pow_right (by omega) hn) two_pow_254_lt_r

/-- Between values in its range the comparator compares integers. -/
theorem lessThan_iff_val_lt {n : ℕ} (hn : n ≤ 252) {a b : Fr}
    (ha : a.val < 2 ^ n) (hb : b.val < 2 ^ n) :
    LessThan n a b ↔ a.val < b.val := by
  have hpow : 2 ^ n ≤ 2 ^ 252 := Nat.pow_le_pow_right (by omega) hn
  have hr := two_pow_254_lt_r
  have hsum := Fr.val_add_cases a (2 ^ n)
  have hdiff := Fr.val_sub_cases (a + 2 ^ n) b
  have hlt := Fr.val_lt (a + 2 ^ n - b)
  rw [val_two_pow (by omega)] at hsum
  rw [lessThan_iff]
  omega

/-- An opening against the root of a tree binds: where no inputs
collide, its leaf is the tree's node at its indices. -/
theorem MerkleProof.binds {S : Set (List Fr)} (hinj : Set.InjOn H S)
    {f : ℕ → Fr} {depth : ℕ}
    (htree : ∀ p ∈ Merkle.treePairs (hash2 H) f depth, [p.1, p.2] ∈ S)
    {leaf : Fr} {o : Opening} (ho : ∀ y ∈ o.hashInputs H leaf, y ∈ S)
    (h : MerkleProof H depth leaf o (Merkle.node (hash2 H) f depth 0)) :
    leaf = f (bitsVal o.indices) := by
  have hlen := h.length_path
  obtain ⟨hsib, ⟨hbits, -⟩, hroot⟩ := h
  have hsides : o.path.map Prod.fst = o.indices := by
    unfold Opening.path
    exact List.map_fst_zip (by rw [hbits, hsib])
  have hpairs : Set.InjOn (fun p : Fr × Fr => hash2 H p.1 p.2)
      { p | [p.1, p.2] ∈ S } := by
    intro p hp q hq heq
    have hpq := hinj hp hq heq
    injection hpq with h1 h2
    injection h2 with h2 _
    exact Prod.ext h1 h2
  have hbelow : ∀ k < o.path.length, ∀ i,
      i / 2 ^ (o.path.length - 1 - k) = 0 →
        Merkle.nodePair (hash2 H) f (0 + k) i
          ∈ { p : Fr × Fr | [p.1, p.2] ∈ S } := by
    intro k hk i hi
    rw [hlen] at hk hi
    refine htree _ ⟨0 + k, by omega, i, ?_, rfl⟩
    rw [Nat.zero_add]
    exact (Nat.div_eq_zero_iff_lt (Nat.two_pow_pos _)).mp hi
  have hclimbed : ∀ p ∈ Merkle.climbPairs (hash2 H) leaf o.path,
      p ∈ { p : Fr × Fr | [p.1, p.2] ∈ S } := by
    intro p hp
    exact ho _ (List.mem_map.mpr ⟨p, hp, rfl⟩)
  have hend : Merkle.climb (hash2 H) leaf o.path
      = Merkle.node (hash2 H) f (0 + o.path.length) 0 := by
    rw [hlen, Nat.zero_add]
    exact hroot
  rw [Merkle.climb_binds_under hpairs o.path hbelow hclimbed hend, hsides,
    Nat.zero_mul, Nat.add_zero]
  rfl

-- ============================================================ soundness

/-- The leaves of a tree, zero after the last. -/
def padded (leaves : List Fr) (i : ℕ) : Fr := leaves.getD i 0

/-- The leaves of a sorted deny tree. -/
structure DenyTree (depth rangeBits : ℕ) where
  leaves : List Fr
  fits : leaves.length ≤ 2 ^ depth
  sorted : leaves.Pairwise fun x y => x.val < y.val
  inRange : ∀ x ∈ leaves, x.val < 2 ^ rangeBits

/-- Nothing lies strictly between two neighbours, and no padding above a
value. -/
theorem DenyTree.not_between {depth rangeBits : ℕ}
    (deny : DenyTree depth rangeBits) {i : ℕ} {x : Fr}
    (hlo : (padded deny.leaves i).val < x.val)
    (hhi : x.val < (padded deny.leaves (i + 1)).val) (j : ℕ) :
    padded deny.leaves j ≠ x := by
  have hsorted := List.pairwise_iff_getElem.mp deny.sorted
  have hat : ∀ k, (hk : k < deny.leaves.length) →
      padded deny.leaves k = deny.leaves[k] := by
    intro k hk
    exact List.getD_eq_getElem _ _ hk
  have hpad : ∀ k, deny.leaves.length ≤ k → padded deny.leaves k = 0 := by
    intro k hk
    exact List.getD_eq_default _ _ hk
  -- the upper neighbour is above a value, so it is a leaf
  have hupper : i + 1 < deny.leaves.length := by
    by_contra hge
    rw [hpad (i + 1) (by omega), ZMod.val_zero] at hhi
    omega
  rw [hat i (by omega)] at hlo
  rw [hat (i + 1) hupper] at hhi
  rintro rfl
  by_cases hj : j < deny.leaves.length
  · rw [hat j hj] at hlo hhi
    rcases Nat.lt_trichotomy j i with hji | rfl | hij
    · have hlt := hsorted j i hj (by omega) hji
      omega
    · omega
    · rcases Nat.eq_or_lt_of_le (Nat.succ_le_of_lt hij) with heq | hgt
      · subst heq
        exact lt_irrefl _ hhi
      · have hlt := hsorted (i + 1) j hupper hj hgt
        omega
  · rw [hpad j (by omega), ZMod.val_zero] at hlo
    omega

namespace ComplianceMembership

variable {allowDepth denyDepth rangeBits : ℕ}

/-- Deny-list soundness. Where no two inputs of the trees and of the
openings collide, a satisfying assignment against the roots of an allow
tree and of a sorted deny tree has its label among the leaves of the
first and not among those of the second. -/
theorem sound (hdeny : denyDepth < 254) (hrange : rangeBits ≤ 252)
    {S : Set (List Fr)} (hinj : Set.InjOn H S) {allow : ℕ → Fr}
    (hallowTree : ∀ p ∈ Merkle.treePairs (hash2 H) allow allowDepth,
      [p.1, p.2] ∈ S)
    {deny : DenyTree denyDepth rangeBits}
    (hdenyTree : ∀ p ∈ Merkle.treePairs (hash2 H) (padded deny.leaves)
      denyDepth, [p.1, p.2] ∈ S)
    {a : ComplianceMembership} (hinputs : ∀ y ∈ a.hashInputs H, y ∈ S)
    (h : a.Satisfied H allowDepth denyDepth rangeBits)
    (hallowRoot : a.allowRoot = Merkle.node (hash2 H) allow allowDepth 0)
    (hdenyRoot : a.denyRoot
      = Merkle.node (hash2 H) (padded deny.leaves) denyDepth 0) :
    (∃ i < 2 ^ allowDepth, a.label = allow i)
      ∧ ∀ j, padded deny.leaves j ≠ a.label := by
  have hallowP := h.allowP
  have hloP := h.loP
  have hhiP := h.hiP
  rw [hallowRoot] at hallowP
  rw [hdenyRoot] at hloP hhiP
  have hlabel := hallowP.binds hinj hallowTree
    fun y hy => hinputs y (by simp [hashInputs, hy])
  have hlo := hloP.binds hinj hdenyTree
    fun y hy => hinputs y (by simp [hashInputs, hy])
  have hhi := hhiP.binds hinj hdenyTree
    fun y hy => hinputs y (by simp [hashInputs, hy])
  -- the indices are adjacent as integers
  have hadjacent : bitsVal a.hi.indices = bitsVal a.lo.indices + 1 := by
    have hloVal := hloP.2.1.val_eq (by omega)
    have hhiVal := hhiP.2.1.val_eq (by omega)
    have hbound := bitsVal_lt a.lo.indices
    rw [hloP.2.1.1] at hbound
    have hpow : 2 ^ denyDepth ≤ 2 ^ 253 :=
      Nat.pow_le_pow_right (by omega) (by omega)
    have hr := two_pow_254_lt_r
    have hsum := Fr.val_add_cases a.lo.leafIndex 1
    have hone : (1 : Fr).val = 1 := rfl
    rw [← h.adjacent, hone] at hsum
    omega
  have hrLo := inRange_iff.mp h.rLo
  have hrLab := inRange_iff.mp h.rLab
  have hrHi := inRange_iff.mp h.rHi
  have hlt := (lessThan_iff_val_lt hrange hrLo hrLab).mp h.ltLo
  have hgt := (lessThan_iff_val_lt hrange hrLab hrHi).mp h.ltHi
  rw [hlo] at hlt
  rw [hhi, hadjacent] at hgt
  refine ⟨⟨bitsVal a.allow.indices, ?_, hlabel⟩,
    deny.not_between hlt hgt⟩
  have hbound := bitsVal_lt a.allow.indices
  rw [hallowP.2.1.1] at hbound
  exact hbound

end ComplianceMembership

end Lumix
