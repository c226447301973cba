/-
The template `MerkleProof`, wire by wire.

Its signals are field elements, so that the path bits are bits and that
the multiplexers put the two children in order are consequences of the
constraints (`Satisfies.side`, `Satisfies.sorted_eq`), as the field has
no zero divisors. From there an assignment is a climb along its siblings
(`merkleProof_iff`), and what the climb arrives at binds both where it
started and how it went (`openings_bind`).
-/
import Mathlib.Algebra.BigOperators.Fin
import Mathlib.Tactic.LinearCombination
import Mathlib.Tactic.NormNum.Prime
import Mathlib.Tactic.ReduceModChar
import Lumix.Circuits.Gadgets
import Lumix.Lib.Exec
import Lumix.Lib.Primality

namespace Lumix

open Digits Exec Opening

-- ============================================================= the field

/-- The witness of the certificate is 7. -/
theorem prime_r : r.Prime := by
  refine Primality.prime_of_factors (((7 : ℕ) : ZMod r))
    (List.replicate 32 2 ++ [3, 11, 19, 10177, 125527, 859267, 906349,
      906349, 2508409, 2529403, 52437899, 254760293, 254760293]) ?_
    (by decide) ?_ ?_
  · rw [List.forall_mem_append]
    refine ⟨fun q hq => List.eq_of_mem_replicate hq ▸ Nat.prime_two, ?_⟩
    simp only [List.forall_mem_cons, List.not_mem_nil, IsEmpty.forall_iff,
      implies_true, and_true]
    refine ⟨?_, ?_, ?_, ?_, ?_, ?_, ?_, ?_, ?_, ?_, ?_, ?_, ?_⟩ <;> norm_num
  · unfold r
    reduce_mod_char
  · unfold r
    rw [List.forall_mem_append]
    constructor
    · intro q hq
      rw [List.eq_of_mem_replicate hq]
      reduce_mod_char
      decide
    · simp only [List.forall_mem_cons, List.not_mem_nil,
        IsEmpty.forall_iff, implies_true, and_true, Nat.reduceSub,
        Nat.reduceDiv]
      refine ⟨?_, ?_, ?_, ?_, ?_, ?_, ?_, ?_, ?_, ?_, ?_, ?_, ?_⟩ <;>
        (reduce_mod_char; decide)

local instance : Fact r.Prime := ⟨prime_r⟩

-- ============================================================== the wires

/-- The signals of `MerkleProof(depth)`. Arrays are read below their
length; `sorted i` is the output of `hashInCorrectOrder[i]`. -/
structure MerkleSignals where
  leaf : Fr
  leafIndex : Fr
  siblings : ℕ → Fr
  out : Fr
  nodes : ℕ → Fr
  indices : ℕ → Fr
  sorted : ℕ → Fr × Fr

/-- One output of circomlib's `MultiMux1`. -/
def mux1 (c0 c1 s : Fr) : Fr := (c1 - c0) * s + c0

namespace MerkleSignals

/-- The constraints. The first two are `Num2Bits(depth)`. -/
structure Satisfies (hash : Fr → Fr → Fr) (depth : ℕ) (a : MerkleSignals) :
    Prop where
  bit : ∀ i < depth, a.indices i * (a.indices i - 1) = 0
  index : ∑ i ∈ Finset.range depth, a.indices i * 2 ^ i = a.leafIndex
  first : a.nodes 0 = a.leaf
  left : ∀ i < depth, (a.sorted i).1
    = mux1 (a.nodes i) (a.siblings i) (a.indices i)
  right : ∀ i < depth, (a.sorted i).2
    = mux1 (a.siblings i) (a.nodes i) (a.indices i)
  hashed : ∀ i < depth, a.nodes (i + 1)
    = hash (a.sorted i).1 (a.sorted i).2
  last : a.out = a.nodes depth

/-- The pairs that are hashed. -/
def pairs (a : MerkleSignals) (depth : ℕ) : Set (Fr × Fr) :=
  { p | ∃ i < depth, p = a.sorted i }

/-- The bit of a path index. -/
def side (a : MerkleSignals) (i : ℕ) : Bool := decide (a.indices i = 1)

/-- The (side, sibling) steps of `n` levels, from level `l` up. -/
def steps (a : MerkleSignals) : (n l : ℕ) → List (Bool × Fr)
  | 0, _ => []
  | n + 1, l => (a.side l, a.siblings l) :: a.steps n (l + 1)

theorem length_steps (a : MerkleSignals) (n l : ℕ) :
    (a.steps n l).length = n := by
  induction n generalizing l with
  | zero => rfl
  | succ n ih => rw [steps, List.length_cons, ih]

namespace Satisfies

variable {hash : Fr → Fr → Fr} {depth : ℕ} {a : MerkleSignals}
  (h : a.Satisfies hash depth)

include h

theorem indices_eq {i : ℕ} (hi : i < depth) :
    a.indices i = ((a.side i).toNat : Fr) := by
  unfold side
  rcases mul_eq_zero.mp (h.bit i hi) with hzero | hone
  · rw [hzero]
    decide +kernel
  · rw [sub_eq_zero.mp hone]
    decide +kernel

/-- The multiplexers put the children in order. -/
theorem sorted_eq {i : ℕ} (hi : i < depth) :
    a.sorted i = Merkle.pairOf (a.side i) (a.nodes i) (a.siblings i) := by
  have hindex := h.indices_eq hi
  have hleft := h.left i hi
  have hright := h.right i hi
  unfold mux1 at hleft hright
  rw [hindex] at hleft hright
  cases hside : a.side i with
  | false =>
      rw [hside, Bool.toNat_false, Nat.cast_zero, mul_zero, zero_add]
        at hleft hright
      exact Prod.ext hleft hright
  | true =>
      rw [hside, Bool.toNat_true, Nat.cast_one, mul_one, sub_add_cancel]
        at hleft hright
      exact Prod.ext hleft hright

/-- The nodes climb along the steps. -/
theorem climb_steps {n l : ℕ} (hl : l + n = depth) :
    Merkle.climb hash (a.nodes l) (a.steps n l) = a.out := by
  induction n generalizing l with
  | zero =>
      rw [h.last, ← hl]
      rfl
  | succ n ih =>
      rw [steps, Merkle.climb, ← h.sorted_eq (by omega),
        ← h.hashed l (by omega)]
      exact ih (by omega)

theorem climbPairs_steps {n l : ℕ} (hl : l + n ≤ depth) :
    ∀ p ∈ Merkle.climbPairs hash (a.nodes l) (a.steps n l),
      p ∈ a.pairs depth := by
  induction n generalizing l with
  | zero => exact fun p hp => (by cases hp)
  | succ n ih =>
      intro p hp
      rw [steps, Merkle.climbPairs, ← h.sorted_eq (by omega),
        ← h.hashed l (by omega), List.mem_cons] at hp
      rcases hp with rfl | hp
      · exact ⟨l, by omega, rfl⟩
      · exact ih (by omega) p hp

/-- The sides spell the index. -/
theorem spells {n l : ℕ} (hl : l + n ≤ depth) :
    ∑ i ∈ Finset.range n, a.indices (l + i) * 2 ^ i
      = ((bitsVal ((a.steps n l).map Prod.fst) : ℕ) : Fr) := by
  induction n generalizing l with
  | zero => simp [steps]
  | succ n ih =>
      have hrest : ∑ i ∈ Finset.range n, a.indices (l + (i + 1)) * 2 ^ (i + 1)
          = 2 * ∑ i ∈ Finset.range n, a.indices (l + 1 + i) * 2 ^ i := by
        rw [Finset.mul_sum]
        refine Finset.sum_congr rfl fun i _ => ?_
        rw [show l + (i + 1) = l + 1 + i by omega, pow_succ]
        ring
      rw [Finset.sum_range_succ', hrest, ih (by omega), pow_zero, mul_one,
        Nat.add_zero, h.indices_eq (by omega), steps, List.map_cons,
        bitsVal_cons, Nat.cast_add, Nat.cast_mul]
      exact add_comm _ _

theorem num2Bits :
    Num2Bits depth a.leafIndex ((a.steps depth 0).map Prod.fst) := by
  refine ⟨by rw [List.length_map, length_steps], ?_⟩
  rw [← h.index, ← h.spells (by omega)]
  refine Finset.sum_congr rfl fun i _ => ?_
  rw [Nat.zero_add]

end Satisfies

-- ============================================================== the gadget

/-- The private signals of the gadget. -/
def opening (a : MerkleSignals) (depth : ℕ) : Opening where
  leafIndex := a.leafIndex
  siblings := (a.steps depth 0).map Prod.snd
  indices := (a.steps depth 0).map Prod.fst

theorem path_opening (a : MerkleSignals) (depth : ℕ) :
    (a.opening depth).path = a.steps depth 0 :=
  (List.zip_of_prod rfl rfl).symm

/-- The wires of an opening. -/
def ofOpening (hash : Fr → Fr → Fr) (leaf : Fr) (o : Opening) :
    MerkleSignals where
  leaf
  leafIndex := o.leafIndex
  siblings i := o.siblings.getD i 0
  out := Merkle.climb hash leaf o.path
  nodes i := Merkle.climb hash leaf (o.path.take i)
  indices i := ((o.indices.getD i false).toNat : Fr)
  sorted i := Merkle.pairOf (o.indices.getD i false)
    (Merkle.climb hash leaf (o.path.take i)) (o.siblings.getD i 0)

theorem sum_bits (bs : List Bool) :
    ∑ i ∈ Finset.range bs.length, ((bs.getD i false).toNat : Fr) * 2 ^ i
      = ((bitsVal bs : ℕ) : Fr) := by
  induction bs with
  | nil => simp
  | cons b bs ih =>
      have hrest : ∑ i ∈ Finset.range bs.length,
            (((b :: bs).getD (i + 1) false).toNat : Fr) * 2 ^ (i + 1)
          = 2 * ∑ i ∈ Finset.range bs.length,
            ((bs.getD i false).toNat : Fr) * 2 ^ i := by
        rw [Finset.mul_sum]
        refine Finset.sum_congr rfl fun i _ => ?_
        rw [List.getD_cons_succ, pow_succ]
        ring
      rw [List.length_cons, Finset.sum_range_succ', hrest, ih, pow_zero,
        mul_one, List.getD_cons_zero, bitsVal_cons, Nat.cast_add,
        Nat.cast_mul]
      exact add_comm _ _

section OfOpening

variable {hash : Fr → Fr → Fr} {depth : ℕ} {leaf : Fr} {o : Opening}
  (hsiblings : o.siblings.length = depth) (hindices : o.indices.length = depth)

include hsiblings hindices

theorem getElem?_path {i : ℕ} (hi : i < depth) :
    o.path[i]? = some (o.indices.getD i false, o.siblings.getD i 0) := by
  unfold Opening.path
  rw [List.getElem?_zip_eq_some, List.getD_eq_getElem?_getD,
    List.getD_eq_getElem?_getD, List.getElem?_eq_getElem (by omega),
    List.getElem?_eq_getElem (by omega)]
  exact ⟨rfl, rfl⟩

theorem steps_ofOpening {n l : ℕ} (hl : l + n = depth) :
    (ofOpening hash leaf o).steps n l = o.path.drop l := by
  have hlength : o.path.length = depth := by
    unfold Opening.path
    rw [List.length_zip, hsiblings, hindices, Nat.min_self]
  induction n generalizing l with
  | zero =>
      rw [List.drop_of_length_le (by omega)]
      rfl
  | succ n ih =>
      have hstep := getElem?_path hsiblings hindices (i := l) (by omega)
      have hside : (ofOpening hash leaf o).side l
          = o.indices.getD l false := by
        show decide ((((o.indices.getD l false).toNat : ℕ) : Fr) = 1) = _
        cases o.indices.getD l false with
        | false => decide +kernel
        | true => decide +kernel
      rw [List.drop_eq_getElem?_toList_append, hstep, steps, hside,
        ih (by omega)]
      rfl

theorem satisfies_ofOpening (hspell : ((bitsVal o.indices : ℕ) : Fr)
    = o.leafIndex) : (ofOpening hash leaf o).Satisfies hash depth where
  bit i _ := by
    show (((o.indices.getD i false).toNat : ℕ) : Fr)
      * (((o.indices.getD i false).toNat : ℕ) - 1) = 0
    cases o.indices.getD i false <;> simp
  index := by
    show ∑ i ∈ Finset.range depth, _ = o.leafIndex
    rw [← hspell, ← sum_bits, hindices]
    rfl
  first := rfl
  left i _ := by
    show (Merkle.pairOf (o.indices.getD i false) _ _).1
      = mux1 _ _ (((o.indices.getD i false).toNat : ℕ) : Fr)
    unfold mux1 Merkle.pairOf
    cases o.indices.getD i false <;> simp [ofOpening]
  right i _ := by
    show (Merkle.pairOf (o.indices.getD i false) _ _).2
      = mux1 _ _ (((o.indices.getD i false).toNat : ℕ) : Fr)
    unfold mux1 Merkle.pairOf
    cases o.indices.getD i false <;> simp [ofOpening]
  hashed i hi := by
    show Merkle.climb hash leaf (o.path.take (i + 1)) = _
    rw [List.take_add_one, getElem?_path hsiblings hindices hi]
    exact Merkle.climb_concat _ _ _ _
  last := by
    have hlength : o.path.length ≤ depth := by
      unfold Opening.path
      rw [List.length_zip]
      omega
    show Merkle.climb hash leaf o.path
      = Merkle.climb hash leaf (o.path.take depth)
    rw [List.take_of_length_le hlength]

end OfOpening

/-- The gadget of the circuits is the template without its wires. -/
theorem merkleProof_iff {H : List Fr → Fr} {depth : ℕ} {leaf out : Fr}
    {o : Opening} :
    MerkleProof H depth leaf o out
      ↔ ∃ a : MerkleSignals, a.Satisfies (hash2 H) depth ∧ a.leaf = leaf
        ∧ a.out = out ∧ a.opening depth = o := by
  constructor
  · rintro ⟨hsiblings, ⟨hindices, hspell⟩, hclimb⟩
    refine ⟨ofOpening (hash2 H) leaf o,
      satisfies_ofOpening hsiblings hindices hspell, rfl, hclimb, ?_⟩
    unfold opening
    rw [steps_ofOpening hsiblings hindices (Nat.zero_add depth),
      List.drop_zero]
    unfold Opening.path
    rw [List.map_snd_zip (by omega), List.map_fst_zip (by omega)]
    rfl
  · rintro ⟨a, ha, rfl, rfl, rfl⟩
    refine ⟨by rw [opening, List.length_map, length_steps], ha.num2Bits, ?_⟩
    rw [path_opening, ← ha.first]
    exact ha.climb_steps (Nat.zero_add depth)

-- ================================================================ binding

theorem siblings_eq {hash : Fr → Fr → Fr} {leaves : ℕ → Fr}
    {a : MerkleSignals} {n l index : ℕ}
    (h : a.steps n l = Merkle.opening hash leaves n l index) :
    ∀ k < n, a.siblings (l + k)
      = Merkle.node hash leaves (l + k) (Merkle.sibling (index / 2 ^ k)) := by
  induction n generalizing l index with
  | zero => exact fun k hk => absurd hk k.not_lt_zero
  | succ n ih =>
      obtain ⟨hstep, hrest⟩ := List.cons_eq_cons.mp h
      intro k hk
      cases k with
      | zero =>
          rw [pow_zero, Nat.div_one]
          exact congrArg Prod.snd hstep
      | succ k =>
          have hnext := ih hrest k (by omega)
          rw [show l + (k + 1) = l + 1 + k by omega, pow_succ',
            ← Nat.div_div_eq_div_mul]
          exact hnext

end MerkleSignals

/-- An opening that leads to the root of a perfect tree opens one of its
positions: its index is that position's, its leaf is the leaf there and
its siblings are the nodes beside the path, unless two different pairs
that are hashed in the tree or the opening collide. -/
theorem openings_bind :
    ∀ (depth : ℕ) (hash : Fr → Fr → Fr) (leaves : ℕ → Fr)
      (a : MerkleSignals), depth < 254 →
    Set.InjOn (fun p : Fr × Fr => hash p.1 p.2)
      (Merkle.treePairs hash leaves depth ∪ a.pairs depth) →
    a.Satisfies hash depth → a.out = Merkle.node hash leaves depth 0 →
    a.leafIndex.val < 2 ^ depth ∧ a.leaf = leaves a.leafIndex.val
      ∧ ∀ k < depth, a.siblings k = Merkle.node hash leaves k
        (Merkle.sibling (a.leafIndex.val / 2 ^ k)) := by
  intro depth hash leaves a hdepth hinj h hroot
  obtain ⟨hlength, hspell⟩ := h.num2Bits
  have hlt := bitsVal_lt ((a.steps depth 0).map Prod.fst)
  rw [hlength] at hlt
  -- the bits spell a number below the order, so it is the index itself
  have hindex : a.leafIndex.val
      = bitsVal ((a.steps depth 0).map Prod.fst) := by
    have hpow : 2 ^ depth ≤ 2 ^ 254 :=
      Nat.pow_le_pow_right (by decide) hdepth.le
    have hr := two_pow_254_lt_r
    rw [← hspell, ZMod.val_natCast, Nat.mod_eq_of_lt (by omega)]
  have htree : ∀ k < (a.steps depth 0).length, ∀ i,
      i / 2 ^ ((a.steps depth 0).length - 1 - k) = 0 →
        Merkle.nodePair hash leaves (0 + k) i
          ∈ Merkle.treePairs hash leaves depth ∪ a.pairs depth := by
    rw [MerkleSignals.length_steps]
    intro k hk i hi
    refine .inl ⟨0 + k, by omega, i, ?_, rfl⟩
    rw [Nat.zero_add]
    exact (Nat.div_eq_zero_iff_lt (Nat.two_pow_pos _)).mp hi
  have hclimb : Merkle.climb hash (a.nodes 0) (a.steps depth 0)
      = Merkle.node hash leaves (0 + (a.steps depth 0).length) 0 := by
    rw [h.climb_steps (Nat.zero_add depth), MerkleSignals.length_steps,
      Nat.zero_add]
    exact hroot
  obtain ⟨hleaf, hsteps⟩ := Merkle.climb_binds_opening hinj
    (a.steps depth 0) htree
    (fun p hp => .inr (h.climbPairs_steps (by omega) p hp)) hclimb
  rw [Nat.zero_mul, Nat.add_zero, ← hindex] at hleaf hsteps
  rw [MerkleSignals.length_steps] at hsteps
  refine ⟨hindex ▸ hlt, h.first.symm.trans hleaf, ?_⟩
  intro k hk
  have hsibling := MerkleSignals.siblings_eq hsteps k hk
  rw [Nat.zero_add] at hsibling
  exact hsibling

-- ============================================================== four leaves

namespace FourLeaves

/-- The leaves 1, 2, 3 and 4. -/
def leaves (i : ℕ) : Fr := ((i + 1 : ℕ) : Fr)

/-- A hash of digits, injective on a few of them. -/
def hash (left right : Fr) : Fr := 10 * left + right

/-- The third leaf is opened. -/
def third : MerkleSignals where
  leaf := 3
  leafIndex := 2
  siblings := fun i => if i = 0 then 4 else 12
  out := 154
  nodes := fun i => if i = 0 then 3 else if i = 1 then 34 else 154
  indices := fun i => if i = 0 then 0 else 1
  sorted := fun i => if i = 0 then (3, 4) else (12, 34)

/-- The pairs it is injective on. -/
def hashed : List (Fr × Fr) := [(1, 2), (3, 4), (12, 34)]

/-- The pairs of the tree and of the opening are these, and no two of them
collide; the opening leads to the root. -/
theorem pairs_evaluated :
    (∀ l < 2, ∀ i < 2 ^ (2 - 1 - l), Merkle.nodePair hash leaves l i ∈ hashed)
      ∧ (∀ i < 2, third.sorted i ∈ hashed)
      ∧ (hashed.map fun p => hash p.1 p.2).Nodup
      ∧ third.out = Merkle.node hash leaves 2 0 := by
  decide +kernel

theorem constraints_evaluated :
    (∀ i < 2, third.indices i * (third.indices i - 1) = 0)
      ∧ ∑ i ∈ Finset.range 2, third.indices i * 2 ^ i = third.leafIndex
      ∧ (∀ i < 2, (third.sorted i).1
        = mux1 (third.nodes i) (third.siblings i) (third.indices i))
      ∧ (∀ i < 2, (third.sorted i).2
        = mux1 (third.siblings i) (third.nodes i) (third.indices i))
      ∧ ∀ i < 2, third.nodes (i + 1)
        = hash (third.sorted i).1 (third.sorted i).2 := by
  decide +kernel

theorem third_satisfies : third.Satisfies hash 2 := by
  obtain ⟨hbit, hindex, hleft, hright, hhashed⟩ := constraints_evaluated
  exact ⟨hbit, hindex, rfl, hleft, hright, hhashed, rfl⟩

end FourLeaves

open FourLeaves in
/-- The opening of the third of four leaves. -/
theorem openings_bind_third :
    third.leafIndex.val < 2 ^ 2 ∧ third.leaf = leaves third.leafIndex.val
      ∧ ∀ k < 2, third.siblings k = Merkle.node hash leaves k
        (Merkle.sibling (third.leafIndex.val / 2 ^ k)) := by
  obtain ⟨htree, hpairs, hinj, hroot⟩ := pairs_evaluated
  have hall : ∀ p ∈ Merkle.treePairs hash leaves 2 ∪ third.pairs 2,
      p ∈ hashed := by
    rintro p (⟨l, hl, i, hi, rfl⟩ | ⟨i, hi, rfl⟩)
    · exact htree l hl i hi
    · exact hpairs i hi
  exact openings_bind 2 hash leaves third (by decide)
    (fun p hp q hq => List.inj_on_of_nodup_map hinj (hall p hp) (hall q hq))
    third_satisfies hroot

end Lumix
