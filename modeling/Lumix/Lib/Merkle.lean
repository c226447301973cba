/-
Perfect binary hash trees over an arbitrary two-input hash.

A tree is its leaf function `ℕ → α`; the node at `(level, index)` is the
hash of its two children, so a tree of depth `d` has its root at
`node d 0`. Fixed-capacity trees whose missing leaves are a padding
value are the same thing with an eventually constant leaf function.

Four facts carry every use:

- locality (`node_congr`): a node reads only the leaves below it, so
  changing one leaf moves only the nodes on its path (`node_update_off`)
  and an all-padding subtree has its level's padding node
  (`node_eq_padNode`);
- the path recurrence (`node_parent`): a node's parent is the hash of
  the node and its sibling, in the order its index's parity says;
- completeness (`climb_opening`): climbing from a node along its own
  siblings arrives at the tree's node above it;
- binding (`climb_binds_opening`): an opening that climbs to a node of
  the tree is the tree's own opening of the opened position, provided no
  two distinct input pairs of the opening and the tree collide.
-/
import Mathlib.Data.Set.Function
import Mathlib.Logic.Function.Basic
import Lumix.Lib.Digits

namespace Lumix.Merkle

open Digits

variable {α : Type*} (h : α → α → α)

-- ============================================================= nodes

/-- The node at `(level, index)` of the tree with the given leaves. -/
def node (leaf : ℕ → α) : ℕ → ℕ → α
  | 0, i => leaf i
  | l + 1, i => h (node leaf l (2 * i)) (node leaf l (2 * i + 1))

/-- The node of an all-padding subtree, by level. -/
def padNode (z : α) : ℕ → α
  | 0 => z
  | l + 1 => h (padNode z l) (padNode z l)

/-- The pair of children hashed into the node above level `l`, at
index `i`. -/
def nodePair (leaf : ℕ → α) (l i : ℕ) : α × α :=
  (node h leaf l (2 * i), node h leaf l (2 * i + 1))

/-- The pairs hashed in the tree of depth `d`. -/
def treePairs (leaf : ℕ → α) (d : ℕ) : Set (α × α) :=
  { p | ∃ l < d, ∃ i < 2 ^ (d - 1 - l), p = nodePair h leaf l i }

/-- A node reads only the leaves of its own subtree. -/
theorem node_congr {f g : ℕ → α} (l i : ℕ)
    (hfg : ∀ j, i * 2 ^ l ≤ j → j < (i + 1) * 2 ^ l → f j = g j) :
    node h f l i = node h g l i := by
  induction l generalizing i with
  | zero => exact hfg i (by simp) (by simp)
  | succ l ih =>
      have hlo : i * 2 ^ (l + 1) = 2 * i * 2 ^ l := by ring
      have hmid : (2 * i + 1) * 2 ^ l = 2 * i * 2 ^ l + 2 ^ l := by ring
      have hhi : (i + 1) * 2 ^ (l + 1) = (2 * i + 1 + 1) * 2 ^ l := by ring
      have hend : (2 * i + 1 + 1) * 2 ^ l = (2 * i + 1) * 2 ^ l + 2 ^ l := by
        ring
      have hleft : ∀ j, 2 * i * 2 ^ l ≤ j → j < (2 * i + 1) * 2 ^ l →
          f j = g j := fun j hj hj' => hfg j (by omega) (by omega)
      have hright : ∀ j, (2 * i + 1) * 2 ^ l ≤ j →
          j < (2 * i + 1 + 1) * 2 ^ l → f j = g j :=
        fun j hj hj' => hfg j (by omega) (by omega)
      simp only [node, ih (2 * i) hleft, ih (2 * i + 1) hright]

/-- A tree of one value. -/
theorem node_const (z : α) (l i : ℕ) :
    node h (fun _ => z) l i = padNode h z l := by
  induction l generalizing i with
  | zero => rfl
  | succ l ih => simp only [node, padNode, ih]

/-- A subtree with only padding below it is its level's padding node. -/
theorem node_eq_padNode {f : ℕ → α} {z : α} {l i : ℕ}
    (hz : ∀ j, i * 2 ^ l ≤ j → f j = z) :
    node h f l i = padNode h z l := by
  rw [← node_const h z l i]
  exact node_congr h l i fun j hlo _ => hz j hlo

/-- Changing leaf `n` leaves every node off its path unchanged. -/
theorem node_update_off {f g : ℕ → α} {n l i : ℕ}
    (hfg : ∀ j, j ≠ n → g j = f j) (hi : i ≠ n / 2 ^ l) :
    node h g l i = node h f l i := by
  refine node_congr h l i fun j hlo hhi => hfg j ?_
  rintro rfl
  have hpos : 0 < 2 ^ l := Nat.pow_pos (by omega)
  refine hi (Nat.div_eq_of_lt_le hlo hhi).symm

/-- The index of the other child of the same parent. -/
def sibling (i : ℕ) : ℕ := if i % 2 = 0 then i + 1 else i - 1

/-- The path recurrence: a parent is the hash of a child and its
sibling, in index order. -/
theorem node_parent (f : ℕ → α) (l i : ℕ) :
    node h f (l + 1) (i / 2)
      = if i % 2 = 0 then h (node h f l i) (node h f l (sibling i))
        else h (node h f l (sibling i)) (node h f l i) := by
  unfold sibling
  by_cases hi : i % 2 = 0
  · rw [if_pos hi, if_pos hi, node, show 2 * (i / 2) = i by omega]
  · rw [if_neg hi, if_neg hi, node, show 2 * (i / 2) = i - 1 by omega,
      show i - 1 + 1 = i by omega]

-- ========================================================== openings

/-- The pair one level of an opening hashes: `right` says the running
value is the right child. -/
def pairOf (right : Bool) (x s : α) : α × α :=
  if right then (s, x) else (x, s)

/-- The root an opening claims: climb from `x` along (side, sibling)
steps, leaf level first. -/
def climb (x : α) : List (Bool × α) → α
  | [] => x
  | (right, s) :: rest =>
      climb (h (pairOf right x s).1 (pairOf right x s).2) rest

/-- One step higher. -/
theorem climb_concat (x : α) (path : List (Bool × α)) (step : Bool × α) :
    climb h x (path ++ [step])
      = h (pairOf step.1 (climb h x path) step.2).1
        (pairOf step.1 (climb h x path) step.2).2 := by
  induction path generalizing x with
  | nil => rfl
  | cons first path ih => exact ih _

/-- The input pairs an opening hashes. -/
def climbPairs (x : α) : List (Bool × α) → List (α × α)
  | [] => []
  | (right, s) :: rest =>
      pairOf right x s
        :: climbPairs (h (pairOf right x s).1 (pairOf right x s).2) rest

/-- The tree's own opening of `(level, index)`, `remaining` levels up. -/
def opening (f : ℕ → α) : (remaining level index : ℕ) → List (Bool × α)
  | 0, _, _ => []
  | remaining + 1, level, index =>
      (decide (index % 2 = 1), node h f level (sibling index))
        :: opening f remaining (level + 1) (index / 2)

/-- The sides of an opening are the bits of its index. -/
theorem opening_sides (f : ℕ → α) (remaining level index : ℕ) :
    (opening h f remaining level index).map Prod.fst
      = bitsOf remaining index := by
  induction remaining generalizing level index with
  | zero => rfl
  | succ remaining ih =>
      simp only [opening, List.map_cons, bitsOf, ih]

variable {h}

/-- Completeness: the tree's own opening climbs to the tree's node. -/
theorem climb_opening (f : ℕ → α) (remaining level index : ℕ) :
    climb h (node h f level index) (opening h f remaining level index)
      = node h f (level + remaining) (index / 2 ^ remaining) := by
  induction remaining generalizing level index with
  | zero => simp [climb, opening]
  | succ remaining ih =>
      have hstep : h
          (pairOf (decide (index % 2 = 1)) (node h f level index)
            (node h f level (sibling index))).1
          (pairOf (decide (index % 2 = 1)) (node h f level index)
            (node h f level (sibling index))).2
          = node h f (level + 1) (index / 2) := by
        rw [node_parent]
        unfold pairOf
        by_cases heven : index % 2 = 0
        · simp [heven]
        · have hodd : index % 2 = 1 := by omega
          simp [hodd]
      simp only [opening, climb]
      rw [hstep, ih, show level + 1 + remaining = level + (remaining + 1)
        by omega, Nat.div_div_eq_div_mul, ← Nat.pow_succ']

/-- Binding. On a set of input pairs without collisions that covers the
opening and the tree below the node it climbs to, an opening of node
`(l + k, j)` started from the tree's node at level `l` under the position
its sides spell, and is the tree's own opening of that position. -/
theorem climb_binds_opening {S : Set (α × α)}
    (hinj : Set.InjOn (fun p : α × α => h p.1 p.2) S) {f : ℕ → α}
    (path : List (Bool × α)) {x : α} {l j : ℕ}
    (htree : ∀ k < path.length, ∀ i, i / 2 ^ (path.length - 1 - k) = j →
      nodePair h f (l + k) i ∈ S)
    (hpath : ∀ p ∈ climbPairs h x path, p ∈ S)
    (hroot : climb h x path = node h f (l + path.length) j) :
    let index := bitsVal (path.map Prod.fst) + j * 2 ^ path.length
    x = node h f l index ∧ path = opening h f path.length l index := by
  -- Induction from the leaf end: the tail of the opening pins the
  -- parent, injectivity at the parent pins the child.
  induction path generalizing x l with
  | nil => exact ⟨by simpa [climb] using hroot, rfl⟩
  | cons step rest ih =>
      obtain ⟨right, s⟩ := step
      simp only [List.length_cons] at htree hroot
      obtain ⟨hparent, hrest⟩ := ih (l := l + 1)
        (x := h (pairOf right x s).1 (pairOf right x s).2)
        (by
          intro k hk i hi
          rw [show l + 1 + k = l + (k + 1) by omega]
          refine htree (k + 1) (by omega) i ?_
          rw [show rest.length + 1 - 1 - (k + 1) = rest.length - 1 - k
            by omega]
          exact hi)
        (fun p hp => hpath p (List.mem_cons_of_mem _ hp))
        (by
          rw [show l + 1 + rest.length = l + (rest.length + 1) by omega]
          exact hroot)
      have hbelow : (bitsVal (rest.map Prod.fst) + j * 2 ^ rest.length)
          / 2 ^ rest.length = j := by
        have hlt := bitsVal_lt (rest.map Prod.fst)
        rw [List.length_map] at hlt
        rw [Nat.add_mul_div_right _ _ (Nat.two_pow_pos _),
          Nat.div_eq_of_lt hlt, Nat.zero_add]
      have hpair := hinj (hpath _ (List.mem_cons_self ..))
        (htree 0 (by omega) _ hbelow) hparent
      have hindex : bitsVal (((right, s) :: rest).map Prod.fst)
            + j * 2 ^ ((right, s) :: rest).length
          = right.toNat
            + 2 * (bitsVal (rest.map Prod.fst) + j * 2 ^ rest.length) := by
        rw [List.map_cons, bitsVal_cons, List.length_cons, Nat.pow_succ]
        ring
      dsimp only
      rw [hindex, List.length_cons, opening]
      generalize bitsVal (rest.map Prod.fst) + j * 2 ^ rest.length = below
        at hpair hrest
      cases right with
      | false =>
          have hx : x = (nodePair h f l below).1 := congrArg Prod.fst hpair
          have hs : s = (nodePair h f l below).2 := congrArg Prod.snd hpair
          have hsibling : sibling (2 * below) = 2 * below + 1 :=
            if_pos (Nat.mul_mod_right 2 below)
          have hside : decide (2 * below % 2 = 1) = false := by simp
          rw [Bool.toNat_false, Nat.zero_add, hsibling, hside,
            Nat.mul_div_cancel_left below (by decide)]
          exact ⟨hx, List.cons_eq_cons.mpr ⟨Prod.ext rfl hs, hrest⟩⟩
      | true =>
          have hs : s = (nodePair h f l below).1 := congrArg Prod.fst hpair
          have hx : x = (nodePair h f l below).2 := congrArg Prod.snd hpair
          have hsibling : sibling (1 + 2 * below) = 2 * below := by
            unfold sibling
            rw [if_neg (by omega), Nat.add_sub_cancel_left]
          have hside : decide ((1 + 2 * below) % 2 = 1) = true := by
            simp
          rw [Bool.toNat_true, hsibling, hside,
            show (1 + 2 * below) / 2 = below by omega]
          refine ⟨?_, List.cons_eq_cons.mpr ⟨Prod.ext rfl hs, hrest⟩⟩
          rw [Nat.add_comm]
          exact hx

/-- A path into a subtree starts at the leaf its sides say. -/
theorem climb_binds_under {S : Set (α × α)}
    (hinj : Set.InjOn (fun p : α × α => h p.1 p.2) S) {f : ℕ → α}
    (path : List (Bool × α)) {x : α} {l j : ℕ}
    (htree : ∀ k < path.length, ∀ i, i / 2 ^ (path.length - 1 - k) = j →
      nodePair h f (l + k) i ∈ S)
    (hpath : ∀ p ∈ climbPairs h x path, p ∈ S)
    (hroot : climb h x path = node h f (l + path.length) j) :
    x = node h f l (bitsVal (path.map Prod.fst) + j * 2 ^ path.length) :=
  (climb_binds_opening hinj path htree hpath hroot).1

/-- Binding on a set that covers all nodes through level `d`. -/
theorem climb_binds {S : Set (α × α)}
    (hinj : Set.InjOn (fun p : α × α => h p.1 p.2) S) {f : ℕ → α}
    {d : ℕ} (htree : ∀ l < d, ∀ i, nodePair h f l i ∈ S)
    (path : List (Bool × α)) {x : α} {l j : ℕ}
    (hd : l + path.length ≤ d) (hpath : ∀ p ∈ climbPairs h x path, p ∈ S)
    (hroot : climb h x path = node h f (l + path.length) j) :
    x = node h f l (bitsVal (path.map Prod.fst) + j * 2 ^ path.length) := by
  refine climb_binds_under hinj path ?_ hpath hroot
  intro k hk i _
  exact htree (l + k) (by omega) i

/-- An opening hashes once per level, so its claimed root is its leaf
only at depth zero; above that it is a hash of one of its pairs. -/
theorem climb_eq_hash {x : α} {path : List (Bool × α)} (hne : path ≠ []) :
    ∃ p ∈ climbPairs h x path, climb h x path = h p.1 p.2 := by
  induction path generalizing x with
  | nil => exact absurd rfl hne
  | cons step rest ih =>
      obtain ⟨right, s⟩ := step
      cases rest with
      | nil => exact ⟨_, List.mem_cons_self .., rfl⟩
      | cons step' rest' =>
          obtain ⟨p, hp, heq⟩ :=
            ih (x := h (pairOf right x s).1 (pairOf right x s).2)
              (List.cons_ne_nil _ _)
          exact ⟨p, List.mem_cons_of_mem _ hp, heq⟩

end Lumix.Merkle
