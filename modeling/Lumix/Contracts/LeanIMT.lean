/-
The pool's incremental Merkle tree (`lean_imt`): an append-only leaf
list of fixed depth whose missing leaves are zero, with two caches. The
subtree cache holds one hash per level, the node of an all-zero subtree;
the sparse cache holds the nodes insertions have touched. An insertion
recomputes the path from the new leaf to the root and caches it.

What the tree is for is `plainNode`: the node of the plain zero-padded
tree over the same leaves. The tie is `CacheOk`: whatever the hybrid
lookup answers, it answers with the plain node. An insertion keeps it
(`insert_refines`), so the stored root is always the plain root.

The path recomputation passes through states where the cache is half
old and half new; `CacheUpTo` is the invariant of that loop.
-/
import Lumix.Basic.Word
import Lumix.Lib.Merkle

namespace Lumix

/-- The tree with its caches. -/
structure LeanIMT where
  leaves : List Word
  depth : ℕ
  capacity : ℕ
  root : Word
  subtreeCache : ℕ → Option Fr
  sparseCache : ℕ × ℕ → Option Fr

namespace LeanIMT

variable (poseidon : List Fr → Fr)

-- ========================================================== the source

/-- Two-input Poseidon, the tree's node hash. -/
def hashPair (left right : Fr) : Fr := poseidon [left, right]

/-- `1u32.checked_shl(depth).unwrap_or(u32::MAX)`. -/
def capacityOf (depth : ℕ) : ℕ := if depth < 32 then 2 ^ depth else 2 ^ 32 - 1

/-- The loop of `recompute_tree` through level `n`: the cache filled so
far and the current level's hash. -/
def emptyLevels : ℕ → (ℕ → Option Fr) × Fr
  | 0 => (Function.update (fun _ => none) 0 (some 0), 0)
  | n + 1 =>
      let (cache, cur) := emptyLevels n
      let cur := hashPair poseidon cur cur
      (Function.update cache (n + 1) (some cur), cur)

/-- An empty tree with the subtrees of zeros. -/
def new (depth : ℕ) : LeanIMT :=
  if depth = 0 then
    { leaves := [], depth, capacity := capacityOf depth, root := 0
      subtreeCache := fun _ => none, sparseCache := fun _ => none }
  else
    { leaves := [], depth, capacity := capacityOf depth
      root := Word.ofFr (emptyLevels poseidon depth).2
      subtreeCache := (emptyLevels poseidon depth).1
      sparseCache := fun _ => none }

/-- The leaf at an index as a scalar, zero where there is none. -/
def leafScalar (leaves : List Word) (i : ℕ) : Fr :=
  match leaves[i]? with
  | some leaf => leaf.toFr
  | none => 0

/-- `get_cached_node`: the sparse entry, else the level's subtree hash. -/
def getCachedNode (t : LeanIMT) (level index : ℕ) : Option Fr :=
  match t.sparseCache (level, index) with
  | some v => some v
  | none => t.subtreeCache level

/-- `cache_sparse_node`. -/
def cacheSparseNode (t : LeanIMT) (level index : ℕ) (hash : Fr) : LeanIMT :=
  { t with
    sparseCache := Function.update t.sparseCache (level, index) (some hash) }

/-- `compute_node_at_level_scalar`. -/
def computeNodeAtLevelScalar (t : LeanIMT) : ℕ → ℕ → Fr
  | 0, index =>
      match t.getCachedNode 0 index with
      | some v => v
      | none => leafScalar t.leaves index
  | level + 1, index =>
      if level + 1 > t.depth then 0
      else
        match t.getCachedNode (level + 1) index with
        | some v => v
        | none =>
            hashPair poseidon (t.computeNodeAtLevelScalar level (index * 2))
              (t.computeNodeAtLevelScalar level (index * 2 + 1))

/-- The loop of `recompute_path_to_root_with_cache_update`, `remaining`
levels below the root: climb from the current node, caching each
parent. -/
def recomputePath (t : LeanIMT) : (remaining level index : ℕ) → Fr →
    Fr × LeanIMT
  | 0, _, _, current => (current, t)
  | remaining + 1, level, index, current =>
      let siblingIndex := if index % 2 = 0 then index + 1 else index - 1
      let siblingScalar :=
        if level = 0 then leafScalar t.leaves siblingIndex
        else
          match t.getCachedNode level siblingIndex with
          | some v => v
          | none => computeNodeAtLevelScalar poseidon t level siblingIndex
      let parent :=
        if index % 2 = 0 then hashPair poseidon current siblingScalar
        else hashPair poseidon siblingScalar current
      recomputePath (t.cacheSparseNode (level + 1) (index / 2) parent)
        remaining (level + 1) (index / 2) parent

/-- `incremental_update` after the leaf at `leafIndex` was appended. -/
def incrementalUpdate (t : LeanIMT) (leafIndex : ℕ) : LeanIMT :=
  let leaf := leafScalar t.leaves leafIndex
  let (root, t) := recomputePath poseidon
    (t.cacheSparseNode 0 leafIndex leaf) t.depth 0 leafIndex leaf
  { t with root := Word.ofFr root }

/-- Append a leaf, or fail when the tree is at capacity. -/
def insert (t : LeanIMT) (leaf : Word) : Option LeanIMT :=
  if t.leaves.length ≥ t.capacity then none
  else
    some (incrementalUpdate poseidon
      { t with leaves := t.leaves ++ [leaf] } t.leaves.length)

/-- Insert a list of leaves in order. -/
def insertAll (t : LeanIMT) : List Word → Option LeanIMT
  | [] => some t
  | leaf :: rest =>
      match t.insert poseidon leaf with
      | some t' => insertAll t' rest
      | none => none

-- ====================================================== the plain tree

/-- The node of the plain zero-padded tree over `leaves`. -/
def plainNode (leaves : List Word) : ℕ → ℕ → Fr :=
  Merkle.node (hashPair poseidon) (leafScalar leaves)

/-- The root of the plain tree of the given depth. -/
def plainRoot (depth : ℕ) (leaves : List Word) : Fr :=
  plainNode poseidon leaves depth 0

/-- Appending a leaf changes that leaf's position only. -/
theorem leafScalar_append_of_ne {leaves : List Word} {leaf : Word}
    {j : ℕ} (hj : j ≠ leaves.length) :
    leafScalar (leaves ++ [leaf]) j = leafScalar leaves j := by
  unfold leafScalar
  by_cases hlt : j < leaves.length
  · rw [List.getElem?_append_left hlt]
  · rw [List.getElem?_eq_none (by simp; omega),
      List.getElem?_eq_none (by omega)]

/-- A leaf changes the nodes on its path only. -/
theorem plainNode_append_off {leaves : List Word} {leaf : Word}
    {l i : ℕ} (hi : i ≠ leaves.length / 2 ^ l) :
    plainNode poseidon (leaves ++ [leaf]) l i
      = plainNode poseidon leaves l i :=
  Merkle.node_update_off _ (fun _ hj => leafScalar_append_of_ne hj) hi

/-- Behind the leaves there are zeros. -/
theorem plainNode_eq_padNode {leaves : List Word} {l i : ℕ}
    (hi : leaves.length ≤ i * 2 ^ l) :
    plainNode poseidon leaves l i
      = Merkle.padNode (hashPair poseidon) 0 l := by
  refine Merkle.node_eq_padNode _ fun j hj => ?_
  unfold leafScalar
  rw [List.getElem?_eq_none (by omega)]

-- ========================================================= the caches

/-- Every answer of the hybrid lookup is the plain node. -/
def CacheOk (t : LeanIMT) : Prop :=
  ∀ l ≤ t.depth, ∀ i v, t.getCachedNode l i = some v →
    v = plainNode poseidon t.leaves l i

/-- The loop invariant: through level `level` the lookup is right, above
it only off the path of leaf `n`. -/
def CacheUpTo (t : LeanIMT) (n level : ℕ) : Prop :=
  ∀ l ≤ t.depth, ∀ i v, l ≤ level ∨ i ≠ n / 2 ^ l →
    t.getCachedNode l i = some v → v = plainNode poseidon t.leaves l i

/-- The tree is what it should be: the caches are right and the stored
root is the plain root. -/
structure Refines (t : LeanIMT) : Prop where
  cache : CacheOk poseidon t
  root : t.root = Word.ofFr (plainRoot poseidon t.depth t.leaves)

/-- The loop over the levels ends with the top of a tree of zeros, -/
theorem emptyLevels_snd (n : ℕ) :
    (emptyLevels poseidon n).2
      = Merkle.padNode (hashPair poseidon) 0 n := by
  induction n with
  | zero => rfl
  | succ n ih => simp only [emptyLevels, Merkle.padNode, ih]

/-- and collects those below. -/
theorem emptyLevels_fst {n l : ℕ} {v : Fr}
    (h : (emptyLevels poseidon n).1 l = some v) :
    v = Merkle.padNode (hashPair poseidon) 0 l := by
  induction n with
  | zero =>
      simp only [emptyLevels, Function.update_apply] at h
      split at h
      case isTrue hl =>
        injection h with h
        rw [hl, ← h]
        rfl
      case isFalse => cases h
  | succ n ih =>
      simp only [emptyLevels, Function.update_apply] at h
      split at h
      case isTrue hl =>
        injection h with h
        rw [hl, ← h, emptyLevels_snd]
        rfl
      case isFalse => exact ih h

/-- A new tree is the plain tree over no leaves. -/
theorem new_refines (depth : ℕ) : Refines poseidon (new poseidon depth) := by
  unfold new
  by_cases hd : depth = 0
  · rw [if_pos hd]
    refine ⟨fun l _ i v h => ?_, ?_⟩
    · simp [getCachedNode] at h
    · subst hd
      apply BitVec.eq_of_toNat_eq
      rw [Word.toNat_ofFr]
      rfl
  · rw [if_neg hd]
    refine ⟨fun l _ i v h => ?_, ?_⟩
    · simp only [getCachedNode] at h
      rw [emptyLevels_fst poseidon h, plainNode_eq_padNode]
      simp
    · simp only [plainRoot]
      rw [emptyLevels_snd, plainNode_eq_padNode]
      simp

/-- On-demand computation agrees with the plain tree wherever the lookup
is right at and below its level. -/
theorem computeNode_eq {t : LeanIMT} {level : ℕ} (hd : level ≤ t.depth)
    (hc : ∀ l ≤ level, ∀ i v, t.getCachedNode l i = some v →
      v = plainNode poseidon t.leaves l i) (i : ℕ) :
    computeNodeAtLevelScalar poseidon t level i
      = plainNode poseidon t.leaves level i := by
  induction level generalizing i with
  | zero =>
      unfold computeNodeAtLevelScalar
      split
      case h_1 v hv => exact hc 0 (le_refl 0) i v hv
      case h_2 => rfl
  | succ level ih =>
      unfold computeNodeAtLevelScalar
      rw [if_neg (by omega)]
      split
      case h_1 v hv => exact hc (level + 1) (le_refl _) i v hv
      case h_2 =>
        have hlow := fun j => ih (by omega)
          (fun l hl => hc l (by omega)) j
        rw [hlow (i * 2), hlow (i * 2 + 1), Nat.mul_comm i 2]
        rfl

/-- A lookup after a cache write: the written value at its key, the old
answer elsewhere. -/
theorem getCachedNode_write {t : LeanIMT} {l i l' i' : ℕ} {x v : Fr}
    (h : (t.cacheSparseNode l' i' x).getCachedNode l i = some v) :
    (l = l' ∧ i = i' ∧ v = x)
      ∨ (¬(l = l' ∧ i = i') ∧ t.getCachedNode l i = some v) := by
  simp only [getCachedNode, cacheSparseNode, Function.update_apply,
    Prod.mk.injEq] at h
  by_cases hk : l = l' ∧ i = i'
  · rw [if_pos hk] at h
    injection h with h
    exact Or.inl ⟨hk.1, hk.2, h.symm⟩
  · rw [if_neg hk] at h
    exact Or.inr ⟨hk, h⟩

/-- One climb of the loop: the sibling read is the plain sibling, so the
parent computed is the plain parent. -/
theorem recomputePath_spec {t : LeanIMT} {n remaining level : ℕ}
    {current : Fr} (hd : level + remaining = t.depth)
    (hcur : current = plainNode poseidon t.leaves level (n / 2 ^ level))
    (hc : CacheUpTo poseidon t n level) :
    (recomputePath poseidon t remaining level (n / 2 ^ level) current).1
        = plainNode poseidon t.leaves t.depth (n / 2 ^ t.depth)
      ∧ CacheOk poseidon
          (recomputePath poseidon t remaining level (n / 2 ^ level)
            current).2
      ∧ (recomputePath poseidon t remaining level (n / 2 ^ level)
            current).2.leaves = t.leaves
      ∧ (recomputePath poseidon t remaining level (n / 2 ^ level)
            current).2.depth = t.depth
      ∧ (recomputePath poseidon t remaining level (n / 2 ^ level)
            current).2.capacity = t.capacity := by
  induction remaining generalizing t level current with
  | zero =>
      have hlv : level = t.depth := by omega
      subst hlv
      exact ⟨hcur, fun l hl i v hv => hc l hl i v (Or.inl hl) hv,
        rfl, rfl, rfl⟩
  | succ remaining ih =>
      -- the sibling, from the leaf list, the caches or recomputed
      have hsib : (if level = 0 then
            leafScalar t.leaves (Merkle.sibling (n / 2 ^ level))
          else
            match t.getCachedNode level
              (Merkle.sibling (n / 2 ^ level)) with
            | some v => v
            | none => computeNodeAtLevelScalar poseidon t level
                (Merkle.sibling (n / 2 ^ level)))
          = plainNode poseidon t.leaves level
              (Merkle.sibling (n / 2 ^ level)) := by
        by_cases h0 : level = 0
        · rw [if_pos h0]
          subst h0
          rfl
        · rw [if_neg h0]
          split
          case h_1 v hv =>
            exact hc level (by omega) _ v (Or.inl (le_refl _)) hv
          case h_2 =>
            exact computeNode_eq poseidon (by omega)
              (fun l hl i v hv => hc l (by omega) i v (Or.inl hl) hv) _
      have hdiv : n / 2 ^ level / 2 = n / 2 ^ (level + 1) := by
        rw [Nat.div_div_eq_div_mul, ← Nat.pow_succ]
      have hparent := Merkle.node_parent (hashPair poseidon)
        (leafScalar t.leaves) level (n / 2 ^ level)
      rw [hdiv] at hparent
      simp only [recomputePath]
      rw [show (if n / 2 ^ level % 2 = 0 then n / 2 ^ level + 1
          else n / 2 ^ level - 1) = Merkle.sibling (n / 2 ^ level)
        from rfl, hsib, hcur]
      rw [show (if n / 2 ^ level % 2 = 0 then
            hashPair poseidon
              (plainNode poseidon t.leaves level (n / 2 ^ level))
              (plainNode poseidon t.leaves level
                (Merkle.sibling (n / 2 ^ level)))
          else
            hashPair poseidon
              (plainNode poseidon t.leaves level
                (Merkle.sibling (n / 2 ^ level)))
              (plainNode poseidon t.leaves level (n / 2 ^ level)))
          = plainNode poseidon t.leaves (level + 1) (n / 2 ^ (level + 1))
        from hparent.symm, hdiv]
      have hd' : level + 1 + remaining = t.depth := by omega
      refine ih hd' rfl ?_
      intro l hl i v hside hv
      rcases getCachedNode_write hv with ⟨rfl, rfl, rfl⟩ | ⟨hk, hold⟩
      · rfl
      · refine hc l hl i v ?_ hold
        rcases hside with hle | hoff
        · rcases Nat.lt_or_ge level l with hlt | hge
          · have hl' : l = level + 1 := by omega
            subst hl'
            exact Or.inr fun hi => hk ⟨rfl, hi⟩
          · exact Or.inl hge
        · exact Or.inr hoff

/-- After an insertion the caches are those of the longer list. -/
theorem incrementalUpdate_spec {t : LeanIMT} {leaf : Word}
    (hr : Refines poseidon t) (hroom : t.leaves.length < 2 ^ t.depth) :
    let t' := incrementalUpdate poseidon
      { t with leaves := t.leaves ++ [leaf] } t.leaves.length
    Refines poseidon t' ∧ t'.leaves = t.leaves ++ [leaf]
      ∧ t'.depth = t.depth ∧ t'.capacity = t.capacity := by
  -- the leaf write starts the loop at level 0 with only the path stale
  have hstart : CacheUpTo poseidon
      (cacheSparseNode { t with leaves := t.leaves ++ [leaf] } 0
        t.leaves.length
        (leafScalar (t.leaves ++ [leaf]) t.leaves.length))
      t.leaves.length 0 := by
    intro l hl i v hside hv
    rcases getCachedNode_write hv with ⟨rfl, rfl, rfl⟩ | ⟨hk, hold⟩
    · rfl
    · have hoff : i ≠ t.leaves.length / 2 ^ l := by
        rcases hside with h0 | hoff
        · have hl0 : l = 0 := by omega
          subst hl0
          rw [Nat.pow_zero, Nat.div_one]
          exact fun hi => hk ⟨rfl, hi⟩
        · exact hoff
      show v = plainNode poseidon (t.leaves ++ [leaf]) l i
      rw [plainNode_append_off poseidon hoff]
      exact hr.cache l hl i v hold
  have hleaf : leafScalar (t.leaves ++ [leaf]) t.leaves.length
      = plainNode poseidon (t.leaves ++ [leaf]) 0
          (t.leaves.length / 2 ^ 0) := by
    rw [Nat.pow_zero, Nat.div_one]
    rfl
  have hspec := recomputePath_spec poseidon
    (t := cacheSparseNode { t with leaves := t.leaves ++ [leaf] } 0
      t.leaves.length (leafScalar (t.leaves ++ [leaf]) t.leaves.length))
    (Nat.zero_add t.depth) hleaf hstart
  rw [Nat.pow_zero, Nat.div_one] at hspec
  obtain ⟨hroot, hcache, hleaves, hdepth, hcap⟩ := hspec
  refine ⟨⟨hcache, ?_⟩, hleaves, hdepth, hcap⟩
  have hroot' := hroot.trans (show _ = plainNode poseidon
      (t.leaves ++ [leaf]) t.depth (t.leaves.length / 2 ^ t.depth) from rfl)
  rw [Nat.div_eq_of_lt hroom] at hroot'
  show Word.ofFr _ = Word.ofFr (plainNode poseidon _ _ 0)
  exact congrArg Word.ofFr
    (hroot'.trans (congrArg₂ (plainNode poseidon · · 0) hleaves
      hdepth).symm)

/-- The capacity is within the depth. -/
theorem capacityOf_le (depth : ℕ) : capacityOf depth ≤ 2 ^ depth := by
  unfold capacityOf
  split
  · exact le_refl _
  · calc 2 ^ 32 - 1 ≤ 2 ^ 32 := Nat.sub_le _ _
      _ ≤ 2 ^ depth := Nat.pow_le_pow_right (by decide) (by omega)

/-- Refinement: an insertion appends its leaf, and the tree is again the
plain tree over its leaves. -/
theorem insert_refines {t t' : LeanIMT} {leaf : Word}
    (hcap : t.capacity = capacityOf t.depth)
    (hr : Refines poseidon t) (h : t.insert poseidon leaf = some t') :
    Refines poseidon t' ∧ t'.leaves = t.leaves ++ [leaf]
      ∧ t'.depth = t.depth ∧ t'.capacity = t.capacity := by
  unfold insert at h
  split at h
  case isTrue => cases h
  case isFalse hlt =>
    injection h with h
    subst h
    have hle := capacityOf_le t.depth
    exact incrementalUpdate_spec poseidon hr (by omega)

/-- The same for a list of insertions. -/
theorem insertAll_refines {t t' : LeanIMT} {ls : List Word}
    (hcap : t.capacity = capacityOf t.depth)
    (hr : Refines poseidon t) (h : t.insertAll poseidon ls = some t') :
    Refines poseidon t' ∧ t'.leaves = t.leaves ++ ls
      ∧ t'.depth = t.depth ∧ t'.capacity = t.capacity := by
  induction ls generalizing t with
  | nil =>
      simp only [insertAll, Option.some.injEq] at h
      subst h
      exact ⟨hr, by simp, rfl, rfl⟩
  | cons leaf rest ih =>
      simp only [insertAll] at h
      split at h
      case h_2 => cases h
      case h_1 t₁ h₁ =>
        obtain ⟨hr₁, hl₁, hd₁, hc₁⟩ :=
          insert_refines poseidon hcap hr h₁
        obtain ⟨hr', hl', hd', hc'⟩ :=
          ih (by rw [hc₁, hd₁, hcap]) hr₁ h
        refine ⟨hr', ?_, by rw [hd', hd₁], by rw [hc', hc₁]⟩
        rw [hl', hl₁, List.append_assoc]
        rfl

/-- Successful insertions stayed within the capacity. -/
theorem insertAll_room {t t' : LeanIMT} {ls : List Word}
    (hroom : t.leaves.length ≤ t.capacity)
    (hcap : t.capacity = capacityOf t.depth)
    (hr : Refines poseidon t) (h : t.insertAll poseidon ls = some t') :
    (t.leaves ++ ls).length ≤ t.capacity := by
  induction ls generalizing t with
  | nil => rwa [List.append_nil]
  | cons leaf rest ih =>
      simp only [insertAll] at h
      split at h
      case h_2 => cases h
      case h_1 t₁ h₁ =>
        obtain ⟨hr₁, hl₁, hd₁, hc₁⟩ :=
          insert_refines poseidon hcap hr h₁
        have hlt : t.leaves.length < t.capacity := by
          by_contra hfull
          rw [insert, if_pos (by omega)] at h₁
          cases h₁
        have hrest := ih (by rw [hl₁, hc₁]; simpa using hlt)
          (by rw [hc₁, hd₁, hcap]) hr₁ h
        rw [hl₁, hc₁, List.append_assoc] at hrest
        exact hrest

/-- One list after another. -/
theorem insertAll_append (t : LeanIMT) (ls ms : List Word) :
    t.insertAll poseidon (ls ++ ms)
      = (t.insertAll poseidon ls).bind (insertAll poseidon · ms) := by
  induction ls generalizing t with
  | nil => rfl
  | cons leaf rest ih =>
      simp only [List.cons_append, insertAll]
      cases t.insert poseidon leaf with
      | none => rfl
      | some t' => exact ih t'

/-- A new tree's leaves, depth and capacity. -/
theorem new_fields (depth : ℕ) :
    (new poseidon depth).leaves = [] ∧ (new poseidon depth).depth = depth
      ∧ (new poseidon depth).capacity = capacityOf depth := by
  unfold new
  split
  · exact ⟨rfl, rfl, rfl⟩
  · exact ⟨rfl, rfl, rfl⟩

/-- Rebuilding a tree from stored leaves gives the plain root over
them. -/
theorem root_of_insertAll_new {depth : ℕ} {ls : List Word} {t : LeanIMT}
    (h : (new poseidon depth).insertAll poseidon ls = some t) :
    t.root = Word.ofFr (plainRoot poseidon depth ls) := by
  obtain ⟨hl, hd, hc⟩ := new_fields poseidon depth
  obtain ⟨hr, hleaves, hdepth, -⟩ := insertAll_refines poseidon
    (by rw [hc, hd]) (new_refines poseidon depth) h
  rw [hr.root, hleaves, hdepth, hl, hd, List.nil_append]

/-- And there was room for them. -/
theorem room_of_insertAll_new {depth : ℕ} {ls : List Word} {t : LeanIMT}
    (h : (new poseidon depth).insertAll poseidon ls = some t) :
    ls.length ≤ capacityOf depth := by
  obtain ⟨hl, hd, hc⟩ := new_fields poseidon depth
  have hroom := insertAll_room poseidon (by rw [hl]; exact Nat.zero_le _)
    (by rw [hc, hd]) (new_refines poseidon depth) h
  rwa [hl, hc, List.nil_append] at hroom

end LeanIMT

end Lumix
