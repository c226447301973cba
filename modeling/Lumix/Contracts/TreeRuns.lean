/-
The tree over whole sequences of insertions. `LeanIMT.insert` says what
a successful insertion returns; here is the method as the source has it,
a result beside the tree it leaves (`tryInsert`), and the trees a
sequence of such calls goes through (`inserts`), refused ones included.

`Sound` is what holds of every tree on the way, however it was built:
the caches answer with plain nodes, the stored root is the plain root,
and the capacity is the depth's. A tree grown from `new` also keeps its
sparse keys inside the tree and its subtree cache at the padding nodes
(`Grown`), so a fallback to the subtree cache is taken only above
missing leaves.
-/
import Lumix.Circuits.Poseidon255
import Lumix.Contracts.LeanIMT

namespace Lumix.LeanIMT

variable (poseidon : List Fr → Fr)

-- ========================================================== the source

/-- The text of the `Err` of a full tree. -/
def atCapacity : String := "Tree is at capacity: cannot insert more leaves"

/-- `insert` with the tree it leaves behind. -/
def tryInsert (t : LeanIMT) (leaf : Word) : Except String Unit × LeanIMT :=
  if t.leaves.length ≥ t.capacity then (.error atCapacity, t)
  else
    (.ok (), incrementalUpdate poseidon
      { t with leaves := t.leaves ++ [leaf] } t.leaves.length)

/-- A sequence of insertions, refused ones included. -/
def inserts (t : LeanIMT) : List Word → LeanIMT
  | [] => t
  | leaf :: rest => inserts (tryInsert poseidon t leaf).2 rest

/-- A full tree refuses a leaf. -/
theorem tryInsert_full {t : LeanIMT} (h : t.capacity ≤ t.leaves.length)
    (leaf : Word) :
    tryInsert poseidon t leaf = (.error atCapacity, t) := by
  unfold tryInsert
  rw [if_pos h]

/-- Room for a leaf: the call succeeds and leaves what `insert`
returns. -/
theorem tryInsert_room {t : LeanIMT} (h : t.leaves.length < t.capacity)
    (leaf : Word) :
    (tryInsert poseidon t leaf).1 = .ok ()
      ∧ t.insert poseidon leaf
        = some (tryInsert poseidon t leaf).2 := by
  unfold tryInsert insert
  rw [if_neg (by omega), if_neg (by omega)]
  exact ⟨rfl, rfl⟩

/-- What every call preserves, every sequence preserves. -/
theorem inserts_induction {P : LeanIMT → Prop}
    (hstep : ∀ t leaf, P t → P (tryInsert poseidon t leaf).2)
    {t : LeanIMT} (h0 : P t) (ls : List Word) :
    P (inserts poseidon t ls) := by
  induction ls generalizing t with
  | nil => exact h0
  | cons leaf rest ih => exact ih (hstep t leaf h0)

-- ======================================================== every tree

/-- A tree of the given depth that is the plain tree over its leaves. -/
structure Sound (depth : ℕ) (t : LeanIMT) : Prop where
  depth_eq : t.depth = depth
  capacity_eq : t.capacity = capacityOf depth
  refines : Refines poseidon t
  room : t.leaves.length ≤ t.capacity

variable {poseidon}

/-- Sound after an insertion, -/
theorem Sound.after_insert {depth : ℕ} {t : LeanIMT}
    (h : Sound poseidon depth t) (leaf : Word) :
    Sound poseidon depth (tryInsert poseidon t leaf).2 := by
  by_cases hroom : t.leaves.length < t.capacity
  · obtain ⟨-, hins⟩ := tryInsert_room poseidon hroom leaf
    obtain ⟨hr, hl, hd, hc⟩ := insert_refines poseidon
      (by rw [h.capacity_eq, h.depth_eq]) h.refines hins
    refine ⟨hd.trans h.depth_eq, hc.trans h.capacity_eq, hr, ?_⟩
    rw [hl, hc, List.length_append, List.length_singleton]
    exact hroom
  · rw [tryInsert_full poseidon (by omega)]
    exact h

/-- and after any number. -/
theorem Sound.after_inserts {depth : ℕ} {t : LeanIMT}
    (h : Sound poseidon depth t) (ls : List Word) :
    Sound poseidon depth (inserts poseidon t ls) :=
  inserts_induction poseidon (fun _ leaf ht => ht.after_insert leaf) h ls

variable (poseidon) in

/-- A new tree is sound. -/
theorem new_sound (depth : ℕ) :
    Sound poseidon depth (new poseidon depth) := by
  obtain ⟨hl, hd, hc⟩ := new_fields poseidon depth
  refine ⟨hd, hc, new_refines poseidon depth, ?_⟩
  rw [hl]
  exact Nat.zero_le _

/-- A successful call appends its leaf, and the root is the plain root
over the longer list. -/
theorem Sound.accepts {depth : ℕ} {t : LeanIMT}
    (h : Sound poseidon depth t) (hroom : t.leaves.length < t.capacity)
    (leaf : Word) :
    (tryInsert poseidon t leaf).1 = .ok ()
      ∧ (tryInsert poseidon t leaf).2.leaves = t.leaves ++ [leaf]
      ∧ (tryInsert poseidon t leaf).2.root
        = Word.ofFr (plainRoot poseidon depth (t.leaves ++ [leaf])) := by
  obtain ⟨hok, hins⟩ := tryInsert_room poseidon hroom leaf
  obtain ⟨hr, hl, hd, -⟩ := insert_refines poseidon
    (by rw [h.capacity_eq, h.depth_eq]) h.refines hins
  refine ⟨hok, hl, ?_⟩
  rw [hr.root, hl, hd, h.depth_eq]

/-- The leaves of a sound tree after a sequence: those there was room
for. -/
theorem Sound.leaves_inserts {depth : ℕ} {t : LeanIMT}
    (h : Sound poseidon depth t) (ls : List Word) :
    (inserts poseidon t ls).leaves
      = (t.leaves ++ ls).take t.capacity := by
  induction ls generalizing t with
  | nil =>
      rw [List.append_nil, List.take_of_length_le h.room]
      rfl
  | cons leaf rest ih =>
      have hnext := h.after_insert leaf
      have hcap : (tryInsert poseidon t leaf).2.capacity = t.capacity :=
        hnext.capacity_eq.trans h.capacity_eq.symm
      show (inserts poseidon (tryInsert poseidon t leaf).2 rest).leaves = _
      rw [ih hnext, hcap]
      by_cases hroom : t.leaves.length < t.capacity
      · obtain ⟨-, hl, -⟩ := h.accepts hroom leaf
        rw [hl, List.append_assoc]
        rfl
      · rw [tryInsert_full poseidon (by omega)]
        have hle : t.capacity ≤ t.leaves.length := by omega
        rw [List.take_append_of_le_length hle,
          List.take_append_of_le_length hle]

-- ==================================================== trees from `new`

/-- The sparse keys the climb adds are on the path of the new leaf. -/
theorem recomputePath_sparse {t : LeanIMT} {n remaining level : ℕ}
    {current v : Fr} {l i : ℕ}
    (h : (recomputePath poseidon t remaining level (n / 2 ^ level)
      current).2.sparseCache (l, i) = some v) :
    t.sparseCache (l, i) = some v
      ∨ (l ≤ level + remaining ∧ i = n / 2 ^ l) := by
  induction remaining generalizing t level current with
  | zero => exact Or.inl h
  | succ remaining ih =>
      have hdiv : n / 2 ^ level / 2 = n / 2 ^ (level + 1) := by
        rw [Nat.div_div_eq_div_mul, ← Nat.pow_succ]
      simp only [recomputePath] at h
      rw [hdiv] at h
      rcases ih h with hold | ⟨hl, hi⟩
      · simp only [cacheSparseNode, Function.update_apply,
          Prod.mk.injEq] at hold
        split at hold
        case isTrue hk =>
          obtain ⟨rfl, rfl⟩ := hk
          exact Or.inr ⟨by omega, rfl⟩
        case isFalse => exact Or.inl hold
      · exact Or.inr ⟨by omega, hi⟩

/-- Recomputing a path leaves the subtrees. -/
theorem recomputePath_subtree (t : LeanIMT) (remaining level index : ℕ)
    (current : Fr) :
    (recomputePath poseidon t remaining level index
      current).2.subtreeCache = t.subtreeCache := by
  induction remaining generalizing t level index current with
  | zero => rfl
  | succ remaining ih =>
      simp only [recomputePath]
      exact ih _ _ _ _

variable (poseidon) in
/-- The caches of a tree grown from `new`: sparse keys are nodes of the
tree, and the subtree cache is that of the empty tree. -/
structure Grown (depth : ℕ) (t : LeanIMT) : Prop extends
    Sound poseidon depth t where
  keys : ∀ l i v, t.sparseCache (l, i) = some v →
    l ≤ depth ∧ i < 2 ^ (depth - l)
  levels : t.subtreeCache = (new poseidon depth).subtreeCache

variable (poseidon) in

/-- A new tree has grown from nothing. -/
theorem new_grown (depth : ℕ) :
    Grown poseidon depth (new poseidon depth) := by
  refine { new_sound poseidon depth with keys := ?_, levels := rfl }
  intro l i v h
  have hempty : (new poseidon depth).sparseCache = fun _ => none := by
    unfold new
    split
    · rfl
    · rfl
  rw [hempty] at h
  cases h

/-- A position on the path of a leaf below the capacity is in the
tree. -/
theorem div_lt_of_lt {n d l : ℕ} (hn : n < 2 ^ d) (hl : l ≤ d) :
    n / 2 ^ l < 2 ^ (d - l) := by
  rw [Nat.div_lt_iff_lt_mul (Nat.pow_pos (by omega)), ← Nat.pow_add,
    Nat.sub_add_cancel hl]
  exact hn

/-- Grown after an insertion, -/
theorem Grown.after_insert {depth : ℕ} {t : LeanIMT}
    (h : Grown poseidon depth t) (leaf : Word) :
    Grown poseidon depth (tryInsert poseidon t leaf).2 := by
  by_cases hroom : t.leaves.length < t.capacity
  · have hunfold : (tryInsert poseidon t leaf).2
        = incrementalUpdate poseidon
          { t with leaves := t.leaves ++ [leaf] } t.leaves.length := by
      unfold tryInsert
      rw [if_neg (by omega)]
    refine { h.toSound.after_insert leaf with keys := ?_, levels := ?_ }
    · intro l i v hv
      rw [hunfold] at hv
      have hsparse := @recomputePath_sparse poseidon _ t.leaves.length _ 0
        _ _ _ _ (by rw [Nat.pow_zero, Nat.div_one]; exact hv)
      have hlt : t.leaves.length < 2 ^ depth := by
        have hle := capacityOf_le depth
        rw [h.capacity_eq] at hroom
        omega
      rcases hsparse with hold | ⟨hl, rfl⟩
      · simp only [cacheSparseNode, Function.update_apply,
          Prod.mk.injEq] at hold
        split at hold
        case isTrue hk =>
          obtain ⟨rfl, rfl⟩ := hk
          exact ⟨Nat.zero_le _, hlt⟩
        case isFalse => exact h.keys l i v hold
      · have hl' : l ≤ depth := by
          rw [← h.depth_eq]
          exact Nat.zero_add t.depth ▸ hl
        exact ⟨hl', div_lt_of_lt hlt hl'⟩
    · rw [hunfold]
      exact (recomputePath_subtree _ _ _ _ _).trans h.levels
  · rw [tryInsert_full poseidon (by omega)]
    exact h

/-- and after any number. -/
theorem Grown.after_inserts {depth : ℕ} {t : LeanIMT}
    (h : Grown poseidon depth t) (ls : List Word) :
    Grown poseidon depth (inserts poseidon t ls) :=
  inserts_induction poseidon (fun _ leaf ht => ht.after_insert leaf) h ls

/-- The subtree cache of the empty tree reaches no higher than its
root. -/
theorem emptyLevels_bound {n l : ℕ} {v : Fr}
    (h : (emptyLevels poseidon n).1 l = some v) : l ≤ n := by
  induction n with
  | zero =>
      simp only [emptyLevels, Function.update_apply] at h
      split at h
      case isTrue hl => exact hl.le
      case isFalse => cases h
  | succ n ih =>
      simp only [emptyLevels, Function.update_apply] at h
      split at h
      case isTrue hl => exact hl.le
      case isFalse => exact Nat.le_succ_of_le (ih h)

/-- No subtree is above the depth. -/
theorem Grown.level_le {depth : ℕ} {t : LeanIMT}
    (h : Grown poseidon depth t) {l : ℕ} {v : Fr}
    (hv : t.subtreeCache l = some v) : l ≤ depth := by
  rw [h.levels] at hv
  unfold new at hv
  split at hv
  · cases hv
  · exact emptyLevels_bound hv

/-- The incremental tree is the plain one. From a new tree of depth
below 32, after any sequence of insertions: the leaves are the inserted
words, as many as fit; while there is room an insertion succeeds and
leaves the root of the plain tree over the longer list; at `2 ^ d` leaves
it fails and leaves the tree as it was; and every sparse entry, and every
fallback to the subtree cache, is the plain node. -/
theorem incremental_tree_is_plain (poseidon : List Fr → Fr) {d : ℕ}
    (hd : d < 32) (ls : List Word) :
    let t := inserts poseidon (new poseidon d) ls
    t.leaves = ls.take (2 ^ d)
      ∧ t.root = Word.ofFr (plainRoot poseidon d t.leaves)
      ∧ (∀ leaf, t.leaves.length < 2 ^ d →
        (tryInsert poseidon t leaf).1 = .ok ()
          ∧ (tryInsert poseidon t leaf).2.leaves = t.leaves ++ [leaf]
          ∧ (tryInsert poseidon t leaf).2.root
            = Word.ofFr (plainRoot poseidon d (t.leaves ++ [leaf])))
      ∧ (∀ leaf, t.leaves.length = 2 ^ d →
        tryInsert poseidon t leaf = (.error atCapacity, t))
      ∧ (∀ l i v, t.sparseCache (l, i) = some v →
        l ≤ d ∧ i < 2 ^ (d - l) ∧ v = plainNode poseidon t.leaves l i)
      ∧ ∀ l i v, t.sparseCache (l, i) = none → t.subtreeCache l = some v →
        l ≤ d ∧ v = plainNode poseidon t.leaves l i := by
  intro t
  have hgrown : Grown poseidon d t := (new_grown poseidon d).after_inserts ls
  have hcap : t.capacity = 2 ^ d := by
    rw [hgrown.capacity_eq]
    unfold capacityOf
    rw [if_pos hd]
  obtain ⟨hl₀, -, hc₀⟩ := new_fields poseidon d
  refine ⟨?_, ?_, ?_, ?_, ?_, ?_⟩
  · have hleaves := (new_sound poseidon d).leaves_inserts ls
    rw [hl₀, hc₀, List.nil_append, ← hgrown.capacity_eq, hcap] at hleaves
    exact hleaves
  · rw [hgrown.refines.root, hgrown.depth_eq]
  · intro leaf hroom
    exact hgrown.accepts (by omega) leaf
  · intro leaf hfull
    exact tryInsert_full poseidon (by omega) leaf
  · intro l i v hv
    obtain ⟨hl, hi⟩ := hgrown.keys l i v hv
    refine ⟨hl, hi, hgrown.refines.cache l (by rw [hgrown.depth_eq]; exact hl)
      i v ?_⟩
    unfold getCachedNode
    rw [hv]
  · intro l i v hnone hv
    have hl := hgrown.level_le hv
    refine ⟨hl, hgrown.refines.cache l (by rw [hgrown.depth_eq]; exact hl)
      i v ?_⟩
    unfold getCachedNode
    rw [hnone]
    exact hv

/-- Three words into a tree of depth 1: two stay, the next is refused. -/
theorem incremental_tree_is_plain_three :
    (inserts poseidon255 (new poseidon255 1) [5, 7, 9]).leaves = [5, 7]
      ∧ tryInsert poseidon255
          (inserts poseidon255 (new poseidon255 1) [5, 7, 9]) 11
        = (.error atCapacity,
          inserts poseidon255 (new poseidon255 1) [5, 7, 9]) := by
  have hplain := incremental_tree_is_plain poseidon255 (d := 1) (by decide)
    [5, 7, 9]
  obtain ⟨hleaves, -, -, hfull, -, -⟩ := hplain
  exact ⟨hleaves, hfull 11 (by rw [hleaves]; rfl)⟩

end Lumix.LeanIMT
