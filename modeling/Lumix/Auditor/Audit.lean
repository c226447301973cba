/-
The comparison of the root auditor.

The auditor has a list of leaves, recomputes a root over it with the
`compute-root` of the coin tools, and compares it with the root that is
stored on-chain, as normalised texts. Two conventions are accepted: a
root over all leaves in order, and a root over the latest leaf alone
(`compareRoots_eq_ok`). So unless roots collide, a root over any other
list of leaves is reported (`other_roots_reported`).
-/
import Lumix.Contracts.TreeRuns
import Lumix.Lib.Text
import Lumix.Pool.Testnet

namespace Lumix.Auditor

open Exec Text

-- ============================================================= recomputing

/-- A leaf and its index. -/
structure DepositLeaf where
  leafIndex : ℕ
  commitmentDecimal : String
  commitmentHex : String
deriving DecidableEq

/-- Where the leaves were read. -/
inductive Source
  | events
  | db
deriving DecidableEq

/-- What an audit finds. -/
inductive Status
  | OK
  | ROOT_MISMATCH_CRITICAL
deriving DecidableEq

/-- What it returns. -/
structure AuditResult where
  poolContract : String
  leafCount : ℕ
  source : Source
  recomputedRootHex : String
  onchainRootHex : String
  status : Status
  detail : String

/-- What `compute-root` prints for a list of commitments. -/
abbrev Coinutils := List String → Except String String

variable (coinutils : Coinutils)

/-- The root of the leaves; that of none is zeros. -/
def recomputeRoot (commitmentsDecimal : List String) :
    Except String String :=
  if commitmentsDecimal = [] then
    .ok ("0x" ++ String.ofList (List.replicate 64 '0'))
  else do
    let out ← coinutils commitmentsDecimal
    let n ← orPanic ("Cannot convert " ++ out ++ " to a BigInt") (bigInt out)
    pure ("0x" ++ padStart 64 (toString16 n))

-- =============================================================== comparing

/-- A leaf list in the order of its indices. -/
def inOrder (leaves : List DepositLeaf) : List DepositLeaf :=
  leaves.mergeSort fun a b => a.leafIndex ≤ b.leafIndex

/-- The commitments of the leaves, as the tree hashes them. -/
def decimals (leaves : List DepositLeaf) : List String :=
  leaves.map (·.commitmentDecimal)

/-- A root's text with its prefix, in lower case. -/
def norm (h : String) : String := (with0x h).toLower

/-- The root over the latest leaf alone, if there is one. -/
def latestOnlyRoot (ordered : List DepositLeaf) (cumulative : String) :
    Except String String :=
  match ordered.getLast? with
  | some l => (recomputeRoot coinutils [l.commitmentDecimal]).map norm
  | none => .ok cumulative

/-- `compareRoots`: the recomputed root is compared with the one on
chain. -/
def compareRoots (poolContract : String) (leaves : List DepositLeaf)
    (onchainRootHex : String) (source : Source) :
    Except String AuditResult := do
  let ordered := inOrder leaves
  let cumulative ← (recomputeRoot coinutils (decimals ordered)).map norm
  let latestOnly ← latestOnlyRoot coinutils ordered cumulative
  let onchain := norm onchainRootHex
  let convention :=
    if onchain = cumulative then "cumulative"
    else if onchain = latestOnly then "per-deposit (latest leaf)"
    else "none"
  let count := toString ordered.length
  pure {
    poolContract
    leafCount := ordered.length
    source
    recomputedRootHex := cumulative
    onchainRootHex := onchain
    status :=
      if onchain = cumulative ∨ onchain = latestOnly then .OK
      else .ROOT_MISMATCH_CRITICAL
    detail :=
      if onchain = cumulative ∨ onchain = latestOnly then
        "on-chain root matches recomputed root (" ++ convention
          ++ ") over " ++ count ++ " leaf/leaves"
      else
        "on-chain root " ++ onchain ++ " matches neither cumulative ("
          ++ cumulative ++ ") nor latest-leaf (" ++ latestOnly
          ++ ") recomputation over " ++ count ++ " leaves" }

-- ================================================================= what passes

variable {coinutils}

/-- The text is of the root that is recomputed over the commitments. -/
def IsRootOf (coinutils : Coinutils) (rootHex : String)
    (commitments : List String) : Prop :=
  ∃ h, recomputeRoot coinutils commitments = .ok h ∧ norm rootHex = norm h

/-- One root is recomputed over both lists only if they are the same. -/
def NoCollision (coinutils : Coinutils) (l l' : List String) : Prop :=
  ∀ rootHex, IsRootOf coinutils rootHex l → IsRootOf coinutils rootHex l' →
    l = l'

/-- The latest of the leaves, if there are any. -/
def latest (leaves : List DepositLeaf) : List DepositLeaf :=
  leaves.getLast?.toList

/-- Leaves whose indices ascend are in order. -/
theorem inOrder_eq {leaves all : List DepositLeaf} (hperm : all.Perm leaves)
    (hascend : all.Pairwise fun a b => a.leafIndex < b.leafIndex) :
    inOrder leaves = all := by
  have hsorted : (inOrder leaves).Pairwise fun a b =>
      decide (a.leafIndex ≤ b.leafIndex) = true := by
    apply List.pairwise_mergeSort
    · intro a b c hab hbc
      simp only [decide_eq_true_eq] at hab hbc ⊢
      omega
    · intro a b
      simp only [Bool.or_eq_true, decide_eq_true_eq]
      omega
  have hall : all.Pairwise fun a b =>
      decide (a.leafIndex ≤ b.leafIndex) = true :=
    hascend.imp fun h => decide_eq_true (Nat.le_of_lt h)
  have hindices : (all.map (·.leafIndex)).Nodup :=
    (List.pairwise_map.mpr hascend).imp Nat.ne_of_lt
  refine List.Perm.eq_of_pairwise ?_ hsorted hall
    ((List.mergeSort_perm leaves _).trans hperm.symm)
  intro a b ha hb hab hba
  simp only [decide_eq_true_eq] at hab hba
  apply List.inj_on_of_nodup_map hindices _ hb (Nat.le_antisymm hab hba)
  exact hperm.mem_iff.mpr ((List.mergeSort_perm leaves _).mem_iff.mp ha)

theorem isRootOf_iff {l : List String} {h rootHex : String}
    (hroot : (recomputeRoot coinutils l).map norm = .ok h) :
    IsRootOf coinutils rootHex l ↔ norm rootHex = h := by
  unfold IsRootOf
  cases hl : recomputeRoot coinutils l with
  | error e =>
      rw [hl] at hroot
      cases hroot
  | ok h' =>
      rw [hl] at hroot
      cases hroot
      constructor
      · rintro ⟨_, ⟨⟩, hnorm⟩
        exact hnorm
      · intro hnorm
        exact ⟨h', rfl, hnorm⟩

theorem latestOnlyRoot_eq_ok {ordered : List DepositLeaf}
    {cumulative latestOnly : String}
    (hcumulative : (recomputeRoot coinutils (decimals ordered)).map norm
      = .ok cumulative)
    (h : latestOnlyRoot coinutils ordered cumulative = .ok latestOnly) :
    (recomputeRoot coinutils (decimals (latest ordered))).map norm
      = .ok latestOnly := by
  unfold latestOnlyRoot at h
  unfold latest
  cases hlast : ordered.getLast? with
  | none =>
      rw [hlast] at h
      rw [List.getLast?_eq_none_iff.mp hlast] at hcumulative
      cases h
      exact hcumulative
  | some l =>
      rw [hlast] at h
      exact h

/-- An audit passes under one convention or the other. -/
theorem compareRoots_eq_ok {poolContract onchainRootHex : String}
    {leaves : List DepositLeaf} {source : Source} {result : AuditResult}
    (h : compareRoots coinutils poolContract leaves onchainRootHex source
      = .ok result) :
    result.status = .OK
      ↔ IsRootOf coinutils onchainRootHex (decimals (inOrder leaves))
        ∨ IsRootOf coinutils onchainRootHex
          (decimals (latest (inOrder leaves))) := by
  unfold compareRoots at h
  simp only [bind_eq_ok, pure_eq_ok] at h
  obtain ⟨cumulative, hcumulative, latestOnly, hlatest, rfl⟩ := h
  rw [isRootOf_iff hcumulative,
    isRootOf_iff (latestOnlyRoot_eq_ok hcumulative hlatest)]
  dsimp only
  split
  · exact iff_of_true rfl ‹_›
  · exact iff_of_false (by decide) ‹_›

/-- An audit is of the roots over all leaves and over the latest alone,
and a root over any other list is reported unless it collides with one
of these. -/
theorem audit_sound :
    ∀ (coinutils : Coinutils) (poolContract onchainRootHex : String)
      (leaves all : List DepositLeaf) (source : Source)
      (result : AuditResult),
    all.Perm leaves →
    (all.Pairwise fun a b => a.leafIndex < b.leafIndex) →
    compareRoots coinutils poolContract leaves onchainRootHex source
      = .ok result →
    (result.status = .OK
      ↔ IsRootOf coinutils onchainRootHex (decimals all)
        ∨ IsRootOf coinutils onchainRootHex (decimals (latest all)))
    ∧ ∀ commitments, IsRootOf coinutils onchainRootHex commitments →
      NoCollision coinutils commitments (decimals all) →
      NoCollision coinutils commitments (decimals (latest all)) →
      (result.status = .OK ↔ commitments = decimals all
        ∨ commitments = decimals (latest all)) := by
  intro coinutils poolContract onchainRootHex leaves all source result
    hperm hascend h
  have hstatus := compareRoots_eq_ok h
  rw [inOrder_eq hperm hascend] at hstatus
  refine ⟨hstatus, ?_⟩
  intro commitments hroot hall hlatest
  rw [hstatus]
  constructor
  · rintro (hcumulative | honly)
    · exact .inl (hall _ hroot hcumulative)
    · exact .inr (hlatest _ hroot honly)
  · rintro (rfl | rfl)
    · exact .inl hroot
    · exact .inr hroot

-- ============================================================ roots of words

/-- A word as a text in hexadecimal. -/
def wordHex (w : Word) : String := "0x" ++ bytesHex w.toBytes

/-- A commitment as the coin tools read it. -/
def wordDecimal (w : Word) : String := toString w.toNat

theorem norm_wordHex (w : Word) : norm (wordHex w) = wordHex w := by
  have hmarked : with0x (wordHex w) = wordHex w := by
    have htext : (wordHex w).toList
        = '0' :: 'x' :: (bytesHex w.toBytes).toList := String.toList_append
    unfold with0x hasPrefix0x
    rw [htext]
    rfl
  have hlower := congrArg String.toList (toLower_bytesHex w.toBytes)
  unfold norm
  rw [hmarked]
  apply String.toList_injective
  unfold String.toLower wordHex at *
  rw [String.toList_map] at hlower ⊢
  rw [String.toList_append, List.map_append, hlower]
  rfl

theorem wordHex_inj {v w : Word} (h : wordHex v = wordHex w) : v = w := by
  have hbytes := congrArg stripHex h
  unfold wordHex at hbytes
  rw [stripHex_append, stripHex_append] at hbytes
  exact Word.toBytes_inj (bytesHex_inj hbytes)

/-- The tools print the root of any leaves. -/
def Computes (coinutils : Coinutils) (rootOf : List Word → Word) : Prop :=
  ∀ ws, ws ≠ [] → ∃ out, coinutils (ws.map wordDecimal) = .ok out
    ∧ bigInt out = some ((rootOf ws).toNat : ℤ)

/-- The root over some leaves; no leaves have the zero word. -/
def rootOrZero (rootOf : List Word → Word) (ws : List Word) : Word :=
  if ws = [] then 0 else rootOf ws

theorem recomputeRoot_words {rootOf : List Word → Word}
    (h : Computes coinutils rootOf) (ws : List Word) :
    recomputeRoot coinutils (ws.map wordDecimal)
      = .ok (wordHex (rootOrZero rootOf ws)) := by
  unfold rootOrZero
  by_cases hnil : ws = []
  · subst hnil
    rw [if_pos rfl]
    exact congrArg Except.ok (by decide)
  · obtain ⟨out, hout, hread⟩ := h ws hnil
    have hlt : (rootOf ws).toNat < 256 ^ 32 := (rootOf ws).isLt
    unfold recomputeRoot wordHex
    rw [if_neg (by simpa using hnil), if_neg hnil, hout]
    simp only [bind_eq_ok, Except.ok.injEq, orPanic_eq_ok]
    refine ⟨out, rfl, _, hread, ?_⟩
    rw [padStart_toString16 (by decide) hlt]
    rfl

theorem isRootOf_words {rootOf : List Word → Word}
    (h : Computes coinutils rootOf) {w : Word} {ws : List Word} :
    IsRootOf coinutils (wordHex w) (ws.map wordDecimal)
      ↔ w = rootOrZero rootOf ws := by
  unfold IsRootOf
  rw [recomputeRoot_words h]
  constructor
  · rintro ⟨_, ⟨⟩, hnorm⟩
    rw [norm_wordHex, norm_wordHex] at hnorm
    exact wordHex_inj hnorm
  · rintro rfl
    exact ⟨_, rfl, rfl⟩

theorem wordDecimal_inj {v w : Word} (h : wordDecimal v = wordDecimal w) :
    v = w := by
  have hread := congrArg bigInt h
  unfold wordDecimal at hread
  rw [bigInt_toString, bigInt_toString, Option.some.injEq] at hread
  exact BitVec.eq_of_toNat_eq (Int.ofNat_inj.mp hread)

theorem noCollision_words {rootOf : List Word → Word}
    (h : Computes coinutils rootOf) {ws ws' : List Word}
    (hroots : rootOrZero rootOf ws = rootOrZero rootOf ws' → ws = ws') :
    NoCollision coinutils (ws.map wordDecimal) (ws'.map wordDecimal) := by
  rintro rootHex ⟨root, hroot, hnorm⟩ ⟨root', hroot', hnorm'⟩
  rw [recomputeRoot_words h] at hroot hroot'
  cases hroot
  cases hroot'
  rw [hnorm, norm_wordHex, norm_wordHex] at hnorm'
  rw [hroots (wordHex_inj hnorm')]

/-- The leaf of a commitment. -/
def leafOf (leafIndex : ℕ) (commitment : Word) : DepositLeaf :=
  ⟨leafIndex, wordDecimal commitment, wordHex commitment⟩

/-- An audit of commitments returns. -/
theorem compareRoots_returns {rootOf : List Word → Word}
    (h : Computes coinutils rootOf) {leaves : List DepositLeaf}
    {ws : List Word} (hleaves : decimals (inOrder leaves) = ws.map wordDecimal)
    (poolContract onchainRootHex : String) (source : Source) :
    ∃ result, compareRoots coinutils poolContract leaves onchainRootHex source
      = .ok result := by
  have hlatest : ∃ latestOnly, latestOnlyRoot coinutils (inOrder leaves)
      (norm (wordHex (rootOrZero rootOf ws))) = .ok latestOnly := by
    unfold latestOnlyRoot
    cases hlast : (inOrder leaves).getLast? with
    | none => exact ⟨_, rfl⟩
    | some l =>
        have hmem : l.commitmentDecimal ∈ decimals (inOrder leaves) :=
          List.mem_map_of_mem (List.mem_of_getLast? hlast)
        rw [hleaves] at hmem
        obtain ⟨w, -, hw⟩ := List.mem_map.mp hmem
        have hroot := recomputeRoot_words h [w]
        rw [List.map_singleton, hw] at hroot
        dsimp only
        rw [hroot]
        exact ⟨_, rfl⟩
  obtain ⟨latestOnly, hlatest⟩ := hlatest
  have hcumulative :
      (recomputeRoot coinutils (decimals (inOrder leaves))).map norm
        = .ok (norm (wordHex (rootOrZero rootOf ws))) := by
    rw [hleaves, recomputeRoot_words h]
    rfl
  unfold compareRoots
  simp only [bind_eq_ok, pure_eq_ok]
  exact ⟨_, _, hcumulative, _, hlatest, rfl⟩

-- ============================================================== two leaves

/-- The root of the contract's tree of the given depth. -/
def treeRoot (poseidon : List Fr → Fr) (depth : ℕ) (ws : List Word) : Word :=
  (LeanIMT.inserts poseidon (LeanIMT.new poseidon depth) ws).root

/-- Coin tools that compute the contract's tree. -/
def treeCoinutils (poseidon : List Fr → Fr) (depth : ℕ) : Coinutils :=
  fun commitments => do
    let ws ← commitments.mapM fun c =>
      orPanic "invalid digit" ((bigInt c).map (BitVec.ofInt 256))
    pure (toString (treeRoot poseidon depth ws).toNat)

theorem treeCoinutils_computes (poseidon : List Fr → Fr) (depth : ℕ) :
    Computes (treeCoinutils poseidon depth) (treeRoot poseidon depth) := by
  intro ws _
  refine ⟨toString (treeRoot poseidon depth ws).toNat, ?_,
    bigInt_toString _⟩
  unfold treeCoinutils
  simp only [bind_eq_ok, pure_eq_ok]
  refine ⟨ws, mapM_eq_ok.mpr ?_, rfl⟩
  rw [List.forall₂_map_left_iff, List.forall₂_same]
  intro w _
  rw [orPanic_eq_ok, wordDecimal, bigInt_toString, Option.map_some,
    BitVec.ofInt_natCast, BitVec.ofNat_toNat, BitVec.setWidth_eq]

section Runs

open Testnet

/-- The commitment deposited first. -/
def first : Word := Word.ofFr (noteU.commitment env.poseidon)

/-- The commitment deposited next. -/
def second : Word := Word.ofFr (noteX.commitment env.poseidon)

/-- Leaves for the two commitments of the tree's example. -/
def twoLeaves : List DepositLeaf := [leafOf 0 first, leafOf 1 second]

/-- The roots over both leaves and over either, evaluated. -/
theorem roots_evaluated :
    treeRoot env.poseidon 12 [first] ≠ treeRoot env.poseidon 12 [second]
      ∧ treeRoot env.poseidon 12 [first]
        ≠ treeRoot env.poseidon 12 [first, second]
      ∧ treeRoot env.poseidon 12 [second]
        ≠ treeRoot env.poseidon 12 [first, second] := by
  decide +kernel

/-- The pool's root misses the second leaf: this is reported. -/
theorem missing_leaf_reported :
    ∃ result, compareRoots (treeCoinutils env.poseidon 12) "pool" twoLeaves
        (wordHex (treeRoot env.poseidon 12 [first])) .events = .ok result
      ∧ result.status = .ROOT_MISMATCH_CRITICAL := by
  have hcomputes := treeCoinutils_computes env.poseidon 12
  have hascend : twoLeaves.Pairwise fun a b => a.leafIndex < b.leafIndex := by
    simp [twoLeaves, leafOf]
  have hdecimals : decimals twoLeaves = [first, second].map wordDecimal := rfl
  have hlatest : decimals (latest twoLeaves) = [second].map wordDecimal := rfl
  obtain ⟨hfirst, hboth, -⟩ := roots_evaluated
  obtain ⟨result, hresult⟩ := compareRoots_returns hcomputes
    ((congrArg decimals (inOrder_eq (.refl _) hascend)).trans hdecimals)
    "pool" (wordHex (treeRoot env.poseidon 12 [first])) .events
  refine ⟨result, hresult, ?_⟩
  obtain ⟨-, hother⟩ := audit_sound _ _ _ _ _ _ _ (.refl _) hascend hresult
  have hstatus := hother ([first].map wordDecimal)
  rw [hdecimals, hlatest, isRootOf_words hcomputes] at hstatus
  replace hstatus := hstatus rfl
    (noCollision_words hcomputes fun h => absurd h hboth)
    (noCollision_words hcomputes fun h => absurd h hfirst)
  cases hcase : result.status with
  | ROOT_MISMATCH_CRITICAL => rfl
  | OK =>
      rcases hstatus.mp hcase with h | h
      · cases h
      · have hsame := wordDecimal_inj (List.head_eq_of_cons_eq h)
        rw [hsame] at hfirst
        exact absurd rfl hfirst

/-- The pool's root is over the second leaf alone: this passes, although
it is not the root over both leaves. -/
theorem latest_leaf_cleared :
    (twoLeaves.map (·.leafIndex)).Nodup
      ∧ NoCollision (treeCoinutils env.poseidon 12) (decimals twoLeaves)
        (decimals (latest twoLeaves))
      ∧ ∃ result, compareRoots (treeCoinutils env.poseidon 12) "pool"
          twoLeaves (wordHex (treeRoot env.poseidon 12 [second])) .events
          = .ok result
        ∧ result.status = .OK
        ∧ ¬IsRootOf (treeCoinutils env.poseidon 12)
          (wordHex (treeRoot env.poseidon 12 [second]))
          (decimals (inOrder twoLeaves)) := by
  have hcomputes := treeCoinutils_computes env.poseidon 12
  have hascend : twoLeaves.Pairwise fun a b => a.leafIndex < b.leafIndex := by
    simp [twoLeaves, leafOf]
  have horder := inOrder_eq (.refl twoLeaves) hascend
  have hdecimals : decimals (inOrder twoLeaves)
      = [first, second].map wordDecimal := congrArg decimals horder
  obtain ⟨-, -, hboth⟩ := roots_evaluated
  obtain ⟨result, hresult⟩ := compareRoots_returns hcomputes hdecimals
    "pool" (wordHex (treeRoot env.poseidon 12 [second])) .events
  refine ⟨by decide, ?_, result, hresult, ?_, ?_⟩
  · exact @noCollision_words _ _ hcomputes [first, second] [second]
      fun h => absurd h.symm hboth
  · rw [compareRoots_eq_ok hresult, horder]
    exact .inr ((@isRootOf_words _ _ hcomputes _ [second]).mpr rfl)
  · rw [hdecimals, isRootOf_words hcomputes]
    exact hboth

end Runs

end Lumix.Auditor
