/-
The CommitmentTree contract: the leaves of the legacy vault.

It is no tree. A root is the hash of the previous root and the new leaf,
so the roots form a chain from the zero word, and every value of the
chain stays a known root. Anyone may append. What a run leaves is a
function of the leaves that were appended (`TreeInv`), and a root that is
known determines the leaves up to it, unless the hash function was
broken on the way (`known_root_binds`).
-/
import Mathlib.Logic.Function.Basic
import Lumix.Contracts.Host
import Lumix.Lib.HashChain
import Lumix.Lib.Run

namespace Lumix

open Exec Run HashChain

/-- The contract's storage. -/
structure CommitmentTree where
  admin : Option Address
  depth : Option UInt32
  paused : Option Bool
  count : Option ℕ
  latestRoot : Option Word
  leaf : ℕ → Option Word
  knownRoot : Word → Bool

namespace CommitmentTree

/-- Nothing is stored before `init`. -/
def empty : CommitmentTree where
  admin := none
  depth := none
  paused := none
  count := none
  latestRoot := none
  leaf _ := none
  knownRoot _ := false

/-- The stored admin has to sign. -/
def requireAdmin (ctx : Ctx) (t : CommitmentTree) : Except Trap Unit := do
  let admin ← orPanic .unwrapNone t.admin
  ctx.requireAuth admin

/-- A contract that was never paused is not. -/
def requireNotPaused (t : CommitmentTree) : Except Trap Unit :=
  panicIf (t.paused.getD false = true) (.panic "paused")

/-- `initialize`. -/
def init (ctx : Ctx) (admin : Address) (depth : UInt32)
    (t : CommitmentTree) : Except Trap CommitmentTree := do
  panicIf (t.admin.isSome = true) (.panic "already initialized")
  ctx.requireAuth admin
  pure { t with
    admin := some admin
    depth := some depth
    paused := some false
    count := some 0
    latestRoot := some 0
    knownRoot := Function.update t.knownRoot 0 true }

/-- The hash of two words, one after the other. -/
def hashPair (sha256 : Bytes → Word) (previous commitment : Word) : Word :=
  sha256 (previous.toBytes ++ commitment.toBytes)

/-- `get_leaf_count` -/
def getLeafCount (t : CommitmentTree) : ℕ := t.count.getD 0

/-- The leaf's index and the new root are returned. -/
def append (sha256 : Bytes → Word) (commitment : Word)
    (t : CommitmentTree) :
    Except Trap (CommitmentTree × ℕ × Word) := do
  t.requireNotPaused
  let count := t.getLeafCount
  panicIf ((t.leaf count).isSome = true) (.panic "leaf exists")
  let previous ← orPanic .unwrapNone t.latestRoot
  let newRoot := hashPair sha256 previous commitment
  let next ← u32 (count + 1)
  pure ({ t with
    leaf := Function.update t.leaf count (some commitment)
    knownRoot := Function.update t.knownRoot newRoot true
    latestRoot := some newRoot
    count := some next }, count, newRoot)

/-- `is_known_root` -/
def isKnownRoot (t : CommitmentTree) (root : Word) : Bool :=
  t.knownRoot root

/-- `get_latest_root` -/
def getLatestRoot (t : CommitmentTree) : Except Trap Word :=
  orPanic .unwrapNone t.latestRoot

/-- `get_leaf` -/
def getLeaf (t : CommitmentTree) (index : ℕ) : Except Trap Word :=
  orPanic .unwrapNone (t.leaf index)

/-- `pause`, by the admin. -/
def pause (ctx : Ctx) (t : CommitmentTree) :
    Except Trap CommitmentTree := do
  t.requireAdmin ctx
  pure { t with paused := some true }

/-- `unpause`, by the admin. -/
def unpause (ctx : Ctx) (t : CommitmentTree) :
    Except Trap CommitmentTree := do
  t.requireAdmin ctx
  pure { t with paused := some false }

/-- The entrypoints that write. -/
inductive Call
  | init (admin : Address) (depth : UInt32)
  | append (commitment : Word)
  | pause
  | unpause

/-- What a call does. -/
def exec (sha256 : Bytes → Word) (ctx : Ctx) (t : CommitmentTree) :
    Call → Except Trap CommitmentTree
  | .init admin depth => t.init ctx admin depth
  | .append commitment => Prod.fst <$> t.append sha256 commitment
  | .pause => t.pause ctx
  | .unpause => t.unpause ctx

/-- A call and who made it when. -/
structure Event where
  ctx : Ctx
  call : Call

/-- One call; it changes nothing if it traps. -/
def step (sha256 : Bytes → Word) (t : CommitmentTree) (e : Event) :
    Except Trap CommitmentTree :=
  t.exec sha256 e.ctx e.call

-- ============================================================== specs

/-- The leaf a call adds, if it adds one. -/
def Call.leaf : Call → Option Word
  | append commitment => some commitment
  | _ => none

/-- What an accepted append does. -/
theorem append_ok {sha256 : Bytes → Word} {commitment root : Word} {i : ℕ}
    {t t' : CommitmentTree}
    (h : t.append sha256 commitment = .ok (t', i, root)) :
    ∃ previous, t.latestRoot = some previous
      ∧ i = t.getLeafCount ∧ root = hashPair sha256 previous commitment
      ∧ i + 1 < 2 ^ 32
      ∧ t' = { t with
          leaf := Function.update t.leaf i (some commitment)
          knownRoot := Function.update t.knownRoot root true
          latestRoot := some root
          count := some (i + 1) } := by
  simp only [append, bind_eq_ok, panicIf_eq_ok, orPanic_eq_ok, u32_eq_ok,
    pure_eq_ok, Prod.mk.injEq] at h
  obtain ⟨-, -, -, -, previous, hprevious, next, ⟨hnext, rfl⟩, rfl, rfl,
    rfl⟩ := h
  exact ⟨previous, hprevious, rfl, rfl, hnext, rfl⟩

/-- The switch alone. -/
theorem pause_ok {ctx : Ctx} {t t' : CommitmentTree}
    (h : t.pause ctx = .ok t') : t' = { t with paused := some true } := by
  simp only [pause, bind_eq_ok, pure_eq_ok] at h
  obtain ⟨_, -, rfl⟩ := h
  rfl

/-- What an accepted `unpause` does. -/
theorem unpause_ok {ctx : Ctx} {t t' : CommitmentTree}
    (h : t.unpause ctx = .ok t') :
    t' = { t with paused := some false } := by
  simp only [unpause, bind_eq_ok, pure_eq_ok] at h
  obtain ⟨_, -, rfl⟩ := h
  rfl

-- =========================================================== the chain

variable (sha256 : Bytes → Word)

/-- The root after these leaves. -/
def root (leaves : List Word) : Word := chain (hashPair sha256) 0 leaves

/-- The storage after these leaves. -/
structure TreeInv (leaves : List Word) (t : CommitmentTree) : Prop where
  count : t.getLeafCount = leaves.length
  fits : leaves.length < 2 ^ 32
  leaf : ∀ i, t.leaf i = leaves[i]?
  before : t.admin = none → leaves = [] ∧ t.latestRoot = none
  latestRoot : t.admin.isSome = true →
    t.latestRoot = some (root sha256 leaves)
  knownRoot : ∀ r, t.knownRoot r = true
    ↔ t.admin.isSome = true
      ∧ ∃ k ≤ leaves.length, r = root sha256 (leaves.take k)

variable {sha256} {leaves : List Word} {t t' : CommitmentTree}

/-- There is nothing to begin with. -/
theorem TreeInv.empty : TreeInv sha256 [] CommitmentTree.empty where
  count := rfl
  fits := by decide
  leaf _ := rfl
  before _ := ⟨rfl, rfl⟩
  latestRoot := nofun
  knownRoot _ := ⟨nofun, fun h => by cases h.1⟩

/-- `init` adds no leaf, -/
theorem TreeInv.init (h : TreeInv sha256 leaves t) {ctx : Ctx}
    {admin : Address} {depth : UInt32}
    (hinit : t.init ctx admin depth = .ok t') :
    TreeInv sha256 leaves t' := by
  simp only [CommitmentTree.init, bind_eq_ok, panicIf_eq_ok, pure_eq_ok]
    at hinit
  obtain ⟨_, hnone, _, -, rfl⟩ := hinit
  have hadmin : t.admin = none := by simpa using hnone
  obtain ⟨rfl, -⟩ := h.before hadmin
  refine ⟨rfl, h.fits, h.leaf, fun hn => (by cases hn), fun _ => rfl,
    fun r => ?_⟩
  show Function.update t.knownRoot 0 true r = true ↔ _
  have hold : ¬t.knownRoot r = true := fun hr => by
    have hsome := ((h.knownRoot r).mp hr).1
    rw [hadmin] at hsome
    cases hsome
  by_cases hr : r = 0
  · subst hr
    rw [Function.update_self]
    exact ⟨fun _ => ⟨rfl, 0, le_refl 0, rfl⟩, fun _ => rfl⟩
  · rw [Function.update_of_ne hr]
    refine ⟨fun hk => absurd hk hold, fun hk => ?_⟩
    obtain ⟨-, k, -, hroot⟩ := hk
    rw [List.take_nil] at hroot
    exact absurd hroot hr

/-- and an append one. -/
theorem TreeInv.append (h : TreeInv sha256 leaves t) {commitment r : Word}
    {i : ℕ} (happend : t.append sha256 commitment = .ok (t', i, r)) :
    TreeInv sha256 (leaves ++ [commitment]) t'
      ∧ i = leaves.length ∧ r = root sha256 (leaves ++ [commitment]) := by
  obtain ⟨previous, hprevious, hi, hr, hlt, rfl⟩ := append_ok happend
  rw [h.count] at hi
  have hadmin : t.admin.isSome = true := by
    rw [Option.isSome_iff_ne_none]
    intro hnone
    rw [(h.before hnone).2] at hprevious
    cases hprevious
  have hroot : r = root sha256 (leaves ++ [commitment]) := by
    rw [h.latestRoot hadmin] at hprevious
    injection hprevious with hprevious
    rw [root, chain_concat, hr, ← hprevious]
    rfl
  refine ⟨⟨?_, ?_, ?_, ?_, fun _ => congrArg some hroot, ?_⟩, hi, hroot⟩
  · show i + 1 = _
    rw [List.length_append, hi]
    rfl
  · rw [List.length_append, ← hi]
    exact hlt
  · intro j
    show Function.update t.leaf i (some commitment) j = _
    by_cases hj : j = i
    · subst hj
      rw [Function.update_self, hi, List.getElem?_concat_length]
    · rw [Function.update_of_ne hj, h.leaf]
      rcases Nat.lt_or_gt_of_ne hj with hlt | hgt
      · rw [List.getElem?_append_left (hi ▸ hlt)]
      · rw [List.getElem?_eq_none (by omega),
          List.getElem?_eq_none (by simp; omega)]
  · intro hnone
    rw [show t.admin = none from hnone] at hadmin
    cases hadmin
  · intro r'
    show Function.update t.knownRoot r true r' = true ↔ _
    by_cases hr' : r' = r
    · subst hr'
      rw [Function.update_self]
      refine ⟨fun _ => ⟨hadmin, leaves.length + 1, by simp, ?_⟩,
        fun _ => rfl⟩
      rw [hroot, List.take_of_length_le (by simp)]
    · rw [Function.update_of_ne hr', h.knownRoot]
      refine and_congr_right fun _ => ⟨?_, ?_⟩
      · rintro ⟨k, hk, heq⟩
        refine ⟨k, by simp; omega, ?_⟩
        rw [List.take_append_of_le_length hk]
        exact heq
      · rintro ⟨k, hk, heq⟩
        rcases Nat.lt_or_ge leaves.length k with hgt | hle
        · rw [List.take_of_length_le (by simp; omega)] at heq
          exact absurd (heq.trans hroot.symm) hr'
        · rw [List.take_append_of_le_length hle] at heq
          exact ⟨k, hle, heq⟩

/-- A leaf is refused only when the contract is paused, was never
initialised, or is full. -/
theorem TreeInv.append_iff (h : TreeInv sha256 leaves t)
    (commitment : Word) :
    (∃ r, t.append sha256 commitment = .ok r)
      ↔ t.paused ≠ some true ∧ t.admin.isSome = true
        ∧ leaves.length + 1 < 2 ^ 32 := by
  have hfresh : ¬(t.leaf t.getLeafCount).isSome = true := by
    rw [h.count, h.leaf, List.getElem?_eq_none (le_refl _)]
    nofun
  constructor
  · rintro ⟨⟨t', i, r⟩, happend⟩
    obtain ⟨previous, hprevious, hi, -, hlt, -⟩ := append_ok happend
    refine ⟨?_, ?_, by rw [← h.count, ← hi]; exact hlt⟩
    · intro hpaused
      simp [CommitmentTree.append, requireNotPaused, hpaused, panicIf]
        at happend
    · rw [Option.isSome_iff_ne_none]
      intro hnone
      rw [(h.before hnone).2] at hprevious
      cases hprevious
  · rintro ⟨hpaused, hadmin, hlt⟩
    rw [← h.count] at hlt
    have hgo : ¬t.paused.getD false = true := by
      cases hp : t.paused with
      | none => nofun
      | some p => rw [hp] at hpaused; simpa using hpaused
    simp only [CommitmentTree.append, requireNotPaused, bind_eq_ok,
      panicIf_eq_ok, orPanic_eq_ok, u32_eq_ok, pure_eq_ok]
    exact ⟨_, (), hgo, (), hfresh, _, h.latestRoot hadmin, _, ⟨hlt, rfl⟩,
      rfl⟩

/-- What one accepted call keeps. -/
theorem TreeInv.step (h : TreeInv sha256 leaves t) {e : Event}
    (hstep : step sha256 t e = .ok t') :
    TreeInv sha256 (leaves ++ e.call.leaf.toList) t' := by
  obtain ⟨ctx, call⟩ := e
  cases call with
  | init admin depth =>
      show TreeInv sha256 (leaves ++ []) t'
      rw [List.append_nil]
      exact h.init hstep
  | append commitment =>
      simp only [CommitmentTree.step, exec, map_eq_ok] at hstep
      obtain ⟨⟨t'', i, r⟩, happend, rfl⟩ := hstep
      exact (h.append happend).1
  | pause =>
      show TreeInv sha256 (leaves ++ []) t'
      rw [List.append_nil]
      obtain rfl := pause_ok hstep
      exact ⟨h.count, h.fits, h.leaf, h.before, h.latestRoot, h.knownRoot⟩
  | unpause =>
      show TreeInv sha256 (leaves ++ []) t'
      rw [List.append_nil]
      obtain rfl := unpause_ok hstep
      exact ⟨h.count, h.fits, h.leaf, h.before, h.latestRoot, h.knownRoot⟩

-- ================================================================ runs

/-- The leaves of the accepted calls, in order. -/
def appended (h : List (Transition CommitmentTree Event)) : List Word :=
  h.filterMap fun x => x.event.call.leaf

/-- What an accepted call hashed, if it hashed anything. -/
def hashedBy (x : Transition CommitmentTree Event) : Option Bytes :=
  x.event.call.leaf.map fun commitment =>
    (x.before.latestRoot.getD 0).toBytes ++ commitment.toBytes

/-- The byte strings the accepted calls hashed. -/
def hashed (h : List (Transition CommitmentTree Event)) : List Bytes :=
  h.filterMap hashedBy

/-- A filter of a longer list. -/
theorem filterMap_concat {α β : Type} (f : α → Option β) (xs : List α)
    (x : α) : (xs ++ [x]).filterMap f = xs.filterMap f ++ (f x).toList := by
  rw [List.filterMap_append]
  cases h : f x with
  | none => rw [List.filterMap_cons_none h]; rfl
  | some y => rw [List.filterMap_cons_some h]; rfl

/-- The leaves of a longer history, -/
theorem appended_concat (h : List (Transition CommitmentTree Event))
    (x : Transition CommitmentTree Event) :
    appended (h ++ [x]) = appended h ++ x.event.call.leaf.toList :=
  filterMap_concat _ h x

/-- and what it hashed. -/
theorem hashed_concat (h : List (Transition CommitmentTree Event))
    (x : Transition CommitmentTree Event) :
    hashed (h ++ [x]) = hashed h ++ (hashedBy x).toList :=
  filterMap_concat _ h x

/-- The accepted calls, and the state they lead to. -/
abbrev history (sha256 : Bytes → Word) (es : List Event) :
    List (Transition CommitmentTree Event) :=
  accepted (CommitmentTree.step sha256) .empty es

/-- The contract after the calls. -/
abbrev after (sha256 : Bytes → Word) (es : List Event) : CommitmentTree :=
  run (CommitmentTree.step sha256) .empty es

/-- It holds after every run. -/
theorem TreeInv.run (sha256 : Bytes → Word) (es : List Event) :
    TreeInv sha256 (appended (history sha256 es)) (after sha256 es) := by
  refine history_induction
    (fun h t => TreeInv sha256 (appended h) t) TreeInv.empty ?_ es
  intro h t t' e hinv hstep
  rw [appended_concat]
  exact hinv.step hstep

/-- Two words, one after the other. -/
def pairBytes (p : Word × Word) : Bytes := p.1.toBytes ++ p.2.toBytes

/-- A pair has bytes of its own. -/
theorem pairBytes_injective : Function.Injective pairBytes := by
  intro p q h
  obtain ⟨h1, h2⟩ := List.append_inj h (by simp)
  exact Prod.ext (Word.toBytes_inj h1) (Word.toBytes_inj h2)

/-- A run hashes the pairs of its chain of leaves. -/
theorem hashed_run (sha256 : Bytes → Word) (es : List Event) :
    hashed (history sha256 es)
      = (inputs (hashPair sha256) 0 (appended (history sha256 es))).map
          pairBytes := by
  refine (history_induction
    (fun h t => TreeInv sha256 (appended h) t ∧ hashed h
      = (inputs (hashPair sha256) 0 (appended h)).map pairBytes)
    ⟨TreeInv.empty, rfl⟩ ?_ es).2
  intro h t t' e ⟨hinv, hhashed⟩ hstep
  refine ⟨by rw [appended_concat]; exact hinv.step hstep, ?_⟩
  rw [hashed_concat, appended_concat, hhashed]
  obtain ⟨ctx, call⟩ := e
  cases call with
  | append commitment =>
      simp only [CommitmentTree.step, exec, map_eq_ok] at hstep
      obtain ⟨⟨t'', i, r⟩, happend, rfl⟩ := hstep
      obtain ⟨previous, hprevious, -⟩ := append_ok happend
      have hroot : previous = root sha256 (appended h) := by
        have hsome : t.admin.isSome = true := by
          rw [Option.isSome_iff_ne_none]
          intro hnone
          rw [(hinv.before hnone).2] at hprevious
          cases hprevious
        rw [hinv.latestRoot hsome] at hprevious
        exact (Option.some.inj hprevious).symm
      show _ ++ [_] = List.map _ (inputs _ _ (_ ++ [commitment]))
      rw [inputs_concat, List.map_append]
      show _ = _ ++ [pairBytes (root sha256 (appended h), commitment)]
      rw [← hroot, hprevious]
      rfl
  | init admin depth => simp [hashedBy, Call.leaf]
  | pause => simp [hashedBy, Call.leaf]
  | unpause => simp [hashedBy, Call.leaf]

/-- After every run the readers answer from the accepted leaves: they are
numbered in order of arrival, the known roots are those of their
prefixes, and the next leaf is refused only when the contract is paused,
was never initialised, or is full. -/
theorem readers_of_run (sha256 : Bytes → Word) (es : List Event) :
    let leaves := appended (history sha256 es)
    let t := after sha256 es
    t.getLeafCount = leaves.length
      ∧ (∀ i, t.getLeaf i = orPanic .unwrapNone leaves[i]?)
      ∧ (∀ r, t.isKnownRoot r = true ↔ t.admin.isSome = true
          ∧ ∃ k ≤ leaves.length, r = root sha256 (leaves.take k))
      ∧ (t.admin.isSome = true →
          t.getLatestRoot = .ok (root sha256 leaves))
      ∧ ∀ commitment, (∃ r, t.append sha256 commitment = .ok r)
          ↔ t.paused ≠ some true ∧ t.admin.isSome = true
            ∧ leaves.length + 1 < 2 ^ 32 := by
  intro leaves t
  have h : TreeInv sha256 leaves t := TreeInv.run sha256 es
  refine ⟨h.count, fun i => by rw [getLeaf, h.leaf], h.knownRoot,
    fun hadmin => by rw [getLatestRoot, h.latestRoot hadmin]; rfl,
    fun commitment => h.append_iff commitment⟩

/-- A root known after two runs is of the same leaves in both, unless the
runs hashed two different byte strings to one word, or hashed one to the
zero word. -/
theorem known_root_binds (sha256 : Bytes → Word) (es fs : List Event)
    (r : Word) (hes : (after sha256 es).isKnownRoot r = true)
    (hfs : (after sha256 fs).isKnownRoot r = true) :
    (∃ k ≤ (appended (history sha256 es)).length,
      (appended (history sha256 es)).take k
          = (appended (history sha256 fs)).take k
        ∧ r = root sha256 ((appended (history sha256 es)).take k))
    ∨ (∃ p ∈ hashed (history sha256 es),
        ∃ q ∈ hashed (history sha256 fs), p ≠ q ∧ sha256 p = sha256 q)
    ∨ ∃ p ∈ hashed (history sha256 es) ++ hashed (history sha256 fs),
        sha256 p = 0 := by
  obtain ⟨-, k, hk, hkr⟩ := ((TreeInv.run sha256 es).knownRoot r).mp hes
  obtain ⟨-, m, hm, hmr⟩ := ((TreeInv.run sha256 fs).knownRoot r).mp hfs
  have hmem : ∀ {gs : List Event} {n : ℕ} {p : Word × Word},
      p ∈ inputs (hashPair sha256) 0
        ((appended (history sha256 gs)).take n) →
      pairBytes p ∈ hashed (history sha256 gs) := by
    intro gs n p hp
    rw [hashed_run]
    exact List.mem_map_of_mem (inputs_subset (List.take_prefix _ _) hp)
  rcases chain_binds (hkr.symm.trans hmr) with heq | ⟨p, hp, q, hq, hne, h⟩
    | ⟨p, hp, h⟩ | ⟨p, hp, h⟩
  · have hlen := congrArg List.length heq
    rw [List.length_take_of_le hk, List.length_take_of_le hm] at hlen
    subst hlen
    exact .inl ⟨k, hk, heq, hkr⟩
  · exact .inr (.inl ⟨_, hmem hp, _, hmem hq,
      pairBytes_injective.ne hne, h⟩)
  · exact .inr (.inr ⟨_, List.mem_append_left _ (hmem hp), h⟩)
  · exact .inr (.inr ⟨_, List.mem_append_right _ (hmem hp), h⟩)

/-- Two deployments, of which one was paused in between. -/
def twoLines (admin : Address) : List Event × List Event :=
  let ctx : Ctx := ⟨fun a => a = admin, 0⟩
  ([⟨ctx, .init admin 20⟩, ⟨ctx, .append 1⟩],
    [⟨ctx, .init admin 32⟩, ⟨ctx, .pause⟩, ⟨ctx, .append 2⟩,
      ⟨ctx, .unpause⟩, ⟨ctx, .append 1⟩])

/-- The digest of the zero word and the leaf 1. -/
def firstDigest : Word :=
  65565400317098774175810844854215774239220403615650211834210271600631097381733

/-- Two runs with a root in common, which is their first leaf's. -/
theorem known_root_binds_first :
    let es := (twoLines ⟨1⟩).1
    let fs := (twoLines ⟨1⟩).2
    let sha256 : Bytes → Word := fun _ => firstDigest
    (∃ k ≤ (appended (history sha256 es)).length,
      (appended (history sha256 es)).take k
          = (appended (history sha256 fs)).take k
        ∧ firstDigest = root sha256 ((appended (history sha256 es)).take k))
    ∨ (∃ p ∈ hashed (history sha256 es),
        ∃ q ∈ hashed (history sha256 fs), p ≠ q ∧ sha256 p = sha256 q)
    ∨ ∃ p ∈ hashed (history sha256 es) ++ hashed (history sha256 fs),
        sha256 p = 0 :=
  known_root_binds (fun _ => firstDigest) _ _ firstDigest (by decide)
    (by decide)

end CommitmentTree

end Lumix
