/-
Root integrity over whole runs. The pool keeps its tree three times
over: a leaf list, a counter, and a set of known roots. Four entrypoints
write them, two of which append twice and record the root in between,
and a caller-supplied root is compared only after the writes, so a
mismatch has to undo them.

`step_tree` says what any accepted event does to the three: it appends
the commitments the event carries (`Event.commitments`) and records the
root after each. `RootInv` ties the three together from there, and
`root_integrity` reads the tie off: the known roots are the zero word
and the roots of the non-empty prefixes of the leaf list, whatever roots
callers named.
-/
import Lumix.Contracts.TreeRuns
import Lumix.Pool.Testnet

namespace Lumix

open Exec Run LeanIMT

variable {L : Type} [TokenHost L]

-- ======================================================== commitments

/-- The commitments a call inserts if it is accepted, in order. -/
def Call.commitments (c : Call) : List Word :=
  match c with
  | .receiveCctpDeposit a => [a.commitment]
  | .privateTransferSettle _ => [c.signal 1]
  | .mpcSettle a | .mpcSettlePriced a =>
      [a.outputCommitmentA, a.outputCommitmentB]
  | .withdraw _ | .withdrawCctp _ | .rfqSettle _ | .rfqSettleAtomicSwap _
  | .registerAsset _ _ | .admin _ => []

/-- The commitments a call of the pool appends. -/
def Event.commitments : Event L → List Word
  | pool _ c _ => c.commitments
  | registry _ _ | tokens _ _ => []

theorem Call.effect_leaves (env : Env) (ctx : Ctx) (p : Pool) (c : Call) :
    (c.effect env ctx p).leaves = c.commitments := by
  cases c <;> rfl

-- ============================================================ one step

/-- An accepted event appends its commitments and records the root after
each; configuration, registry and token events append nothing. -/
theorem step_tree {env : Env} {w w' : World L} {e : Event L}
    (h : step env w e = .ok w') :
    w'.pool.treeLeaves = w.pool.treeLeaves ++ e.commitments
      ∧ Grows env w.pool w'.pool e.commitments := by
  cases step_ok h with
  | @settled ctx c x _ hc hadm happ =>
      show w'.pool.treeLeaves = w.pool.treeLeaves ++ c.commitments
        ∧ Grows env w.pool w'.pool c.commitments
      rw [← c.effect_leaves env ctx w.pool]
      exact ⟨happ.leaves, happ.tree⟩
  | registered asset token hnew =>
      exact ⟨(List.append_nil _).symm, Grows.none rfl rfl rfl⟩
  | configured a =>
      cases a <;> exact ⟨(List.append_nil _).symm, Grows.none rfl rfl rfl⟩
  | registry hreg => exact ⟨(List.append_nil _).symm, Grows.none rfl rfl rfl⟩
  | tokens ledger => exact ⟨(List.append_nil _).symm, Grows.none rfl rfl rfl⟩

/-- A known root stays known. -/
theorem step_known_mono {env : Env} {w w' : World L} {e : Event L}
    (h : step env w e = .ok w') {x : Word}
    (hx : w.pool.knownRoot x = true) : w'.pool.knownRoot x = true :=
  ((step_tree h).2.known x).mpr (Or.inl hx)

-- ============================================================== runs

/-- The three copies of the tree agree: the leaves are the commitments
of the history, the counter counts them, they fit, the known roots are
zero and the roots of the non-empty prefixes, and the stored root is
that of the leaves once there are any. -/
structure RootInv (env : Env) (depth : ℕ)
    (h : List (Transition (World L) (Event L))) (w : World L) : Prop where
  depth_eq : w.pool.treeDepth.toNat = depth
  leaves : w.pool.treeLeaves = h.flatMap fun t => t.event.commitments
  count : w.pool.leafCount = w.pool.treeLeaves.length
  room : w.pool.treeLeaves.length ≤ capacityOf depth
  known : ∀ x, w.pool.knownRoot x = true ↔ x = 0
    ∨ ∃ k, 0 < k ∧ k ≤ w.pool.treeLeaves.length
      ∧ x = Word.ofFr (plainRoot env.poseidon depth
        (w.pool.treeLeaves.take k))
  stored : w.pool.treeRoot = if w.pool.treeLeaves = [] then 0
    else Word.ofFr (plainRoot env.poseidon depth w.pool.treeLeaves)

omit [TokenHost L] in
theorem RootInv.init {env : Env} {w₀ : World L} (h₀ : w₀.Constructed) :
    RootInv env w₀.pool.treeDepth.toNat [] w₀ := by
  obtain ⟨_, _, _, _, depth, _, _, hw₀⟩ := h₀
  have hleaves : w₀.pool.treeLeaves = [] := by rw [hw₀]; rfl
  have hstored : w₀.pool.treeRoot = 0 := by rw [hw₀]; rfl
  refine ⟨rfl, hleaves, by rw [hw₀]; rfl, by rw [hleaves]; simp, ?_,
    by rw [hstored, if_pos hleaves]⟩
  intro x
  have hknown : w₀.pool.knownRoot x = true ↔ x = 0 := by
    by_cases hx : x = 0
    · rw [hw₀, hx]
      simp [Pool.construct]
    · rw [hw₀, Pool.construct_knownRoot hx]
      exact iff_of_false Bool.false_ne_true hx
  rw [hknown]
  refine ⟨Or.inl, ?_⟩
  rintro (hx | ⟨k, hpos, hle, -⟩)
  · exact hx
  · rw [hleaves] at hle
    exact absurd hpos (by simpa using hle)

theorem RootInv.step {env : Env} {depth : ℕ}
    {h : List (Transition (World L) (Event L))} {w w' : World L}
    {e : Event L} (hinv : RootInv env depth h w)
    (hstep : step env w e = .ok w') :
    RootInv env depth (h ++ [⟨w, e, w'⟩]) w' := by
  obtain ⟨hleaves, htree⟩ := step_tree hstep
  obtain ⟨-, -, hdepth⟩ := step_domain hstep
  have hlength : w'.pool.treeLeaves.length
      = w.pool.treeLeaves.length + e.commitments.length := by
    rw [hleaves, List.length_append]
  refine ⟨?_, ?_, ?_, ?_, ?_, ?_⟩
  · rw [hdepth]
    exact hinv.depth_eq
  · rw [hleaves, hinv.leaves, List.flatMap_append, List.flatMap_singleton]
  · rw [htree.count, hinv.count, hlength]
  · by_cases hnil : e.commitments = []
    · rw [hlength, hnil]
      exact hinv.room
    · have hroom := htree.room hnil
      rwa [hinv.depth_eq, ← hleaves] at hroom
  · -- prefixes up to the old length are the old ones, those past it are
    -- the stages of this event
    intro x
    rw [htree.known, hinv.known, or_assoc, hinv.depth_eq, ← hleaves]
    refine or_congr_right ?_
    constructor
    · rintro (⟨k, hpos, hle, rfl⟩ | ⟨k, hlt, hle, rfl⟩)
      · refine ⟨k, hpos, by omega, ?_⟩
        rw [hleaves, List.take_append_of_le_length hle]
      · exact ⟨k, by omega, by omega, rfl⟩
    · rintro ⟨k, hpos, hle, rfl⟩
      by_cases hold : k ≤ w.pool.treeLeaves.length
      · refine Or.inl ⟨k, hpos, hold, ?_⟩
        rw [hleaves, List.take_append_of_le_length hold]
      · exact Or.inr ⟨k, by omega, by omega, rfl⟩
  · rw [htree.stored, hinv.depth_eq, ← hleaves]
    by_cases hnil : e.commitments = []
    · rw [if_pos hnil, hinv.stored, hleaves, hnil, List.append_nil]
    · have hne : w'.pool.treeLeaves ≠ [] := by
        rw [hleaves]
        exact List.append_ne_nil_of_right_ne_nil _ hnil
      rw [if_neg hnil, if_neg hne]

theorem RootInv.run {env : Env} {w₀ : World L} (h₀ : w₀.Constructed)
    (es : List (Event L)) :
    RootInv env w₀.pool.treeDepth.toNat
      (accepted (Lumix.step env) w₀ es) (Run.run (Lumix.step env) w₀ es) :=
  history_induction (RootInv env w₀.pool.treeDepth.toNat) (RootInv.init h₀)
    (fun _ _ _ _ hinv hstep => hinv.step hstep) es

/-- The root the tree itself stores over a list that fits. -/
theorem root_inserts_new (poseidon : List Fr → Fr) {depth : ℕ}
    {ls : List Word} (hroom : ls.length ≤ capacityOf depth) :
    (inserts poseidon (new poseidon depth) ls).root
      = Word.ofFr (plainRoot poseidon depth ls) := by
  obtain ⟨hl, -, hc⟩ := new_fields poseidon depth
  have hsound := (new_sound poseidon depth).after_inserts ls
  have hleaves := (new_sound poseidon depth).leaves_inserts ls
  rw [hl, hc, List.nil_append, List.take_of_length_le hroom] at hleaves
  rw [hsound.refines.root, hsound.depth_eq, hleaves]

/-- Root integrity. In every state a run from the constructor reaches,
at any depth below 32: the counter is the number of leaves and at most
`2 ^ depth`, the leaves are in order the commitments of the accepted
deposits, transfers and committee settlements, a root is known exactly
if it is zero or the root of a non-empty prefix of the leaves, and it
stays known. -/
theorem root_integrity {env : Env} {w₀ : World L} (h₀ : w₀.Constructed)
    (_hd : w₀.pool.treeDepth.toNat < 32) (es : List (Event L)) :
    let w := run (step env) w₀ es
    w.pool.leafCount = w.pool.treeLeaves.length
      ∧ w.pool.leafCount ≤ 2 ^ w₀.pool.treeDepth.toNat
      ∧ w.pool.treeLeaves = (accepted (step env) w₀ es).flatMap
        (fun t => t.event.commitments)
      ∧ (∀ x, w.pool.knownRoot x = true ↔ x = 0
        ∨ ∃ k, 0 < k ∧ k ≤ w.pool.treeLeaves.length
          ∧ x = (inserts env.poseidon
            (new env.poseidon w₀.pool.treeDepth.toNat)
            (w.pool.treeLeaves.take k)).root)
      ∧ ∀ fs x, w.pool.knownRoot x = true →
        (run (step env) w₀ (es ++ fs)).pool.knownRoot x = true := by
  intro w
  have hinv : RootInv env w₀.pool.treeDepth.toNat
      (accepted (step env) w₀ es) w := RootInv.run h₀ es
  refine ⟨hinv.count, ?_, hinv.leaves, ?_, ?_⟩
  · rw [hinv.count]
    exact hinv.room.trans (capacityOf_le _)
  · intro x
    rw [hinv.known]
    refine or_congr_right (exists_congr fun k => and_congr_right fun _ =>
      and_congr_right fun hle => ?_)
    rw [root_inserts_new env.poseidon]
    rw [List.length_take]
    exact (Nat.min_le_right _ _).trans hinv.room
  · intro fs x hx
    rw [run_append]
    refine run_induction
      (fun w : World L => w.pool.knownRoot x = true) hx ?_ fs
    intro w₁ w₂ e hknown hstep
    exact step_known_mono hstep hknown

-- ======================================================== stored root

/-- `get_root`. -/
def Pool.getRoot (p : Pool) : Word := p.treeRoot

/-- The plain root over no leaves is the padding node of its height. -/
theorem plainRoot_nil (poseidon : List Fr → Fr) (depth : ℕ) :
    plainRoot poseidon depth []
      = Merkle.padNode (hashPair poseidon) 0 depth :=
  plainNode_eq_padNode poseidon (Nat.zero_le _)

theorem ofFr_eq_zero {x : Fr} : Word.ofFr x = 0 ↔ x = 0 := by
  constructor
  · intro hx
    rw [← Word.toFr_ofFr x, hx]
    rfl
  · rintro rfl
    rfl

/-- In every state a run from the constructor reaches, at any depth, the
stored root is the root the library computes over the stored leaves
exactly when there is a leaf, or when hashing zero with itself `depth`
times happens to end at zero. -/
theorem get_root_iff {env : Env} {w₀ : World L} (h₀ : w₀.Constructed)
    (es : List (Event L)) :
    let p := (run (step env) w₀ es).pool
    p.getRoot = (inserts env.poseidon
        (new env.poseidon w₀.pool.treeDepth.toNat) p.treeLeaves).root
      ↔ p.treeLeaves ≠ []
        ∨ Merkle.padNode (hashPair env.poseidon) 0
          w₀.pool.treeDepth.toNat = 0 := by
  intro p
  have hinv : RootInv env w₀.pool.treeDepth.toNat
      (accepted (step env) w₀ es) (run (step env) w₀ es) := RootInv.run h₀ es
  rw [root_inserts_new env.poseidon hinv.room]
  unfold Pool.getRoot
  rw [hinv.stored]
  by_cases hnil : p.treeLeaves = []
  · rw [if_pos hnil, hnil, plainRoot_nil, eq_comm, ofFr_eq_zero]
    exact (or_iff_right (not_not.mpr rfl)).symm
  · rw [if_neg hnil]
    exact iff_of_true rfl (Or.inl hnil)

section Runs

open Testnet

/-- In the testnet run of a deposit and a withdrawal one leaf is
counted, and the root after the deposit is known. -/
theorem root_integrity_withdrawal :
    (run (step env) (genesis 100 0) withdrawRun).pool.leafCount = 1
      ∧ (run (step env) (genesis 100 0) withdrawRun).pool.knownRoot
        (inserts env.poseidon (new env.poseidon 12)
          [Word.ofFr (noteU.commitment env.poseidon)]).root = true := by
  obtain ⟨hcount, -, -, hknown, -⟩ := root_integrity
    (genesis_constructed 100 0) (by decide) withdrawRun
  obtain ⟨hleaves, -⟩ := runs_evaluated withdrawRun (.tail _ (.head _))
  rw [hleaves] at hcount hknown
  exact ⟨hcount, (hknown _).mpr (Or.inr ⟨1, by decide, by decide, rfl⟩)⟩

/-- The run has a leaf, and `get_root` is the root over it. -/
theorem get_root_withdrawal :
    (run (step env) (genesis 100 0) withdrawRun).pool.getRoot
      = (inserts env.poseidon (new env.poseidon 12)
        (run (step env) (genesis 100 0) withdrawRun).pool.treeLeaves).root := by
  obtain ⟨hleaves, -⟩ := runs_evaluated withdrawRun (.tail _ (.head _))
  refine (get_root_iff (genesis_constructed 100 0) withdrawRun).mpr ?_
  rw [hleaves]
  exact Or.inl (List.cons_ne_nil _ _)

/-- Right after the constructor `get_root` is not the root of the empty
tree of depth 12. -/
theorem get_root_constructed :
    (genesis 0 0).Constructed ∧ (genesis 0 0).pool.treeLeaves = []
      ∧ (genesis 0 0).pool.getRoot
        ≠ (inserts env.poseidon (new env.poseidon 12) []).root :=
  ⟨genesis_constructed 0 0, rfl, by decide +kernel⟩

end Runs

end Lumix
