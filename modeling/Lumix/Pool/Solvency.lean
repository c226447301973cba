/-
Solvency of the shielded set.

`note_supply` is a public number per asset; what it has to cover is
hidden, the values of the notes in the tree that are not spent yet.
`shielded_solvent` relates the two over whole runs without committee
settlements: on well-formed signals the unspent value of an asset never
exceeds its supply.

The argument is one invariant (`Solvent`) over the tree, the registry
and the supply together. Its heart is `opens_leaf`: where the hashed
inputs do not collide and nothing hashes to zero, an opening against a
known root opens a note the tree really holds. So a spend takes its
note's value out of the tally before anything is paid or minted for it,
and each entrypoint is left to compare two numbers of one note.
-/
import Lumix.Lib.Tally
import Lumix.Pool.DoubleSpend
import Lumix.Pool.Underflow

namespace Lumix

open Exec Run Tally

variable {L : Type} [TokenHost L]

-- ================================================= well-formed signals

/-- The words a call narrows to `i128` and acts on. (A deposit also
narrows its burn hash, only to see that it is not zero.) -/
def Call.narrowedAt : Call → List ℕ
  | receiveCctpDeposit _ => [1, 2, 3, 6, 7, 12, 13]
  | withdraw _ | rfqSettle _ | rfqSettleAtomicSwap _ =>
      [1, 2, 4, 5, 8, 9]
  | withdrawCctp _ => [1, 2, 5, 8, 9, 13, 15, 16]
  | privateTransferSettle _ => [5, 6]
  | mpcSettle _ => [7, 8, 10]
  | mpcSettlePriced _ => [7, 8, 9, 14, 15]
  | registerAsset _ _ | admin _ => []

/-- The signals are canonical, and those that are read as amounts fit in
half a word. -/
structure Call.WellFormed (c : Call) : Prop where
  canonical : ∀ w ∈ c.signals, w.Canonical
  narrow : ∀ i ∈ c.narrowedAt, (c.signal i).high = 0

instance (c : Call) : Decidable c.WellFormed :=
  -- over the list, not over all words
  have : Decidable (∀ w ∈ c.signals, w.Canonical) :=
    List.decidableBAll _ c.signals
  decidable_of_iff ((∀ w ∈ c.signals, w.Canonical)
      ∧ ∀ i ∈ c.narrowedAt, (c.signal i).high = 0)
    ⟨fun h => ⟨h.1, h.2⟩, fun h => ⟨h.canonical, h.narrow⟩⟩

/-- The calls a committee settles with. -/
def Call.ByCommittee : Call → Prop
  | mpcSettle _ | mpcSettlePriced _ => True
  | _ => False

instance : (c : Call) → Decidable c.ByCommittee
  | .mpcSettle _ | .mpcSettlePriced _ => isTrue trivial
  | .receiveCctpDeposit _ | .withdraw _ | .withdrawCctp _ | .rfqSettle _
  | .rfqSettleAtomicSwap _ | .privateTransferSettle _
  | .registerAsset _ _ | .admin _ => isFalse id

/-- An event outside committee settlement, its signals well formed. -/
def Event.Shielded : Event L → Prop
  | pool _ c _ => ¬c.ByCommittee ∧ c.WellFormed
  | registry _ _ | tokens _ _ => True

instance : (e : Event L) → Decidable e.Shielded
  | .pool _ c _ => inferInstanceAs (Decidable (¬c.ByCommittee ∧ _))
  | .registry _ _ => isTrue trivial
  | .tokens _ _ => isTrue trivial

theorem Call.WellFormed.signal {c : Call} (h : c.WellFormed) (i : ℕ) :
    (c.signal i).Canonical := by
  unfold Call.signal sigAt
  cases hi : c.signals[i]? with
  | none => exact Word.canonical_of_high_zero rfl
  | some w => exact h.canonical w (List.mem_of_getElem? hi)

theorem Call.WellFormed.spendsCanonically {c : Call} (h : c.WellFormed) :
    c.SpendsCanonically := by
  refine ⟨fun i _ => h.signal i, fun hne => ?_⟩
  cases c with
  | receiveCctpDeposit a => exact absurd rfl hne
  | registerAsset asset token => exact absurd rfl hne
  | admin a => exact absurd rfl hne
  | _ =>
      exact ⟨h.narrow _ (by simp [Call.narrowedAt, Call.domainAt]),
        h.narrow _ (by simp [Call.narrowedAt, Call.domainAt])⟩

-- ============================================================== tallies

/-- A note of the asset whose word is not in the registry. -/
def Unspent (H : List Fr → Fr) (w : World L) (asset : Word) (n : Note) :
    Prop :=
  Word.ofFr n.assetId = asset
    ∧ w.registry.spent (nullifierWord H w.pool n) = false

instance (H : List Fr → Fr) (w : World L) (asset : Word) :
    DecidablePred (Unspent H w asset) := fun _ =>
  inferInstanceAs (Decidable (_ ∧ _))

/-- The value of an asset's unspent notes. -/
def outstanding (H : List Fr → Fr) (w : World L) (notes : List Note)
    (asset : Word) : ℕ :=
  tally (fun n => n.value.val) (Unspent H w asset) notes

/-- The leaves of the tree over the given notes. -/
def leafWords (H : List Fr → Fr) (notes : List Note) : List Word :=
  notes.map fun n => Word.ofFr (n.commitment H)

-- ============================================================== binding

/-- No collision and no zero among the given inputs. -/
structure CollisionFree (H : List Fr → Fr) (S : Set (List Fr)) : Prop where
  inj : Set.InjOn H S
  ne_zero : ∀ x ∈ S, H x ≠ 0

section Binding

variable {H : List Fr → Fr} {S : Set (List Fr)} {notes : List Note}
  {depth k : ℕ}

/-- A leaf of a stage of the tree is padding or one of its notes. -/
theorem leafScalar_cases (H : List Fr → Fr) (notes : List Note) (k i : ℕ) :
    LeanIMT.leafScalar ((leafWords H notes).take k) i = 0
      ∨ ∃ m ∈ notes, LeanIMT.leafScalar ((leafWords H notes).take k) i
        = m.commitment H := by
  unfold LeanIMT.leafScalar
  cases hi : ((leafWords H notes).take k)[i]? with
  | none => exact Or.inl rfl
  | some w =>
      have hw := List.mem_of_mem_take (List.mem_of_getElem? hi)
      obtain ⟨m, hm, rfl⟩ := List.mem_map.mp hw
      exact Or.inr ⟨m, hm, Word.toFr_ofFr _⟩

/-- A note's commitment is no inner node: its first child would be the
three-input hash of the note, which is no leaf and no two-input hash. -/
theorem level_of_commitment (hS : CollisionFree H S)
    (htree : ∀ y ∈ treeInputs H depth ((leafWords H notes).take k), y ∈ S)
    (hnotes : ∀ m ∈ notes, ∀ y ∈ m.hashInputs H, y ∈ S) {n : Note}
    (hn : ∀ y ∈ n.hashInputs H, y ∈ S) {l i : ℕ} (hl : l ≤ depth)
    (h : n.commitment H
      = LeanIMT.plainNode H ((leafWords H notes).take k) l i) : l = 0 := by
  cases l with
  | zero => rfl
  | succ l =>
      exfalso
      have htop := hS.inj (hn _ (by simp [Note.hashInputs]))
        (htree _ ⟨l, by omega, i, rfl⟩) h
      injection htop with hchild _
      have h3 : [n.assetId, n.value, n.label] ∈ S :=
        hn _ (by simp [Note.hashInputs])
      cases l with
      | zero =>
          rcases leafScalar_cases H notes k (2 * i) with hzero | ⟨m, hm, hleaf⟩
          · exact hS.ne_zero _ h3 (hchild.trans hzero)
          · have hpair := hS.inj h3 (hnotes m hm _ (by simp [Note.hashInputs]))
              (hchild.trans hleaf)
            simp at hpair
      | succ l =>
          have hpair := hS.inj h3 (htree _ ⟨l, by omega, 2 * i, rfl⟩) hchild
          simp at hpair

/-- Openings bind: against a stage of the tree, a note is opened only if
the tree holds it. -/
theorem opens_leaf (hS : CollisionFree H S)
    (htree : ∀ y ∈ treeInputs H depth ((leafWords H notes).take k), y ∈ S)
    (hnotes : ∀ m ∈ notes, ∀ y ∈ m.hashInputs H, y ∈ S) {n : Note}
    (hn : ∀ y ∈ n.hashInputs H, y ∈ S) {o : Opening}
    (ho : ∀ y ∈ o.hashInputs H (n.commitment H), y ∈ S) {treeDepth : ℕ}
    (hdepth : treeDepth ≤ depth)
    (hproof : MerkleProof H treeDepth (n.commitment H) o
      (LeanIMT.plainRoot H depth ((leafWords H notes).take k))) :
    n ∈ notes := by
  have hlen := hproof.length_path
  -- the opening starts from a node `depth - treeDepth` levels up
  have hstart := Merkle.climb_binds
    (S := { p : Fr × Fr | [p.1, p.2] ∈ S }) (h := Opening.hash2 H)
    (f := LeanIMT.leafScalar ((leafWords H notes).take k)) (d := depth)
    (l := depth - treeDepth) (j := 0)
    (fun p hp q hq heq => by
      have hpq := hS.inj hp hq heq
      injection hpq with h1 h2
      injection h2 with h2 _
      exact Prod.ext h1 h2)
    (fun l hl i => htree _ ⟨l, hl, i, rfl⟩) o.path (by omega)
    (fun p hp => ho _ (List.mem_map.mpr ⟨p, hp, rfl⟩))
    (by
      rw [hlen, Nat.sub_add_cancel hdepth]
      exact hproof.2.2)
  have hlevel := level_of_commitment hS htree hnotes hn (Nat.sub_le _ _)
    hstart
  rw [hlevel] at hstart
  rcases leafScalar_cases H notes k
    (Digits.bitsVal (o.path.map Prod.fst) + 0 * 2 ^ o.path.length)
    with hzero | ⟨m, hm, hleaf⟩
  · exact absurd (hstart.trans hzero)
      (hS.ne_zero _ (hn _ (by simp [Note.hashInputs])))
  · have heq := Note.eq_of_commitment_eq hS.inj hn (hnotes m hm)
      (hstart.trans hleaf)
    rw [heq]
    exact hm

/-- No opening of a note ends in zero. -/
theorem root_ne_zero (hS : CollisionFree H S) {n : Note}
    (hn : ∀ y ∈ n.hashInputs H, y ∈ S) {o : Opening}
    (ho : ∀ y ∈ o.hashInputs H (n.commitment H), y ∈ S) {treeDepth : ℕ}
    {root : Fr} (hproof : MerkleProof H treeDepth (n.commitment H) o root) :
    root ≠ 0 := by
  obtain ⟨-, -, rfl⟩ := hproof
  by_cases hne : o.path = []
  · rw [hne]
    exact hS.ne_zero _ (hn _ (by simp [Note.hashInputs]))
  · obtain ⟨p, hp, heq⟩ := Merkle.climb_eq_hash (h := Opening.hash2 H)
      (x := n.commitment H) hne
    rw [heq]
    exact hS.ne_zero _ (ho _ (List.mem_map.mpr ⟨p, hp, rfl⟩))

end Binding

-- ============================================================ the invariant

/-- What a run on well-formed signals keeps: the domain and depth of the
constructed pool, the leaves are the commitments of the created notes,
a known root is the constructor's zero word or the root of a stage of
the tree, an unregistered asset has no supply, and the supply of every
asset covers its unspent notes. -/
structure Solvent (H : List Fr → Fr) (w₀ : World L)
    (h : List (Transition (World L) (Event L))) (w : World L) : Prop where
  poolId : w.pool.poolId = w₀.pool.poolId
  chainId : w.pool.chainId = w₀.pool.chainId
  treeDepth : w.pool.treeDepth = w₀.pool.treeDepth
  leaves : w.pool.treeLeaves = leafWords H (createdNotes h)
  roots : ∀ x, w.pool.knownRoot x = true → x = 0
    ∨ ∃ k, 0 < k ∧ k ≤ w.pool.treeLeaves.length
      ∧ x = Word.ofFr (LeanIMT.plainRoot H w₀.pool.treeDepth.toNat
        (w.pool.treeLeaves.take k))
  unregistered : ∀ asset, w.pool.assetToken asset = none →
    w.pool.noteSupply asset = 0
  backed : ∀ asset, (outstanding H w (createdNotes h) asset : ℤ)
    ≤ w.pool.noteSupply asset

/-- What is assumed of one accepted transition of such a run, with `S`
the inputs hashed in the whole run and `final` the leaves it ends with. -/
structure Sound (H : List Fr → Fr) (treeDepth associationDepth : ℕ)
    (S : Set (List Fr)) (final : List Word)
    (t : Transition (World L) (Event L)) : Prop where
  proven : t.event.Proven H treeDepth associationDepth
  shielded : t.event.Shielded
  hashed : ∀ y ∈ t.event.hashInputs H, y ∈ S
  leaves : t.after.pool.treeLeaves <+: final

/-- The leaves a call on canonical signals appends are the commitments of
the notes its assignment creates. -/
theorem leaves_eq {H : List Fr → Fr} {treeDepth associationDepth : ℕ}
    {env : Env} {p : Pool} {c : Call} {x : Witness}
    (hp : Proven H treeDepth associationDepth c x)
    (hadm : c.Admitted env p) (hw : c.WellFormed) (ctx : Ctx) :
    (c.effect env ctx p).leaves = leafWords H x.created := by
  have hcircuit := hp.circuit
  have hsat := hp.satisfied
  -- a canonical commitment word is the word of the note's commitment
  have hword : ∀ {i : ℕ} {n : Note},
      x.publicSignals[i]? = some (n.commitment H) →
      c.signal i = Word.ofFr (n.commitment H) := fun hi =>
    Word.eq_ofFr_of_canonical (hw.signal _) (hp.toFr_signal hadm hi)
  cases c with
  | receiveCctpDeposit a =>
      cases x with
      | deposit y =>
          obtain ⟨h0, -⟩ := hadm.amounts
          refine congrArg (· :: []) ?_
          rw [← h0]
          exact hword (congrArg some hsat.commitment)
      | _ => exact hcircuit.elim
  | privateTransferSettle a =>
      cases x with
      | transfer y =>
          exact congrArg (· :: [])
            (hword (congrArg some hsat.outputCommitment))
      | _ => exact hcircuit.elim
  | mpcSettle a =>
      cases x with
      | mpc y =>
          obtain ⟨-, -, h2, h3⟩ := hadm.amounts
          refine congrArg₂ (fun m n => [m, n]) ?_ ?_
          · rw [← h2]
            exact hword (congrArg some hsat.outCmtA)
          · rw [← h3]
            exact hword (congrArg some hsat.outCmtB)
      | _ => exact hcircuit.elim
  | mpcSettlePriced a =>
      cases x with
      | priced y =>
          obtain ⟨-, -, h2, h3⟩ := hadm.amounts
          refine congrArg₂ (fun m n => [m, n]) ?_ ?_
          · rw [← h2]
            exact hword (congrArg some hsat.outCmtA)
          · rw [← h3]
            exact hword (congrArg some hsat.outCmtB)
      | _ => exact hcircuit.elim
  | withdraw a | withdrawCctp a | rfqSettle a | rfqSettleAtomicSwap a =>
      cases x with
      | withdraw y => rfl
      | _ => exact hcircuit.elim
  | registerAsset asset token =>
      cases x with
      | none => rfl
      | _ => exact hcircuit.elim
  | admin a =>
      cases x with
      | none => rfl
      | _ => exact hcircuit.elim

-- ============================================================== accounts

/-- What a note counts for in an asset. -/
def Note.worth (n : Note) (asset : Word) : ℕ :=
  if Word.ofFr n.assetId = asset then n.value.val else 0

/-- The change of an asset's supply under an effect. -/
def supplyDelta (asset : Word) : Option (Word × ℤ) → ℤ
  | none => 0
  | some (moved, delta) => if asset = moved then delta else 0

theorem SupplyMoves.eq {env : Env} {w w' : World L}
    {o : Option (Word × ℤ)} (h : SupplyMoves env w w' o) (asset : Word) :
    w'.pool.noteSupply asset
      = w.pool.noteSupply asset + supplyDelta asset o := by
  cases o with
  | none =>
      have hsame : w'.pool.noteSupply = w.pool.noteSupply := h
      rw [hsame]
      exact (add_zero _).symm
  | some move =>
      obtain ⟨moved, delta⟩ := move
      obtain ⟨-, -, hnext⟩ := h
      rw [hnext]
      simp only [supplyDelta]
      by_cases ha : asset = moved
      · rw [if_pos ha, ha, Function.update_self]
      · rw [if_neg ha, Function.update_of_ne ha, add_zero]

section Accounts

omit [TokenHost L]

variable {H : List Fr → Fr} {w w' : World L} {asset : Word}
  {notes : List Note}

/-- Nothing becomes unspent when the registry grows. -/
theorem Unspent.of_grown
    (hword : nullifierWord H w'.pool = nullifierWord H w.pool)
    (hgrow : ∀ n, w.registry.spent n = true → w'.registry.spent n = true)
    (n : Note) (hn : Unspent H w' asset n) : Unspent H w asset n := by
  obtain ⟨hasset, hunspent⟩ := hn
  refine ⟨hasset, ?_⟩
  rw [hword] at hunspent
  by_contra hspent
  rw [hgrow _ (by simpa using hspent)] at hunspent
  cases hunspent

/-- A note that is spent takes its worth out of the tally. -/
theorem outstanding_spend
    (hword : nullifierWord H w'.pool = nullifierWord H w.pool)
    (hgrow : ∀ n, w.registry.spent n = true → w'.registry.spent n = true)
    {n : Note} (hn : n ∈ notes)
    (hfresh : w.registry.spent (nullifierWord H w.pool n) = false)
    (hentered : w'.registry.spent (nullifierWord H w.pool n) = true) :
    outstanding H w' notes asset + n.worth asset
      ≤ outstanding H w notes asset := by
  unfold Note.worth
  by_cases hasset : Word.ofFr n.assetId = asset
  · rw [if_pos hasset]
    refine tally_drop (Unspent.of_grown hword hgrow) hn
      ⟨hasset, hfresh⟩ ?_
    rintro ⟨-, hunspent⟩
    rw [hword, hentered] at hunspent
    cases hunspent
  · rw [if_neg hasset]
    exact tally_mono (Unspent.of_grown hword hgrow) notes

/-- A new note adds at most its worth. -/
theorem outstanding_singleton (w : World L) (asset : Word) (n : Note) :
    outstanding H w [n] asset ≤ n.worth asset := by
  unfold outstanding Note.worth
  rw [tally_cons, tally_nil]
  by_cases h : Unspent H w asset n
  · rw [if_pos h, if_pos h.1, Nat.add_zero]
  · rw [if_neg h]
    omega

theorem outstanding_append (ms : List Note) :
    outstanding H w (notes ++ ms) asset
      = outstanding H w notes asset + outstanding H w ms asset :=
  tally_append notes ms

end Accounts

/-- A deposit on well-formed signals credits at least its note. -/
theorem deposit_worth_le {H : List Fr → Fr}
    {treeDepth associationDepth : ℕ} {env : Env} {p : Pool}
    {a : DepositArgs} {x : DepositNoteMint}
    (hp : Proven H treeDepth associationDepth (.receiveCctpDeposit a)
      (.deposit x))
    (hadm : (Call.receiveCctpDeposit a).Admitted env p)
    (hw : (Call.receiveCctpDeposit a).WellFormed) (asset : Word) :
    (x.note.worth asset : ℤ) ≤ supplyDelta asset
      (some ((Call.receiveCctpDeposit a).signal 8, a.amount.toInt)) := by
  obtain ⟨-, hpos, hamount, -⟩ := hadm.amounts
  have hasset : (Call.receiveCctpDeposit a).signal 8
      = Word.ofFr x.note.assetId :=
    Word.eq_ofFr_of_canonical (hw.signal 8) (hp.toFr_signal hadm rfl)
  have hval := Word.val_toFr_of_canonical (hw.signal 7)
  rw [hp.toFr_signal hadm (i := 7) rfl] at hval
  rw [fr32ToI128_of_high_zero (hw.narrow 7 (by simp [Call.narrowedAt]))
    (by omega)] at hamount
  obtain ⟨surplus, -, -, heq⟩ :=
    DepositNoteMint.Satisfied.amount_eq hp.satisfied
  rw [hasset]
  simp only [Note.worth, supplyDelta]
  by_cases h : Word.ofFr x.note.assetId = asset
  · rw [if_pos h, if_pos h.symm]
    omega
  · rw [if_neg h, if_neg (Ne.symm h)]
    exact le_refl _

/-- A public exit on well-formed signals debits at most its note. -/
theorem exit_worth_le {H : List Fr → Fr} {treeDepth associationDepth : ℕ}
    {env : Env} {p : Pool} {c : Call} {x : Withdraw}
    (hp : Proven H treeDepth associationDepth c (.withdraw x))
    (hadm : c.Admitted env p) (hw : c.WellFormed)
    (hpos : 0 < fr32ToI128 (c.signal 2)) (asset : Word) :
    -(x.note.worth asset : ℤ) ≤ supplyDelta asset
      (some (c.signal 17, -fr32ToI128 (c.signal 2))) := by
  have hasset : c.signal 17 = Word.ofFr x.note.assetId :=
    Word.eq_ofFr_of_canonical (hw.signal 17) (hp.toFr_signal hadm rfl)
  have hnarrow := narrow_withdrawn hp hadm (hw.signal 2) hpos
  have hle := Withdraw.Satisfied.withdrawn_le hp.satisfied
  rw [hasset]
  simp only [Note.worth, supplyDelta]
  by_cases h : Word.ofFr x.note.assetId = asset
  · rw [if_pos h, if_pos h.symm]
    omega
  · rw [if_neg h, if_neg (Ne.symm h)]
    exact le_refl _

/-- A transfer creates no worth. -/
theorem transfer_worth_le {H : List Fr → Fr}
    {treeDepth associationDepth : ℕ} {x : PrivateTransfer}
    (h : x.Satisfied H treeDepth associationDepth) (asset : Word) :
    x.output.worth asset ≤ x.input.worth asset := by
  have hvalue := h.value_eq
  unfold Note.worth
  rw [h.sameAsset]
  by_cases ha : Word.ofFr x.output.assetId = asset
  · rw [if_pos ha, if_pos ha]
    omega
  · rw [if_neg ha, if_neg ha]

/-- What a settlement adds to the tally it adds to the supply. -/
theorem settle_backed {env : Env} {ctx : Ctx} {w w' : World L}
    {treeDepth associationDepth : ℕ} {c : Call} {x : Witness}
    (hadm : c.Admitted env w.pool)
    (happ : Applies env w (c.effect env ctx w.pool) w')
    (hp : Proven env.poseidon treeDepth associationDepth c x)
    (hw : c.WellFormed) (hc : c.Settles) (hcommittee : ¬c.ByCommittee)
    {notes : List Note} (hmem : ∀ n ∈ x.spent, n ∈ notes)
    (asset : Word) :
    (outstanding env.poseidon w' (notes ++ x.created) asset : ℤ)
        + w.pool.noteSupply asset
      ≤ outstanding env.poseidon w notes asset
        + w'.pool.noteSupply asset := by
  have hword : nullifierWord env.poseidon w'.pool
      = nullifierWord env.poseidon w.pool :=
    nullifierWord_congr (by rw [happ.frame]) (by rw [happ.frame])
  have hgrow : ∀ n, w.registry.spent n = true →
      w'.registry.spent n = true := fun n hn =>
    (happ.spent n).mpr (Or.inl hn)
  have hnull := nullifiers_eq hp hadm hw.spendsCanonically ctx
  -- every consumed note leaves the tally
  have hspend : ∀ n ∈ x.spent, outstanding env.poseidon w' notes asset
      + n.worth asset ≤ outstanding env.poseidon w notes asset := by
    intro n hn
    have hin : nullifierWord env.poseidon w.pool n
        ∈ (c.effect env ctx w.pool).nullifiers := by
      rw [hnull]
      exact List.mem_map_of_mem hn
    exact outstanding_spend hword hgrow (hmem n hn) (happ.fresh _ hin)
      ((happ.spent _).mpr (Or.inr hin))
  have hcircuit := hp.circuit
  rw [outstanding_append, happ.supply.eq asset]
  cases c with
  | receiveCctpDeposit a =>
      cases x with
      | deposit y =>
          have hcredit := deposit_worth_le hp hadm hw asset
          have hkeep : outstanding env.poseidon w' notes asset
              ≤ outstanding env.poseidon w notes asset :=
            tally_mono (Unspent.of_grown hword hgrow) notes
          have hnew := outstanding_singleton (H := env.poseidon) w' asset
            y.note
          simp only [Witness.created, Call.effect]
          omega
      | _ => exact hcircuit.elim
  | withdraw a | rfqSettleAtomicSwap a | withdrawCctp a =>
      cases x with
      | withdraw y =>
          have hdebit := exit_worth_le hp hadm hw hadm.amounts.1 asset
          have hspent := hspend y.note (List.mem_singleton_self _)
          simp only [Witness.created, Call.effect, outstanding, tally_nil]
          simp only [outstanding] at hspent
          omega
      | _ => exact hcircuit.elim
  | rfqSettle a =>
      cases x with
      | withdraw y =>
          have hspent := hspend y.note (List.mem_singleton_self _)
          simp only [Witness.created, Call.effect, outstanding, tally_nil,
            supplyDelta]
          simp only [outstanding] at hspent
          omega
      | _ => exact hcircuit.elim
  | privateTransferSettle a =>
      cases x with
      | transfer y =>
          have hspent := hspend y.input (List.mem_singleton_self _)
          have hworth := transfer_worth_le hp.satisfied asset
          have hnew := outstanding_singleton (H := env.poseidon) w' asset
            y.output
          simp only [Witness.created, Call.effect, supplyDelta]
          omega
      | _ => exact hcircuit.elim
  | mpcSettle a => exact absurd trivial hcommittee
  | mpcSettlePriced a => exact absurd trivial hcommittee
  | registerAsset asset token => exact hc.elim
  | admin a => exact hc.elim

-- =================================================================== runs

section Step

variable {env : Env} {w₀ w w' : World L} {S : Set (List Fr)}
  {final : List Word} {treeDepth associationDepth : ℕ}
  {h : List (Transition (World L) (Event L))}

omit [TokenHost L] in
theorem createdNotes_concat (h : List (Transition (World L) (Event L)))
    (t : Transition (World L) (Event L)) :
    createdNotes (h ++ [t]) = createdNotes h ++ t.event.created := by
  simp [createdNotes]

omit [TokenHost L] in
/-- The openings of the created notes were hashed. -/
theorem created_hashed {H : List Fr → Fr}
    (hsound : ∀ t ∈ h, Sound H treeDepth associationDepth S final t)
    {m : Note} (hm : m ∈ createdNotes h) {y : List Fr}
    (hy : y ∈ m.hashInputs H) : y ∈ S := by
  obtain ⟨t, ht, hmt⟩ := List.mem_flatMap.mp hm
  refine (hsound t ht).hashed y ?_
  cases he : t.event with
  | pool ctx c x =>
      rw [he] at hmt
      exact x.created_hashInputs _ hmt hy
  | registry ctx c =>
      rw [he] at hmt
      cases hmt
  | tokens drawer ledger =>
      rw [he] at hmt
      cases hmt

omit [TokenHost L] in
/-- A note opened against a known root is one of the created notes. -/
theorem Solvent.opened {H : List Fr → Fr} (hinv : Solvent H w₀ h w)
    (hS : CollisionFree H S)
    (htree : ∀ k > 0, ∀ y ∈ treeInputs H w₀.pool.treeDepth.toNat
      (final.take k), y ∈ S)
    (hdepth : treeDepth ≤ w₀.pool.treeDepth.toNat)
    (hnotes : ∀ m ∈ createdNotes h, ∀ y ∈ m.hashInputs H, y ∈ S)
    (hfinal : w.pool.treeLeaves <+: final) {root : Word}
    (hknown : w.pool.knownRoot root = true) {n : Note} {o : Opening}
    (hn : ∀ y ∈ n.hashInputs H, y ∈ S)
    (ho : ∀ y ∈ o.hashInputs H (n.commitment H), y ∈ S)
    (hproof : MerkleProof H treeDepth (n.commitment H) o root.toFr) :
    n ∈ createdNotes h := by
  rcases hinv.roots root hknown with rfl | ⟨k, hk, hlen, rfl⟩
  · exact absurd rfl (root_ne_zero hS hn ho hproof)
  · have hstage : w.pool.treeLeaves.take k = final.take k := by
      obtain ⟨rest, rfl⟩ := hfinal
      exact (List.take_append_of_le_length hlen).symm
    have hinputs := htree k hk
    rw [← hstage, hinv.leaves] at hinputs
    rw [Word.toFr_ofFr, hinv.leaves] at hproof
    exact opens_leaf hS hinputs hnotes hn ho hdepth hproof

omit [TokenHost L] in
/-- What a settlement outside the committee spends, the tree holds. -/
theorem Solvent.spent_created (hinv : Solvent env.poseidon w₀ h w)
    (hS : CollisionFree env.poseidon S)
    (htree : ∀ k > 0, ∀ y ∈ treeInputs env.poseidon
      w₀.pool.treeDepth.toNat (final.take k), y ∈ S)
    (hdepth : treeDepth ≤ w₀.pool.treeDepth.toNat)
    (hnotes : ∀ m ∈ createdNotes h, ∀ y ∈ m.hashInputs env.poseidon, y ∈ S)
    (hfinal : w.pool.treeLeaves <+: final) {c : Call} {x : Witness}
    (hadm : c.Admitted env w.pool) (hcommittee : ¬c.ByCommittee)
    (hp : Proven env.poseidon treeDepth associationDepth c x)
    (hx : ∀ y ∈ x.hashInputs env.poseidon, y ∈ S) :
    ∀ n ∈ x.spent, n ∈ createdNotes h := by
  intro n hn
  have hcircuit := hp.circuit
  have hsat := hp.satisfied
  have hnote : ∀ y ∈ n.hashInputs env.poseidon, y ∈ S := fun y hy =>
    hx y (x.spent_hashInputs _ hn hy)
  cases x with
  | none => cases hn
  | deposit y => cases hn
  | withdraw y =>
      obtain rfl := List.mem_singleton.mp hn
      have hroot : (c.signal 6).toFr = y.stateRoot :=
        hp.toFr_signal hadm rfl
      have hat : c.rootAt = some 6 := by
        cases c <;> first
          | rfl
          | exact hcircuit.elim
      refine hinv.opened hS htree hdepth hnotes hfinal (hadm.root 6 hat)
        (o := y.state) hnote ?_ ?_
      · intro z hz
        exact hx z (by simp [Witness.hashInputs, Withdraw.hashInputs, hz])
      · rw [hroot]
        exact hsat.stateRoot
  | transfer y =>
      obtain rfl := List.mem_singleton.mp hn
      have hroot : (c.signal 3).toFr = y.stateRoot :=
        hp.toFr_signal hadm rfl
      have hat : c.rootAt = some 3 := by
        cases c <;> first
          | rfl
          | exact hcircuit.elim
      refine hinv.opened hS htree hdepth hnotes hfinal (hadm.root 3 hat)
        (o := y.state) hnote ?_ ?_
      · intro z hz
        exact hx z
          (by simp [Witness.hashInputs, PrivateTransfer.hashInputs, hz])
      · rw [hroot]
        exact hsat.stateRoot
  | mpc y =>
      cases c <;> first
        | exact hcircuit.elim
        | exact absurd trivial hcommittee
  | priced y =>
      cases c <;> first
        | exact hcircuit.elim
        | exact absurd trivial hcommittee

/-- A stage of the tree known before a settlement is known after it, and
a new root is of a new stage. -/
theorem Solvent.roots_of_applies {e : Effect}
    (hinv : Solvent env.poseidon w₀ h w) (happ : Applies env w e w') :
    ∀ x, w'.pool.knownRoot x = true → x = 0
      ∨ ∃ k, 0 < k ∧ k ≤ w'.pool.treeLeaves.length
        ∧ x = Word.ofFr (LeanIMT.plainRoot env.poseidon
          w₀.pool.treeDepth.toNat (w'.pool.treeLeaves.take k)) := by
  intro x hx
  rcases happ.roots x hx with hold | hnew
  · rcases hinv.roots x hold with hzero | ⟨k, hk, hlen, hroot⟩
    · exact Or.inl hzero
    · refine Or.inr ⟨k, hk, ?_, ?_⟩
      · rw [happ.leaves, List.length_append]
        omega
      · rw [hroot, happ.leaves, List.take_append_of_le_length hlen]
  · rw [hinv.treeDepth] at hnew
    exact Or.inr hnew

omit [TokenHost L] in
/-- A constructed pool has no leaves, and its one known root is zero. -/
theorem Solvent.init (H : List Fr → Fr) (hw₀ : w₀.Constructed) :
    Solvent H w₀ [] w₀ := by
  obtain ⟨admin, usdcSac, verifier, nullreg, depth, poolId, chainId,
    hpool⟩ := hw₀
  refine ⟨rfl, rfl, rfl, by rw [hpool]; rfl, ?_,
    fun _ _ => by rw [hpool]; rfl, fun _ => by rw [hpool]; rfl⟩
  intro x hx
  rw [hpool] at hx
  by_cases hzero : x = 0
  · exact Or.inl hzero
  · rw [Pool.construct_knownRoot hzero] at hx
    cases hx

/-- One accepted event keeps the invariant. -/
theorem Solvent.step (hinv : Solvent env.poseidon w₀ h w)
    (hS : CollisionFree env.poseidon S)
    (htree : ∀ k > 0, ∀ y ∈ treeInputs env.poseidon
      w₀.pool.treeDepth.toNat (final.take k), y ∈ S)
    (hdepth : treeDepth ≤ w₀.pool.treeDepth.toNat) {e : Event L}
    (hstep : step env w e = .ok w')
    (hpast : ∀ t ∈ h,
      Sound env.poseidon treeDepth associationDepth S final t)
    (hsound : Sound env.poseidon treeDepth associationDepth S final
      ⟨w, e, w'⟩) :
    Solvent env.poseidon w₀ (h ++ [⟨w, e, w'⟩]) w' := by
  obtain ⟨hpool, hchain, htd⟩ := step_domain hstep
  by_cases hq : ∃ ctx c x, e = .pool ctx c x ∧ c.Settles
  · obtain ⟨ctx, c, x, rfl, hc⟩ := hq
    obtain ⟨hadm, happ⟩ := exec_ok hstep hc
    obtain ⟨hcommittee, hw⟩ := hsound.shielded
    have hp := hsound.proven
    have hfinal := (step_leaves hstep).trans hsound.leaves
    have hmem := hinv.spent_created hS htree hdepth
      (fun m hm y hy => created_hashed hpast hm hy) hfinal hadm hcommittee
      hp hsound.hashed
    refine ⟨hpool.trans hinv.poolId, hchain.trans hinv.chainId,
      htd.trans hinv.treeDepth, ?_, hinv.roots_of_applies happ, ?_, ?_⟩
    · rw [happ.leaves, hinv.leaves, leaves_eq hp hadm hw ctx,
        createdNotes_concat]
      exact (List.map_append ..).symm
    · intro asset hnone
      rw [happ.frame] at hnone
      rw [happ.supply.eq asset, hinv.unregistered asset hnone]
      have hsupply := happ.supply
      cases hmove : (c.effect env ctx w.pool).supply with
      | none => rfl
      | some move =>
          rw [hmove] at hsupply
          obtain ⟨⟨token, htoken, -⟩, -⟩ := hsupply
          simp only [supplyDelta]
          rw [if_neg fun heq => ?_, add_zero]
          rw [heq, htoken] at hnone
          cases hnone
    · intro asset
      have hstep := settle_backed hadm happ hp hw hc hcommittee hmem asset
      have hbacked := hinv.backed asset
      rw [createdNotes_concat]
      show (outstanding _ _ (createdNotes h ++ x.created) asset : ℤ) ≤ _
      omega
  · have hnone : e.created = [] := by
      cases e with
      | pool ctx c x =>
          have hcircuit := hsound.proven.circuit
          cases c <;> cases x <;> first
            | rfl
            | exact hcircuit.elim
            | exact absurd ⟨ctx, _, _, rfl, trivial⟩ hq
      | registry ctx c => rfl
      | tokens drawer ledger => rfl
    obtain ⟨hleaves, hroots, hsupply, hassets⟩ := step_quiet hstep
      (fun ctx c x he hc => hq ⟨ctx, c, x, he, hc⟩) hinv.unregistered
    have hcreated : createdNotes (h ++ [⟨w, e, w'⟩]) = createdNotes h := by
      rw [createdNotes_concat, hnone, List.append_nil]
    refine ⟨hpool.trans hinv.poolId, hchain.trans hinv.chainId,
      htd.trans hinv.treeDepth, ?_, ?_, ?_, ?_⟩
    · rw [hleaves, hcreated]
      exact hinv.leaves
    · rw [hroots, hleaves]
      exact hinv.roots
    · rw [hsupply]
      exact fun asset hn => hinv.unregistered asset (hassets asset hn)
    · intro asset
      rw [hcreated, hsupply]
      refine le_trans ?_ (hinv.backed asset)
      exact_mod_cast tally_mono (Unspent.of_grown
        (nullifierWord_congr hpool hchain)
        fun n hn => step_spent_mono hstep hn) (createdNotes h)

end Step

/-- A value word is narrowed to at most the value. -/
theorem fr32ToI128_ofFr_le (x : Fr) : fr32ToI128 (Word.ofFr x) ≤ x.val := by
  have hle := Nat.mod_le (Word.ofFr x).toNat (2 ^ 128)
  rw [fr32ToI128_eq]
  rw [Word.toNat_ofFr] at hle ⊢
  split
  · omega
  · omega

/-- Shielded solvency. In a run from the constructor without committee
settlements, whose accepted calls are proven by circuits no deeper than
the pool's tree and carry well-formed signals, and in which the hashed
inputs neither collide nor hash to zero: the leaves are the commitments
of the notes created so far, the supply of every asset is at least the
value of its unspent notes, and an exit of a whole unspent note does not
fail with `SupplyUnderflow`. -/
theorem shielded_solvent {env : Env} {treeDepth associationDepth : ℕ}
    {w₀ : World L} (es : List (Event L)) (hw₀ : w₀.Constructed)
    (hdepth : treeDepth ≤ w₀.pool.treeDepth.toNat)
    (hproven : ∀ t ∈ accepted (step env) w₀ es,
      t.event.Proven env.poseidon treeDepth associationDepth)
    (hshielded : ∀ t ∈ accepted (step env) w₀ es, t.event.Shielded)
    (hfree : CollisionFree env.poseidon (occurring env w₀ es)) :
    let w := run (step env) w₀ es
    let notes := createdNotes (accepted (step env) w₀ es)
    w.pool.treeLeaves = leafWords env.poseidon notes
      ∧ (∀ asset, (outstanding env.poseidon w notes asset : ℤ)
        ≤ w.pool.noteSupply asset)
      ∧ ∀ n ∈ notes,
        w.registry.spent (nullifierWord env.poseidon w.pool n) = false →
        ∀ (ctx : Ctx) (c : Call), c.Exits →
          c.signal 17 = Word.ofFr n.assetId →
          c.signal 2 = Word.ofFr n.value →
          exec env ctx w c ≠ .error PoolError.supplyUnderflow.trap := by
  intro w notes
  have hdepthEnd : w.pool.treeDepth = w₀.pool.treeDepth := by
    refine run_induction
      (fun w : World L => w.pool.treeDepth = w₀.pool.treeDepth) rfl ?_ es
    intro w₁ w₂ e ih hstep
    exact (step_domain hstep).2.2.trans ih
  have hinv : Solvent env.poseidon w₀ (accepted (step env) w₀ es) w := by
    refine history_induction_of
      (Sound env.poseidon treeDepth associationDepth
        (occurring env w₀ es) w.pool.treeLeaves)
      (Solvent env.poseidon w₀) ?_ ?_ es ?_
    · exact Solvent.init env.poseidon hw₀
    · intro h w₁ w₂ e hinv hstep hpast hsound
      refine hinv.step hfree ?_ hdepth hstep hpast hsound
      intro k hk y hy
      rw [← hdepthEnd] at hy
      exact Or.inr ⟨k, hk, hy⟩
    · intro t ht
      exact ⟨hproven t ht, hshielded t ht,
        fun y hy => Or.inl ⟨t, ht, hy⟩, accepted_leaves w₀ es t ht⟩
  refine ⟨hinv.leaves, hinv.backed, ?_⟩
  intro n hn hunspent ctx c hc hasset hvalue herr
  have hunder := exit_underflow hc herr
  have hroom : n.value.val ≤ outstanding env.poseidon w notes (c.signal 17) :=
    weight_le_tally (f := fun m : Note => m.value.val)
      (p := Unspent env.poseidon w (c.signal 17)) hn
      ⟨hasset.symm, hunspent⟩
  have hbacked : (outstanding env.poseidon w notes (c.signal 17) : ℤ)
      ≤ w.pool.noteSupply (c.signal 17) := hinv.backed _
  have hnarrow := fr32ToI128_ofFr_le n.value
  rw [← hvalue] at hnarrow
  omega

section Runs

open Testnet

/-- Nothing collides in the testnet runs. -/
theorem testnet_collisionFree {es : List (Event SacLedger)}
    (hes : es ∈ [depositRun, withdrawRun, aliasRun]) :
    CollisionFree env.poseidon (occurring env (genesis 100 0) es) := by
  have hcover := occurring_digests hes
  exact ⟨poseidonFast_injOn.mono hcover,
    fun x hx => poseidonFast_ne_zero (hcover hx)⟩

/-- The whole of `noteU`, withdrawn. -/
def withdrawAll : Call :=
  .withdraw ⟨user, proofBytes,
    canonicalBytes (.withdraw (exit 1 noteU openU 100 0))⟩

/-- The run of one deposit and one withdrawal is solvent for every
asset, and before the withdrawal the whole note could be withdrawn
without an underflow. -/
theorem shielded_solvent_testnet :
    (accepted (step env) (genesis 100 0) withdrawRun).length = 10
      ∧ (∀ asset, (outstanding env.poseidon
          (run (step env) (genesis 100 0) withdrawRun)
          (createdNotes (accepted (step env) (genesis 100 0) withdrawRun))
          asset : ℤ)
        ≤ (run (step env) (genesis 100 0) withdrawRun).pool.noteSupply
          asset)
      ∧ exec env ctx (run (step env) (genesis 100 0) depositRun) withdrawAll
        ≠ .error PoolError.supplyUnderflow.trap := by
  have hdeposit : depositRun ∈ [depositRun, withdrawRun, aliasRun] :=
    .head _
  have hwithdraw : withdrawRun ∈ [depositRun, withdrawRun, aliasRun] :=
    .tail _ (.head _)
  have hruns : (accepted (step env) (genesis 100 0) withdrawRun).length = 10
      ∧ (∀ t ∈ accepted (step env) (genesis 100 0) withdrawRun,
        t.event.Shielded)
      ∧ (∀ t ∈ accepted (step env) (genesis 100 0) depositRun,
        t.event.Shielded)
      ∧ noteU ∈ createdNotes
        (accepted (step env) (genesis 100 0) depositRun)
      ∧ (run (step env) (genesis 100 0) depositRun).registry.spent
        (nullifierWord env.poseidon
          (run (step env) (genesis 100 0) depositRun).pool noteU) = false
      ∧ withdrawAll.signal 17 = Word.ofFr noteU.assetId
      ∧ withdrawAll.signal 2 = Word.ofFr noteU.value := by
    decide +kernel
  obtain ⟨hlength, hshielded, hshielded', hcreated, hunspent, hasset,
    hvalue⟩ := hruns
  obtain ⟨-, hbacked, -⟩ := shielded_solvent withdrawRun
    (genesis_constructed 100 0) (by decide)
    (runs_evaluated withdrawRun hwithdraw).2.1 hshielded
    (testnet_collisionFree hwithdraw)
  obtain ⟨-, -, hexit⟩ := shielded_solvent depositRun
    (genesis_constructed 100 0) (by decide)
    (runs_evaluated depositRun hdeposit).2.1 hshielded'
    (testnet_collisionFree hdeposit)
  exact ⟨hlength, hbacked, hexit noteU hcreated hunspent ctx withdrawAll
    trivial hasset hvalue⟩

-- ========================================================= too shallow

namespace Testnet

/-- A note whose nullifier and secret hash to the commitment of `noteU`. -/
def noteOver : Note where
  assetId := noteU.assetId
  value := 100
  label := 11
  nullifier := noteU.assetValueLabel env.poseidon
  secret := noteU.precommitment env.poseidon

/-- The pool constructed with tree depth 11. -/
def shallow : World SacLedger :=
  { genesis 100 0 with
    pool := Pool.construct admin usdc withdrawVerifier nullifierRegistry
      11 1 27 }

/-- The opening of its only leaf, entered one level below: `noteU` is the
right child of the commitment of `noteOver`. -/
def openInner : Opening where
  leafIndex := 1
  siblings := noteOver.assetValueLabel env.poseidon
    :: Opening.padNodes env.poseidon 11 0
  indices := true :: List.replicate 11 false

/-- `noteOver` deposited into the empty tree. -/
def depositOver : Event SacLedger :=
  let x := mint noteOver 0x100 1000 100 1
  .pool ctx (.receiveCctpDeposit {
      sourceDomain := 3
      cctpNonce := 0x100
      asset := usdc
      amount := 100
      commitment := Word.ofFr x.commitment
      newRoot := Word.ofFr ((Opening.only env.poseidon 11).root
        env.poseidon x.commitment)
      encryptedNotePayloadHash := 0
      policyId := 0
      proofBytes := proofBytes
      pubSignalsBytes := canonicalBytes (.deposit x) })
    (.deposit x)

/-- One deposit, and all of its value withdrawn for `noteU`, which nobody
deposited. -/
def shallowRun : List (Event SacLedger) :=
  setup ++ [depositOver, withdrawal (exit 1 noteU openInner 100 0)]

/-- The run evaluated. -/
theorem shallow_evaluated :
    (accepted (step env) shallow shallowRun).length = 10
      ∧ (run (step env) shallow shallowRun).pool.treeLeaves
        = [Word.ofFr (noteOver.commitment env.poseidon)]
      ∧ (∀ t ∈ accepted (step env) shallow shallowRun,
        t.event.Proven env.poseidon 12 2)
      ∧ (∀ t ∈ accepted (step env) shallow shallowRun, t.event.Shielded)
      ∧ (∀ t ∈ accepted (step env) shallow shallowRun,
        ∀ y ∈ t.event.hashInputs env.poseidon, y ∈ digests.map Prod.fst)
      ∧ (∀ y ∈ spinePairs env.poseidon
          (run (step env) shallow shallowRun).pool.treeDepth.toNat
          (Word.ofFr (noteOver.commitment env.poseidon)).toFr 0,
        y ∈ digests.map Prod.fst)
      ∧ (run (step env) shallow shallowRun).pool.assetToken (idOf usdc)
        = some usdc
      ∧ (run (step env) shallow shallowRun).pool.noteSupply (idOf usdc) = 0
      ∧ outstanding env.poseidon (run (step env) shallow shallowRun)
        (createdNotes (accepted (step env) shallow shallowRun)) (idOf usdc)
        = 100 := by
  decide +kernel

end Testnet

/-- In a tree of depth 11 the circuits of depth 12 spend a note that was
never deposited, and the deposited one is left without supply. Nothing
collides, and every word is canonical. -/
theorem shallow_insolvent :
    shallow.Constructed
      ∧ (accepted (step env) shallow shallowRun).length = 10
      ∧ (∀ t ∈ accepted (step env) shallow shallowRun,
        t.event.Proven env.poseidon 12 2 ∧ t.event.Shielded)
      ∧ CollisionFree env.poseidon (occurring env shallow shallowRun)
      ∧ (run (step env) shallow shallowRun).pool.assetToken (idOf usdc)
        = some usdc
      ∧ ¬(outstanding env.poseidon (run (step env) shallow shallowRun)
          (createdNotes (accepted (step env) shallow shallowRun))
          (idOf usdc) : ℤ)
        ≤ (run (step env) shallow shallowRun).pool.noteSupply
          (idOf usdc) := by
  obtain ⟨hlength, hleaves, hproven, hshielded, hevents, hspine, htoken,
    hsupply, houtstanding⟩ := shallow_evaluated
  have hcover := occurring_only hleaves hevents hspine
  refine ⟨⟨_, _, _, _, _, _, _, rfl⟩, hlength,
    fun t ht => ⟨hproven t ht, hshielded t ht⟩,
    ⟨poseidonFast_injOn.mono hcover,
      fun x hx => poseidonFast_ne_zero (hcover hx)⟩, htoken, ?_⟩
  rw [hsupply, houtstanding]
  decide

end Runs

end Lumix
