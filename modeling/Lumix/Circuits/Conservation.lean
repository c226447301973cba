/-
Value over the integers. The circuits relate amounts by linear equations
modulo the order, which is above 2^254; the range checks bound the parts
by 2^128, so no such equation wraps and each holds of the canonical
integers. `Withdraw` never range-checks its note's value: that is
bounded by the two parts it is the sum of.

A transfer spends one note and creates one, so transfers form chains
(`Chain`), and a chain pays its fees out of the note it started from.
-/
import Lumix.Circuits.Notes
import Lumix.Circuits.Poseidon255

namespace Lumix

variable {H : List Fr → Fr} {treeDepth associationDepth : ℕ}

-- ============================================================== amounts

/-- Two parts below 2^128 make a whole below 2^129. -/
theorem whole_lt {whole part : Fr} (hpart : InRange 128 part)
    (hrest : InRange 128 (whole - part)) : whole.val < 2 ^ 129 := by
  rw [val_eq_of_parts hpart hrest]
  rw [inRange_iff] at hpart hrest
  omega

/-- The fee comes out of the withdrawn value, and that out of the
note. -/
theorem Withdraw.Satisfied.amounts {a : Withdraw}
    (h : a.Satisfied H treeDepth associationDepth) :
    a.relayerFee.val ≤ a.withdrawnValue.val
      ∧ a.withdrawnValue.val ≤ a.note.value.val
      ∧ a.note.value.val < 2 ^ 129 := by
  have hfee := val_eq_of_parts h.feeRangeCheck h.netRangeCheck
  exact ⟨by omega, h.withdrawn_le,
    whole_lt h.withdrawnValueRangeCheck h.remainingValueRangeCheck⟩

-- =============================================================== chains

variable (H treeDepth associationDepth) in
/-- Transfers one after the other, each spending the note the one before
it created: from which note, and to which. -/
inductive Chain : Note → List PrivateTransfer → Note → Prop
  | nil (n : Note) : Chain n [] n
  | cons {a : PrivateTransfer} {as : List PrivateTransfer} {m : Note}
      (h : a.Satisfied H treeDepth associationDepth)
      (rest : Chain a.output as m) : Chain a.input (a :: as) m

/-- A chain keeps the asset, and its fees and its last note make up its
first. -/
theorem Chain.value_eq {n m : Note} {as : List PrivateTransfer}
    (h : Chain H treeDepth associationDepth n as m) :
    m.assetId = n.assetId
      ∧ n.value.val
        = m.value.val + (as.map fun a => a.feePublic.val).sum := by
  induction h with
  | nil n => exact ⟨rfl, (Nat.add_zero _).symm⟩
  | cons ha _ ih =>
      obtain ⟨hasset, hvalue⟩ := ih
      refine ⟨hasset.trans ha.sameAsset.symm, ?_⟩
      rw [ha.value_eq, hvalue, List.map_cons, List.sum_cons]
      omega

variable (H treeDepth associationDepth) in
/-- The same through commitments: each transfer opens the commitment the
one before it published. -/
inductive Linked : Fr → List PrivateTransfer → Fr → Prop
  | nil (c : Fr) : Linked c [] c
  | cons {a : PrivateTransfer} {as : List PrivateTransfer} {d : Fr}
      (h : a.Satisfied H treeDepth associationDepth)
      (rest : Linked a.outputCommitment as d) :
      Linked (a.input.commitment H) (a :: as) d

/-- Where no hash collides, transfers linked by commitments are chained
by notes. -/
theorem Linked.chain {S : Set (List Fr)} (hinj : Set.InjOn H S) {c d : Fr}
    {as : List PrivateTransfer}
    (h : Linked H treeDepth associationDepth c as d) {n : Note}
    (hn : ∀ x ∈ n.hashInputs H, x ∈ S) (hc : n.commitment H = c)
    (has : ∀ a ∈ as, ∀ x ∈ a.hashInputs H, x ∈ S) :
    ∃ m, Chain H treeDepth associationDepth n as m
      ∧ m.commitment H = d := by
  induction h generalizing n with
  | nil c => exact ⟨n, .nil n, hc⟩
  | @cons a as d ha _ ih =>
      have hinputs := has a (List.mem_cons_self ..)
      have hopen : n = a.input := by
        refine Note.eq_of_commitment_eq hinj hn ?_ hc
        intro x hx
        exact hinputs x (by simp [PrivateTransfer.hashInputs, hx])
      obtain ⟨m, hchain, hm⟩ := ih
        (fun x hx => hinputs x (by simp [PrivateTransfer.hashInputs, hx]))
        ha.outputCommitment.symm
        (fun b hb => has b (List.mem_cons_of_mem _ hb))
      rw [hopen]
      exact ⟨m, .cons ha hchain, hm⟩

-- ========================================================= conservation

/-- Value conservation, for every hash and all depths: what `Withdraw`
and `PrivateTransfer` say about amounts modulo the order holds of the
canonical integers, and no chain of transfers ends in a note worth more
than the one it began with. -/
theorem value_conserved :
    (∀ a : Withdraw, a.Satisfied H treeDepth associationDepth →
      a.relayerFee.val ≤ a.withdrawnValue.val
        ∧ a.withdrawnValue.val ≤ a.note.value.val
        ∧ a.note.value.val < 2 ^ 129)
    ∧ (∀ a : PrivateTransfer, a.Satisfied H treeDepth associationDepth →
      a.input.value.val = a.output.value.val + a.feePublic.val
        ∧ a.output.value.val < 2 ^ 128 ∧ a.feePublic.val < 2 ^ 128
        ∧ a.output.assetId = a.input.assetId
        ∧ MerkleProof H treeDepth (a.input.commitment H) a.state a.stateRoot
        ∧ a.outputCommitment = a.output.commitment H)
    ∧ ∀ n as m, Chain H treeDepth associationDepth n as m →
      m.value.val ≤ n.value.val := by
  refine ⟨fun a ha => ha.amounts, ?_, ?_⟩
  · intro a ha
    exact ⟨ha.value_eq, inRange_iff.mp ha.outRange,
      inRange_iff.mp ha.feeRange, ha.sameAsset.symm, ha.stateRoot,
      ha.outputCommitment⟩
  · intro n as m hchain
    obtain ⟨-, hvalue⟩ := hchain.value_eq
    omega

section Alone

variable (H)

/-- The transfer of a note that is alone in its tree, to another of the
same owner, under the only label of its association set. -/
def PrivateTransfer.alone (input : Note) (feePublic : Fr) :
    PrivateTransfer :=
  let output := { input with value := input.value - feePublic }
  { outputCommitment := output.commitment H
    feePublic := feePublic
    stateRoot := (Opening.only H 12).root H (input.commitment H)
    associationRoot := (Opening.only H 2).root H input.label
    poolId := 1
    chainId := 27
    input := input
    output := output
    state := Opening.only H 12
    association := Opening.only H 2
    nullifierHash := input.nullifierHash H 1 27 }

theorem length_padNodes (depth : ℕ) (pad : Fr) :
    (Opening.padNodes H depth pad).length = depth := by
  induction depth generalizing pad with
  | zero => rfl
  | succ depth ih => exact congrArg (· + 1) (ih (H [pad, pad]))

/-- The opening of a tree's only leaf is one. -/
theorem Opening.only_proof (depth : ℕ) (leaf : Fr) :
    MerkleProof H depth leaf (Opening.only H depth)
      ((Opening.only H depth).root H leaf) := by
  refine ⟨length_padNodes H depth 0, ⟨List.length_replicate, ?_⟩, rfl⟩
  have hzero : Digits.bitsVal (List.replicate depth false) = 0 := by
    induction depth with
    | zero => rfl
    | succ depth ih =>
        rw [List.replicate_succ, Digits.bitsVal, ih]
        rfl
  show ((Digits.bitsVal (List.replicate depth false) : ℕ) : Fr) = 0
  rw [hzero, Nat.cast_zero]

theorem PrivateTransfer.alone_satisfied {input : Note} {feePublic : Fr}
    (hfee : InRange 128 feePublic)
    (hout : InRange 128 (input.value - feePublic)) :
    (PrivateTransfer.alone H input feePublic).Satisfied H 12 2 where
  sameAsset := rfl
  stateRoot := Opening.only_proof H 12 _
  nullifierHash := rfl
  outputCommitment := rfl
  conservation := (sub_add_cancel ..).symm
  outRange := hout
  feeRange := hfee
  associationRoot := Opening.only_proof H 2 _

/-- A note of 100 pays two fees of 1 in two transfers, and what it ends
in is worth no more than it was. -/
theorem value_conserved_twice :
    ∃ as m, as.length = 2
      ∧ Chain poseidon255 12 2 ⟨Note.usdcId, 100, 11, 1001, 2001⟩ as m
      ∧ m.value.val ≤ (100 : Fr).val := by
  have h₁ : (PrivateTransfer.alone poseidon255
      ⟨Note.usdcId, 100, 11, 1001, 2001⟩ 1).Satisfied poseidon255 12 2 :=
    PrivateTransfer.alone_satisfied poseidon255 (by decide) (by decide)
  have h₂ : (PrivateTransfer.alone poseidon255
      ⟨Note.usdcId, 100 - 1, 11, 1001, 2001⟩ 1).Satisfied poseidon255 12 2 :=
    PrivateTransfer.alone_satisfied poseidon255 (by decide) (by decide)
  have hchain := Chain.cons h₁ (.cons h₂ (.nil _))
  exact ⟨_, _, rfl, hchain, value_conserved.2.2 _ _ _ hchain⟩

end Alone

end Lumix
