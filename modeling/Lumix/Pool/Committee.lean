/-
Committee settlements. A priced crossing adjusts no supply and moves no
token, so all that protects the two parties is what the circuit proved
about the amounts. `priced_settlement_iff` says what that is: the price
and both minimums hold of the integers the signals denote exactly when
the price product does not reach the order and neither minimum is a
wrapped negative number.
-/
import Lumix.Pool.Testnet

namespace Lumix

open Exec Run

variable {L : Type} [TokenHost L]

/-- The integer a signal of the call denotes. -/
def MpcArgs.denotes (a : MpcArgs) (i : ℕ) : ℕ :=
  (Word.toFr ((Call.mpcSettlePriced a).signal i)).val

/-- The price and the minimums, over the integers: signal 15 is the
floor of signal 14 at price 16, and neither party receives less than its
minimum in 18 and 19. -/
def MpcArgs.PriceMet (a : MpcArgs) : Prop :=
  a.denotes 15 = a.denotes 14 * a.denotes 16 / 10 ^ 9
    ∧ a.denotes 18 ≤ a.denotes 15 ∧ a.denotes 19 ≤ a.denotes 14

/-- Nothing wrapped. -/
def MpcArgs.PriceUnwrapped (a : MpcArgs) : Prop :=
  a.denotes 14 * a.denotes 16 < r ∧ a.denotes 18 < 2 ^ 128
    ∧ a.denotes 19 < 2 ^ 128

theorem priced_settlement_iff {env : Env} {ctx : Ctx} {a : MpcArgs}
    {x : MpcPricedSettlement} {treeDepth associationDepth : ℕ}
    {w w' : World L} (h : mpcSettlePriced env ctx a w = .ok w')
    (hp : Proven env.poseidon treeDepth associationDepth
      (.mpcSettlePriced a) (.priced x))
    (hA : x.noteA.value.val < 2 ^ 128) (hB : x.noteB.value.val < 2 ^ 128) :
    a.PriceMet ↔ a.PriceUnwrapped := by
  obtain ⟨hadm, -, -⟩ := mpcSettlePriced_ok h
  have hsignal : ∀ {i : ℕ} {y : Fr}, x.publicSignals[i]? = some y →
      a.denotes i = y.val := by
    intro i y hy
    unfold MpcArgs.denotes
    rw [hp.toFr_signal hadm hy]
  have h14 : a.denotes 14 = x.matchedAmountA.val := hsignal rfl
  have h15 : a.denotes 15 = x.matchedAmountB.val := hsignal rfl
  have h16 : a.denotes 16 = x.priceScaled.val := hsignal rfl
  have h18 : a.denotes 18 = x.minOutputA.val := hsignal rfl
  have h19 : a.denotes 19 = x.minOutputB.val := hsignal rfl
  unfold MpcArgs.PriceMet MpcArgs.PriceUnwrapped
  rw [h14, h15, h16, h18, h19]
  exact MpcPricedSettlement.priced_iff hp.satisfied hA hB

section Runs

open Testnet

/-- `noteU` crossed with `noteX`, 100 USDC for 2500 XLM, under the given
price. -/
def pricedCrossing (priceScaled : Fr) : MpcPricedSettlement where
  stateRoot := (Opening.ofTwo env.poseidon 12 false
    (noteX.commitment env.poseidon)).root env.poseidon
    (noteU.commitment env.poseidon)
  associationRoot := associationRoot
  batchHash := (hashToField batchHash).toFr
  poolId := 1
  chainId := 27
  deadlineLedger := 100
  inputAssetA := noteU.assetId
  outputAssetA := noteX.assetId
  inputAssetB := noteX.assetId
  outputAssetB := noteU.assetId
  matchedAmountA := 100
  matchedAmountB := 2500
  priceScaled := priceScaled
  priceScale := 1000000000
  minOutputA := 1
  minOutputB := 1
  labelA := 11
  nullifierA := 1001
  secretA := 2001
  stateA := Opening.ofTwo env.poseidon 12 false
    (noteX.commitment env.poseidon)
  associationA := Opening.only env.poseidon 2
  labelB := 11
  nullifierB := 1002
  secretB := 2002
  stateB := Opening.ofTwo env.poseidon 12 true
    (noteU.commitment env.poseidon)
  associationB := Opening.only env.poseidon 2
  outLabelA := 11
  outNullifierA := 1005
  outSecretA := 2005
  outLabelB := 11
  outNullifierB := 1006
  outSecretB := 2006
  nullifierHashA := noteU.nullifierHash env.poseidon 1 27
  nullifierHashB := noteX.nullifierHash env.poseidon 1 27
  outputCommitmentA := Note.commitment env.poseidon
    ⟨noteX.assetId, 2500, 11, 1005, 2005⟩
  outputCommitmentB := Note.commitment env.poseidon
    ⟨noteU.assetId, 100, 11, 1006, 2006⟩

/-- The committee's call for an assignment. -/
def pricedArgs (x : MpcPricedSettlement) : MpcArgs where
  nullifierA := Word.ofFr x.nullifierHashA
  nullifierB := Word.ofFr x.nullifierHashB
  outputCommitmentA := Word.ofFr x.outputCommitmentA
  outputCommitmentB := Word.ofFr x.outputCommitmentB
  newRoot := rootOf [noteU, noteX, x.outNoteA, x.outNoteB]
  batchHash := batchHash
  signerPubkeys := [committeeKey]
  signatures := [committeeSig]
  proofBytes := some proofBytes
  pubSignalsBytes := some (canonicalBytes (.priced x))

/-- A price near a hundredth of the order, at which 100 USDC are worth
2500 XLM modulo the order. -/
def wrappingPrice : Fr :=
  0x128c6cb12560e0d85a1dbc2a3efb2ccda6ff9f5ca3d6c70a147ae1a4a6fa586

/-- At 25 and at the wrapping price the crossing is proven and settled. -/
theorem crossings_evaluated :
    ((mpcSettlePriced env ctx (pricedArgs (pricedCrossing 25000000000))
        twoNotes).isOk
      ∧ Proven env.poseidon 12 2
        (.mpcSettlePriced (pricedArgs (pricedCrossing 25000000000)))
        (.priced (pricedCrossing 25000000000)))
    ∧ (mpcSettlePriced env ctx (pricedArgs (pricedCrossing wrappingPrice))
        twoNotes).isOk
      ∧ Proven env.poseidon 12 2
        (.mpcSettlePriced (pricedArgs (pricedCrossing wrappingPrice)))
        (.priced (pricedCrossing wrappingPrice)) := by
  decide +kernel

/-- At 25 XLM a USDC, scaled, the crossing meets its price. -/
theorem priced_settlement_honest :
    ∃ w', mpcSettlePriced env ctx
        (pricedArgs (pricedCrossing 25000000000)) twoNotes = .ok w'
      ∧ (pricedArgs (pricedCrossing 25000000000)).PriceMet := by
  obtain ⟨⟨hok, hp⟩, -⟩ := crossings_evaluated
  obtain ⟨w', hw'⟩ := exists_ok_of_isOk hok
  refine ⟨w', hw', (priced_settlement_iff hw' hp ?_ ?_).mpr ?_⟩
  · decide +kernel
  · decide +kernel
  · unfold MpcArgs.PriceUnwrapped
    decide +kernel

/-- The pool settles at that price too. -/
theorem priced_settlement_wraps :
    (genesis 100 2500).Constructed
      ∧ Proven env.poseidon 12 2
        (.mpcSettlePriced (pricedArgs (pricedCrossing wrappingPrice)))
        (.priced (pricedCrossing wrappingPrice))
      ∧ (pricedCrossing wrappingPrice).noteA.value.val < 2 ^ 128
      ∧ (pricedCrossing wrappingPrice).noteB.value.val < 2 ^ 128
      ∧ (∃ w', mpcSettlePriced env ctx
        (pricedArgs (pricedCrossing wrappingPrice)) twoNotes = .ok w')
      ∧ ¬(pricedArgs (pricedCrossing wrappingPrice)).PriceMet := by
  obtain ⟨-, hok, hp⟩ := crossings_evaluated
  refine ⟨genesis_constructed 100 2500, hp, by decide +kernel,
    by decide +kernel, exists_ok_of_isOk hok, ?_⟩
  unfold MpcArgs.PriceMet
  decide +kernel

end Runs

end Lumix
