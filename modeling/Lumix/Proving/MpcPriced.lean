/-
The price rule, in the four places that compute it, and the witness of
the priced committee circuit.

A crossing pays its first party the floor of its amount times the price
over the scale. The RFQ package computes it for a quote
(`quotedFromPrice`), the coordinator for a match, the prover for its
witness (`buildMpcPricedWitness`) and the pool for a swap
(`expectedOutput`); the products are of natural numbers, so that
truncation is the floor in all of them, and the pool's traps where it
does not fit its type.

The circuit states the floor by two comparators of fixed widths and the
minimum outputs by two more. A match of 64-bit values stays inside all
four (`PriceConstraints.ofMatch`).
-/
import Lumix.Committee.Priced
import Lumix.Pool.Rfq
import Lumix.Proving.MpcSettlement

namespace Lumix.Proving

open Exec Text
open Committee (PricedIntent PricedMatch matchPricedPair)

-- ====================================================== the price rule

/-- `PRICE_SCALE` of the RFQ package. -/
def PRICE_SCALE : ℤ := 1000000000

/-- What an amount is worth at a price, rounded towards zero. -/
def quotedFromPrice (inputAmount7dp priceScaled : ℤ) : ℤ :=
  (inputAmount7dp * priceScaled).tdiv PRICE_SCALE

/-- `matchedB` of `buildMpcPricedWitness`. -/
def matchedB (matchedA priceScaled : ℤ) : ℤ :=
  (matchedA * priceScaled).tdiv 1000000000

/-- `expected_output` of `rfq_settle_atomic_swap`. -/
def expectedOutput (withdrawnValue priceScaled : ℤ) : Except Trap ℤ := do
  panicIf (¬InI128 (withdrawnValue * priceScaled)) PoolError.badAmount.trap
  pure ((withdrawnValue * priceScaled).tdiv priceScale)

theorem quotedFromPrice_floor {amount price : ℤ} (hamount : 0 ≤ amount)
    (hprice : 0 ≤ price) :
    quotedFromPrice amount price = amount * price / 10 ^ 9 :=
  Int.tdiv_eq_ediv_of_nonneg (mul_nonneg hamount hprice)

theorem output_eq (a : PricedIntent) :
    a.output = quotedFromPrice a.amount a.limitPriceScaled := rfl

theorem expectedOutput_ok {amount price output : ℤ} :
    expectedOutput amount price = .ok output
      ↔ InI128 (amount * price) ∧ output = quotedFromPrice amount price := by
  simp only [expectedOutput, bind_eq_ok, panicIf_eq_ok, pure_eq_ok,
    not_not, exists_and_left, exists_const]
  exact and_congr_right fun _ => eq_comm

/-- A match pays A the quote at its own limit price. -/
theorem match_output {a b : PricedIntent} {m : PricedMatch}
    (h : matchPricedPair a b = .ok (some m)) :
    m.matchedAmountB
      = toString (quotedFromPrice a.amount a.limitPriceScaled) := by
  obtain ⟨-, -, -, rfl⟩ := Committee.matchPricedPair_some.mp h
  rfl

/-- An accepted swap is quoted at the price its solver signed. -/
theorem swap_expected {L : Type} [TokenHost L] {env : Env} {ctx : Ctx}
    {a : AtomicSwapArgs} {w w' : World L}
    (h : rfqSettleAtomicSwap env ctx a w = .ok w') :
    expectedOutput (fr32ToI128 ((Call.rfqSettleAtomicSwap a).signal 2))
      a.priceScaled.toInt = .ok a.quotedOutput.toInt := by
  simp only [rfqSettleAtomicSwap, bind_eq_ok, panicIf_eq_ok, pure_eq_ok,
    sig_eq_ok, exists_and_left, exists_eq_left', exists_const, and_assoc,
    not_not, not_or, Pool.getAssetToken, orPanic_eq_ok] at h
  obtain ⟨_, -, -, -, -, -, -, _, -, -, signals, hparse, -, -, -, -, -, -,
    -, -, -, -, -, -, hfits, hprice, -⟩ := h
  obtain rfl := Call.signals_eq (c := .rfqSettleAtomicSwap a) rfl hparse
  exact expectedOutput_ok.mpr ⟨hfits, hprice⟩

-- ========================================================= the witness

/-- The arguments of the builder. -/
structure PricedParams where
  /-- party A's input note -/
  coinX : GeneratedCoin
  /-- party B's input note -/
  coinY : GeneratedCoin
  commitmentsDecimal : List String
  assocPath : String
  scope : String
  batchHashHex : String
  poolId : String
  chainId : String
  priceScaled : String
  minOutputA : String
  minOutputB : String
  deadlineLedger : String

/-- The six draws of one priced witness, in their order. -/
structure PricedDraws where
  outLabelA : BitVec 248
  outNullifierA : BitVec 248
  outSecretA : BitVec 248
  outLabelB : BitVec 248
  outNullifierB : BitVec 248
  outSecretB : BitVec 248

/-- The private inputs with suffix `A`, or those with suffix `B`. -/
structure PricedSide where
  label : String
  nullifier : String
  secret : String
  stateIndex : String
  stateSiblings : List String
  labelIndex : String
  labelSiblings : List String
  outLabel : String
  outNullifier : String
  outSecret : String
deriving DecidableEq

/-- The circuit's inputs. -/
structure PricedWitness where
  stateRoot : String
  associationRoot : String
  batchHash : String
  poolId : String
  chainId : String
  deadlineLedger : String
  inputAssetA : String
  outputAssetA : String
  inputAssetB : String
  outputAssetB : String
  matchedAmountA : String
  matchedAmountB : String
  priceScaled : String
  priceScale : String
  minOutputA : String
  minOutputB : String
  a : PricedSide
  b : PricedSide
deriving DecidableEq

/-- `BigInt(s)` -/
def toBigInt (s : String) : Except String ℤ :=
  orPanic ("Cannot convert " ++ s ++ " to a BigInt") (bigInt s)

/-- The inputs of one party. -/
def pricedSide (pre : NotePreimage) (paths : WithdrawPaths)
    (outLabel outNullifier outSecret : BitVec 248) : PricedSide where
  label := pre.label
  nullifier := pre.nullifier
  secret := pre.secret
  stateIndex := paths.stateIndex
  stateSiblings := paths.stateSiblings
  labelIndex := paths.labelIndex
  labelSiblings := paths.labelSiblings
  outLabel := randField outLabel
  outNullifier := randField outNullifier
  outSecret := randField outSecret

/-- The inputs, from two coin files and a match. -/
def buildMpcPricedWitness (tools : Tools) (d : PricedDraws)
    (p : PricedParams) : Except String PricedWitness := do
  let wX ← tools.withdraw p.coinX.path p.commitmentsDecimal p.scope
    p.assocPath
  let wY ← tools.withdraw p.coinY.path p.commitmentsDecimal p.scope
    p.assocPath
  let coinX ← tools.readCoin p.coinX.path
  let coinY ← tools.readCoin p.coinY.path
  let preX := coinX.preimage
  let preY := coinY.preimage
  let assetX := coinX.assetId
  let assetY := coinY.assetId
  panicIf (assetX = assetY)
    "priced settlement requires a genuine cross-asset (assetX != assetY)"
  let matchedA ← toBigInt preX.value
  let priceScaled ← toBigInt p.priceScaled
  let matchedB := matchedB matchedA priceScaled
  panicIf (toString matchedB ≠ preY.value)
    ("priced witness: coinY value " ++ preY.value
      ++ " != floor(matchedA*price/1e9)=" ++ toString matchedB
      ++ " (choose notes/price so they match)")
  let batchHash ← hashToField p.batchHashHex
  pure {
    stateRoot := wX.stateRoot
    associationRoot := wX.associationRoot
    batchHash
    poolId := p.poolId
    chainId := p.chainId
    deadlineLedger := p.deadlineLedger
    inputAssetA := assetX
    outputAssetA := assetY
    inputAssetB := assetY
    outputAssetB := assetX
    matchedAmountA := toString matchedA
    matchedAmountB := toString matchedB
    priceScaled := p.priceScaled
    priceScale := "1000000000"
    minOutputA := p.minOutputA
    minOutputB := p.minOutputB
    a := pricedSide preX wX d.outLabelA d.outNullifierA d.outSecretA
    b := pricedSide preY wY d.outLabelB d.outNullifierB d.outSecretB }

section

variable {tools : Tools} {d : PricedDraws} {p : PricedParams}
  {w : PricedWitness}

/-- A witness is priced by the quote of the first coin's value. -/
theorem witness_output (h : buildMpcPricedWitness tools d p = .ok w) :
    ∃ coin amount price, tools.readCoin p.coinX.path = .ok coin
      ∧ bigInt coin.preimage.value = some amount
      ∧ bigInt p.priceScaled = some price
      ∧ w.matchedAmountA = toString amount
      ∧ w.matchedAmountB = toString (quotedFromPrice amount price) := by
  simp only [buildMpcPricedWitness, toBigInt, bind_eq_ok, panicIf_eq_ok,
    pure_eq_ok, orPanic_eq_ok] at h
  obtain ⟨_, -, _, -, coin, hcoin, _, -, _, -, amount, hamount, price,
    hprice, _, -, _, -, rfl⟩ := h
  exact ⟨coin, amount, price, hcoin, hamount, hprice, rfl, rfl⟩

end

-- ====================================================== the comparators

/-- The circuit's constraints on the price and the minimum outputs. -/
structure PriceConstraints (s : MpcPricedSettlement) : Prop where
  scale : s.priceScale = 1000000000
  le : LessEqThan 128 (s.matchedAmountB * s.priceScale)
    (s.matchedAmountA * s.priceScaled)
  lt : LessThan 64 s.rem s.priceScale
  geA : GreaterEqThan 64 s.matchedAmountB s.minOutputA
  geB : GreaterEqThan 64 s.matchedAmountA s.minOutputB

/-- They are constraints of the circuit. -/
theorem PriceConstraints.ofSatisfied {H : List Fr → Fr}
    {treeDepth associationDepth : ℕ} {s : MpcPricedSettlement}
    (h : s.Satisfied H treeDepth associationDepth) :
    PriceConstraints s :=
  ⟨h.scale, h.le, h.lt, h.geA, h.geB⟩

/-- The floor of a 64-bit amount at a 64-bit price, with minimum outputs
it meets, passes the four comparators. -/
theorem PriceConstraints.ofFloor {s : MpcPricedSettlement}
    {amount price output minA minB : ℕ} (hamount : amount < 2 ^ 64)
    (hprice : price < 2 ^ 64) (houtput : output < 2 ^ 64)
    (hfloor : output = amount * price / 10 ^ 9) (hminA : minA ≤ output)
    (hminB : minB ≤ amount) (hA : s.matchedAmountA = amount)
    (hB : s.matchedAmountB = output) (hp : s.priceScaled = price)
    (hscale : s.priceScale = ((10 ^ 9 : ℕ) : Fr))
    (hmA : s.minOutputA = minA) (hmB : s.minOutputB = minB) :
    PriceConstraints s := by
  have hprod : amount * price < 2 ^ 128 := by
    calc amount * price < 2 ^ 64 * 2 ^ 64 :=
          Nat.mul_lt_mul'' hamount hprice
      _ = 2 ^ 128 := by decide
  have hle : output * 10 ^ 9 ≤ amount * price := by
    rw [hfloor]
    exact Nat.div_mul_le_self _ _
  have hrem : amount * price - output * 10 ^ 9 < 10 ^ 9 := by omega
  refine ⟨?_, ?_, ?_, ?_, ?_⟩
  · rw [hscale]
    rfl
  · unfold LessEqThan
    rw [hA, hB, hp, hscale, ← Nat.cast_mul, ← Nat.cast_mul,
      ← Nat.cast_succ]
    exact lessThan_of_lt (by decide) hprod (by omega)
  · unfold MpcPricedSettlement.rem
    rw [hA, hB, hp, hscale, ← Nat.cast_mul, ← Nat.cast_mul,
      ← Nat.cast_sub hle]
    exact lessThan_of_lt (by decide) (by decide) hrem
  · rw [hB, hmA]
    exact greaterEqThan_of_le (by decide) houtput hminA
  · rw [hA, hmB]
    exact greaterEqThan_of_le (by decide) hamount hminB

-- ========================================================== the matches

/-- A match's texts are read as an assignment's public signals. -/
structure ReadsMatch (m : PricedMatch) (s : MpcPricedSettlement) :
    Prop where
  matchedAmountA : signal m.matchedAmountA = some s.matchedAmountA
  matchedAmountB : signal m.matchedAmountB = some s.matchedAmountB
  priceScaled : signal m.priceScaled = some s.priceScaled
  priceScale : signal "1000000000" = some s.priceScale
  minOutputA : signal m.minOutputA = some s.minOutputA
  minOutputB : signal m.minOutputB = some s.minOutputB

/-- A match whose numbers are natural and fit in 64 bits. -/
structure Fits64 (a b : PricedIntent) : Prop where
  amount : 0 ≤ a.amount ∧ a.amount < 2 ^ 64
  price : 0 ≤ a.limitPriceScaled ∧ a.limitPriceScaled < 2 ^ 64
  output : a.output < 2 ^ 64
  minOutputA : 0 ≤ a.minOutput ∧ a.minOutput < 2 ^ 64
  minOutputB : 0 ≤ b.minOutput ∧ b.minOutput < 2 ^ 64

theorem signal_toString_nonneg {z : ℤ} {x : Fr} (hz : 0 ≤ z)
    (h : signal (toString z) = some x) : x = ((z.toNat : ℕ) : Fr) := by
  obtain ⟨n, rfl⟩ := Int.eq_ofNat_of_zero_le hz
  change signal (toString n) = some x at h
  rw [signal_toString] at h
  exact (Option.some.inj h).symm

/-- Every match of 64-bit values is provable as far as its price and its
minimum outputs go. -/
theorem PriceConstraints.ofMatch {a b : PricedIntent} {m : PricedMatch}
    {s : MpcPricedSettlement} (hm : matchPricedPair a b = .ok (some m))
    (hfits : Fits64 a b) (hreads : ReadsMatch m s) :
    PriceConstraints s := by
  obtain ⟨hmeets, -, -, rfl⟩ := Committee.matchPricedPair_some.mp hm
  obtain ⟨hamount, hamount64⟩ := hfits.amount
  obtain ⟨hprice, hprice64⟩ := hfits.price
  have hfloor := quotedFromPrice_floor hamount hprice
  rw [← output_eq] at hfloor
  have hprod : 0 ≤ a.amount * a.limitPriceScaled :=
    mul_nonneg hamount hprice
  have houtput : 0 ≤ a.output := by omega
  have hfits' := hfits.output
  have hminA := hmeets.minOutputA
  have hminB := hmeets.minOutputB
  have hdiv : a.output.toNat
      = a.amount.toNat * a.limitPriceScaled.toNat / 10 ^ 9 := by
    apply Int.natCast_inj.mp
    rw [Int.toNat_of_nonneg houtput, hfloor, Int.natCast_ediv,
      Int.natCast_mul, Int.toNat_of_nonneg hamount,
      Int.toNat_of_nonneg hprice]
    rfl
  have hsignals := fun {z : ℤ} {x : Fr} (hz : 0 ≤ z) =>
    signal_toString_nonneg (z := z) (x := x) hz
  exact PriceConstraints.ofFloor (by omega) (by omega) (by omega) hdiv
    (Int.toNat_le_toNat hminA) (Int.toNat_le_toNat hminB)
    (hsignals hamount hreads.matchedAmountA)
    (hsignals houtput hreads.matchedAmountB)
    (hsignals hprice hreads.priceScaled)
    (hsignals (z := 1000000000) (by decide) hreads.priceScale)
    (hsignals hfits.minOutputA.1 hreads.minOutputA)
    (hsignals hfits.minOutputB.1 hreads.minOutputB)

/-- One price rule: the four computations give the floor, in their
functions as by themselves, and a match of 64-bit values satisfies the
circuit's constraints on it. -/
theorem one_price_rule :
    (∀ amount price : ℤ, 0 ≤ amount → 0 ≤ price →
      quotedFromPrice amount price = amount * price / 10 ^ 9
        ∧ matchedB amount price = quotedFromPrice amount price
        ∧ (InI128 (amount * price) → expectedOutput amount price
          = .ok (quotedFromPrice amount price)))
      ∧ (∀ (a b : PricedIntent) (m : PricedMatch),
        matchPricedPair a b = .ok (some m) → m.matchedAmountB
          = toString (quotedFromPrice a.amount a.limitPriceScaled))
      ∧ (∀ (tools : Tools) (d : PricedDraws) (p : PricedParams)
        (w : PricedWitness), buildMpcPricedWitness tools d p = .ok w →
        ∃ coin amount price, tools.readCoin p.coinX.path = .ok coin
          ∧ bigInt coin.preimage.value = some amount
          ∧ bigInt p.priceScaled = some price
          ∧ w.matchedAmountA = toString amount
          ∧ w.matchedAmountB = toString (quotedFromPrice amount price))
      ∧ (∀ (L : Type) [TokenHost L] (env : Env) (ctx : Ctx)
        (a : AtomicSwapArgs) (w w' : World L),
        rfqSettleAtomicSwap env ctx a w = .ok w' →
        expectedOutput (fr32ToI128 ((Call.rfqSettleAtomicSwap a).signal 2))
          a.priceScaled.toInt = .ok a.quotedOutput.toInt)
      ∧ ∀ (a b : PricedIntent) (m : PricedMatch) (s : MpcPricedSettlement),
        matchPricedPair a b = .ok (some m) → Fits64 a b →
        ReadsMatch m s → PriceConstraints s := by
  refine ⟨?_, fun a b m => match_output, fun tools d p w => witness_output,
    fun L _ env ctx a w w' => swap_expected,
    fun a b m s => PriceConstraints.ofMatch⟩
  intro amount price hamount hprice
  exact ⟨quotedFromPrice_floor hamount hprice, rfl,
    fun hfits => expectedOutput_ok.mpr ⟨hfits, rfl⟩⟩

/-- The match of `seller` and `buyer`: four million at one half are two
million, and the circuit accepts them. -/
theorem one_price_rule_crossing :
    expectedOutput 4000000 500000000 = .ok 2000000
      ∧ ∀ s : MpcPricedSettlement,
        ReadsMatch (PricedMatch.of Committee.seller Committee.buyer) s →
        PriceConstraints s := by
  obtain ⟨hrule, -, -, -, hmatch⟩ := one_price_rule
  obtain ⟨-, -, hexpected⟩ :=
    hrule 4000000 500000000 (by decide) (by decide)
  refine ⟨hexpected (by decide), fun s hreads => ?_⟩
  apply hmatch Committee.seller Committee.buyer _ s _ _ hreads
  · exact Committee.matchPricedPair_some.mpr
      ⟨by decide, by decide, by decide, rfl⟩
  · exact ⟨by decide, by decide, by decide, by decide, by decide⟩

end Lumix.Proving
