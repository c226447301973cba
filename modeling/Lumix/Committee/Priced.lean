/-
Priced cross-asset matching: `matchPricedPair` and the greedy
`matchPricedIntents` of the coordinator.

A pair is settled at the first intent's limit price, in full. The price
rule floors, so the first party gets the floor of its limit; the second
party's rate is floored again before it is compared, and it gets at
least its limit (`fills_within_limits`). That rate is a quotient by the
second amount, which the guards before it let be zero
(`DividesByZero`).

The loops are the greedy pairing of the library wherever they return
(`matchPricedIntents_ok`): that gives when they do (`returns_iff`), and
what they return (`priced_pairs`).
-/
import Mathlib.Algebra.Order.Ring.Int
import Mathlib.Data.Int.Notation
import Lumix.Lib.Exec
import Lumix.Lib.Greedy

namespace Lumix.Committee

open Exec

-- ============================================================ one pair

/-- An intent with a limit price. -/
structure PricedIntent where
  intentId : String
  inputAsset : String
  outputAsset : String
  amount : ℤ
  minOutput : ℤ
  limitPriceScaled : ℤ
deriving DecidableEq

/-- A match at a price. -/
structure PricedMatch where
  intentAId : String
  intentBId : String
  inputAssetA : String
  outputAssetA : String
  inputAssetB : String
  outputAssetB : String
  matchedAmountA : String
  matchedAmountB : String
  priceScaled : String
  minOutputA : String
  minOutputB : String
deriving DecidableEq

/-- `PRICE_SCALE` -/
def priceScale : ℤ := 1000000000

/-- `n / d` on big integers. -/
def bigDiv (n d : ℤ) : Except String ℤ :=
  if d = 0 then .error "Division by zero" else .ok (n.tdiv d)

/-- `outputForA`: what A gets at its own limit price. -/
def PricedIntent.output (a : PricedIntent) : ℤ :=
  (a.amount * a.limitPriceScaled).tdiv priceScale

/-- Whether two intents cross, and at what rate. -/
def matchPricedPair (a b : PricedIntent) :
    Except String (Option PricedMatch) :=
  if a.inputAsset ≠ b.outputAsset then .ok none
  else if a.outputAsset ≠ b.inputAsset then .ok none
  else if a.inputAsset = a.outputAsset then .ok none
  else
    let outputForA := a.output
    let outputForB := a.amount
    if b.amount ≠ outputForA then .ok none
    else if outputForA < a.minOutput then .ok none
    else if outputForB < b.minOutput then .ok none
    else do
      let rateForB ← bigDiv (outputForB * priceScale) b.amount
      if rateForB < b.limitPriceScaled then pure none
      else pure (some {
        intentAId := a.intentId
        intentBId := b.intentId
        inputAssetA := a.inputAsset
        outputAssetA := a.outputAsset
        inputAssetB := b.inputAsset
        outputAssetB := b.outputAsset
        matchedAmountA := toString a.amount
        matchedAmountB := toString outputForA
        priceScaled := toString a.limitPriceScaled
        minOutputA := toString a.minOutput
        minOutputB := toString b.minOutput })

-- =============================================================== loops

/-- The inner loop over `j`. -/
def findCounterparty (a : PricedIntent × ℕ) (used : List String) :
    List (PricedIntent × ℕ) →
      Except String (Option (PricedIntent × PricedMatch))
  | [] => .ok none
  | b :: rest =>
      if a.2 = b.2 ∨ b.1.intentId ∈ used ∨ a.1.intentId ∈ used then
        findCounterparty a used rest
      else do
        match ← matchPricedPair a.1 b.1 with
        | some m => pure (some (b.1, m))
        | none => findCounterparty a used rest

/-- One pass of the outer loop over `i`. -/
def leadPriced (intents : List (PricedIntent × ℕ))
    (s : Greedy.State String PricedMatch) (a : PricedIntent × ℕ) :
    Except String (Greedy.State String PricedMatch) :=
  if a.1.intentId ∈ s.used then .ok s
  else do
    match ← findCounterparty a s.used intents with
    | some (b, m) =>
        pure ⟨s.out ++ [m], s.used ++ [a.1.intentId, b.intentId]⟩
    | none => pure s

/-- Each intent in turn leads against those after it. -/
def matchPricedIntents (intents : List PricedIntent) :
    Except String (List PricedMatch) := do
  let s ← intents.zipIdx.foldlM (leadPriced intents.zipIdx)
    Greedy.State.empty
  pure s.out

-- ========================================================== one pair

/-- The guards before the division. -/
@[mk_iff]
structure Meets (a b : PricedIntent) : Prop where
  inputAsset : a.inputAsset = b.outputAsset
  outputAsset : a.outputAsset = b.inputAsset
  crossAsset : a.inputAsset ≠ a.outputAsset
  size : b.amount = a.output
  minOutputA : a.minOutput ≤ a.output
  minOutputB : b.minOutput ≤ a.amount

instance (a b : PricedIntent) : Decidable (Meets a b) :=
  decidable_of_iff _ (meets_iff a b).symm

/-- The division is reached and its divisor is zero. -/
def DividesByZero (a b : PricedIntent) : Prop := Meets a b ∧ b.amount = 0

instance (a b : PricedIntent) : Decidable (DividesByZero a b) :=
  inferInstanceAs (Decidable (_ ∧ _))

/-- The match of a pair that crosses. -/
def PricedMatch.of (a b : PricedIntent) : PricedMatch where
  intentAId := a.intentId
  intentBId := b.intentId
  inputAssetA := a.inputAsset
  outputAssetA := a.outputAsset
  inputAssetB := b.inputAsset
  outputAssetB := b.outputAsset
  matchedAmountA := toString a.amount
  matchedAmountB := toString a.output
  priceScaled := toString a.limitPriceScaled
  minOutputA := toString a.minOutput
  minOutputB := toString b.minOutput

/-- B's limit accepts the rate it gets. -/
def RateAccepted (a b : PricedIntent) : Prop :=
  b.limitPriceScaled ≤ (a.amount * priceScale).tdiv b.amount

instance (a b : PricedIntent) : Decidable (RateAccepted a b) :=
  inferInstanceAs (Decidable (_ ≤ _))

/-- The pair's cases: it does not meet, divides by zero, is not accepted
or matches. -/
theorem matchPricedPair_eq (a b : PricedIntent) :
    matchPricedPair a b
      = if Meets a b then
          if b.amount = 0 then .error "Division by zero"
          else if RateAccepted a b then .ok (some (PricedMatch.of a b))
          else .ok none
        else .ok none := by
  by_cases h : Meets a b
  · rw [if_pos h]
    have hsize : ¬b.amount ≠ a.output := not_not.mpr h.size
    unfold matchPricedPair bigDiv
    simp only [if_neg (not_not.mpr h.inputAsset),
      if_neg (not_not.mpr h.outputAsset), if_neg h.crossAsset,
      if_neg hsize, if_neg (not_lt.mpr h.minOutputA),
      if_neg (not_lt.mpr h.minOutputB)]
    by_cases hzero : b.amount = 0
    · rw [if_pos hzero, if_pos hzero]
      rfl
    · rw [if_neg hzero, if_neg hzero]
      by_cases hrate : RateAccepted a b
      · rw [if_pos hrate]
        exact if_neg (not_lt.mpr hrate)
      · rw [if_neg hrate]
        exact if_pos (not_le.mp hrate)
  · rw [if_neg h]
    unfold matchPricedPair
    by_cases h1 : a.inputAsset = b.outputAsset
    · by_cases h2 : a.outputAsset = b.inputAsset
      · by_cases h3 : a.inputAsset = a.outputAsset
        · rw [if_neg (not_not.mpr h1), if_neg (not_not.mpr h2), if_pos h3]
        · by_cases h4 : b.amount = a.output
          · by_cases h5 : a.output < a.minOutput
            · simp [h1, h2, h4, h5]
            · by_cases h6 : a.amount < b.minOutput
              · simp [h1, h2, h4, h6]
              · exact absurd
                  ⟨h1, h2, h3, h4, not_lt.mp h5, not_lt.mp h6⟩ h
          · simp [h4]
      · simp [h2]
    · simp [h1]

/-- When there is a match, and which. -/
theorem matchPricedPair_some {a b : PricedIntent} {m : PricedMatch} :
    matchPricedPair a b = .ok (some m)
      ↔ Meets a b ∧ b.amount ≠ 0 ∧ RateAccepted a b
        ∧ m = PricedMatch.of a b := by
  rw [matchPricedPair_eq]
  by_cases h : Meets a b <;> by_cases hzero : b.amount = 0 <;>
    by_cases hrate : RateAccepted a b <;> simp [h, hzero, hrate, eq_comm]

/-- A pair raises exactly when the division does. -/
theorem matchPricedPair_error {a b : PricedIntent} {e : String} :
    matchPricedPair a b = .error e
      ↔ DividesByZero a b ∧ e = "Division by zero" := by
  unfold DividesByZero
  rw [matchPricedPair_eq]
  by_cases h : Meets a b <;> by_cases hzero : b.amount = 0 <;>
    by_cases hrate : RateAccepted a b <;> simp [h, hzero, hrate, eq_comm]

-- ============================================================== limits

/-- A floored rate that reaches a limit does so before it is floored. -/
theorem le_mul_of_le_tdiv {n d q : ℤ} (hn : 0 ≤ n) (hd : 0 < d)
    (h : q ≤ n.tdiv d) : q * d ≤ n := by
  rw [Int.tdiv_eq_ediv_of_nonneg hn] at h
  exact (Int.le_ediv_iff_mul_le hd).mp h

/-- What A gets is the floor of its limit. -/
theorem output_floor {a : PricedIntent} (hamount : 0 ≤ a.amount)
    (hlimit : 0 ≤ a.limitPriceScaled) :
    a.output * priceScale ≤ a.amount * a.limitPriceScaled
      ∧ a.amount * a.limitPriceScaled < (a.output + 1) * priceScale := by
  have hprod : 0 ≤ a.amount * a.limitPriceScaled :=
    mul_nonneg hamount hlimit
  have hfloor : a.output = a.amount * a.limitPriceScaled / priceScale :=
    Int.tdiv_eq_ediv_of_nonneg hprod
  unfold priceScale at hfloor ⊢
  omega

/-- A match fills both intents in full and meets both minimum outputs.
B gets at least its limit rate. A gets its limit rounded down to a whole
unit, which is at least its limit rate exactly when nothing is rounded
off. -/
theorem fills_within_limits {a b : PricedIntent} {m : PricedMatch}
    (ha : 0 ≤ a.amount) (hb : 0 ≤ b.amount) (hla : 0 ≤ a.limitPriceScaled)
    (hm : matchPricedPair a b = .ok (some m)) :
    m.matchedAmountA = toString a.amount
      ∧ m.matchedAmountB = toString b.amount
      ∧ a.minOutput ≤ b.amount ∧ b.minOutput ≤ a.amount
      ∧ b.limitPriceScaled * b.amount ≤ a.amount * 10 ^ 9
      ∧ b.amount * 10 ^ 9 ≤ a.limitPriceScaled * a.amount
      ∧ a.limitPriceScaled * a.amount < (b.amount + 1) * 10 ^ 9
      ∧ (a.limitPriceScaled * a.amount ≤ b.amount * 10 ^ 9
        ↔ 10 ^ 9 ∣ a.limitPriceScaled * a.amount) := by
  obtain ⟨hmeets, hzero, hrate, rfl⟩ := matchPricedPair_some.mp hm
  obtain ⟨hle, hlt⟩ := output_floor ha hla
  rw [← hmeets.size, mul_comm a.amount] at hle hlt
  have hpos : 0 < b.amount := by omega
  have hbound := le_mul_of_le_tdiv (mul_nonneg ha (by decide)) hpos hrate
  unfold priceScale at hle hlt hbound
  refine ⟨rfl, ?_, ?_, hmeets.minOutputB, by omega, by omega, by omega, ?_⟩
  · rw [hmeets.size]
    rfl
  · rw [hmeets.size]
    exact hmeets.minOutputA
  · omega

section Example

/-- Spends 4 USDC for XLM, at half an XLM a USDC. -/
def seller : PricedIntent :=
  ⟨"A", "usdc-asset", "xlm-asset", 4000000, 1900000, 500000000⟩

/-- Spends 2 XLM for USDC. -/
def buyer : PricedIntent :=
  ⟨"B", "xlm-asset", "usdc-asset", 2000000, 3900000, 2000000000⟩

/-- Three units, at a limit of one half. -/
def odd : PricedIntent := { seller with amount := 3, minOutput := 0 }

/-- One unit. -/
def unit : PricedIntent := { buyer with amount := 1, minOutput := 0 }

/-- These two match, and the rate is rounded. -/
theorem odd_unit :
    matchPricedPair odd unit = .ok (some (PricedMatch.of odd unit)) :=
  matchPricedPair_some.mpr ⟨by decide, by decide, by decide, rfl⟩

/-- The first two cross with nothing rounded off, the second two with
half a unit. -/
theorem fills_within_limits_crossing :
    (matchPricedPair seller buyer = .ok (some (PricedMatch.of seller buyer))
      ∧ seller.limitPriceScaled * seller.amount ≤ buyer.amount * 10 ^ 9)
      ∧ unit.limitPriceScaled * unit.amount ≤ odd.amount * 10 ^ 9
      ∧ odd.limitPriceScaled * odd.amount < (unit.amount + 1) * 10 ^ 9
      ∧ ¬odd.limitPriceScaled * odd.amount ≤ unit.amount * 10 ^ 9 := by
  have hm : matchPricedPair seller buyer
      = .ok (some (PricedMatch.of seller buyer)) :=
    matchPricedPair_some.mpr ⟨by decide, by decide, by decide, rfl⟩
  obtain ⟨-, -, -, -, -, -, -, hexact⟩ :=
    fills_within_limits (by decide) (by decide) (by decide) hm
  obtain ⟨-, -, -, -, hb, -, ha, hrounded⟩ :=
    fills_within_limits (by decide) (by decide) (by decide) odd_unit
  exact ⟨⟨hm, hexact.mpr (by decide)⟩, hb, ha,
    hrounded.not.mpr (by decide)⟩

/-- Three units at a limit of one half are filled with one, where the
limit asks for one and a half. -/
theorem filled_below_limit :
    ∃ a b m, 0 ≤ a.amount ∧ 0 ≤ b.amount ∧ 0 ≤ a.limitPriceScaled
      ∧ 0 ≤ b.limitPriceScaled ∧ matchPricedPair a b = .ok (some m)
      ∧ m.matchedAmountA = toString a.amount
      ∧ m.matchedAmountB = toString b.amount
      ∧ ¬a.limitPriceScaled * a.amount ≤ b.amount * 10 ^ 9 :=
  ⟨odd, unit, PricedMatch.of odd unit, by decide, by decide, by decide,
    by decide, odd_unit, rfl, rfl, by decide⟩

end Example

-- ============================================================= one turn

/-- What a pair gives where it does not raise. -/
def crossing (a b : PricedIntent) : Option PricedMatch :=
  match matchPricedPair a b with
  | .ok m => m
  | .error _ => none

/-- Crossing is matching without an error. -/
theorem crossing_eq_some {a b : PricedIntent} {m : PricedMatch} :
    crossing a b = some m ↔ matchPricedPair a b = .ok (some m) := by
  unfold crossing
  cases matchPricedPair a b with
  | ok m' => simp
  | error e => simp

/-- A pair whose division raises keeps its first intent from leading any
match: what it would get is zero. -/
theorem Meets.not_dividesByZero {a b c : PricedIntent} (h : Meets a b)
    (hb : b.amount ≠ 0) : ¬DividesByZero a c := by
  rintro ⟨hmeets, hzero⟩
  apply hb
  rw [h.size, ← hmeets.size, hzero]

/-- The inner loop returns exactly when no unused counterparty makes the
division raise, and then it returns the first that crosses. -/
theorem findCounterparty_ok {a : PricedIntent × ℕ} {used : List String}
    (hfree : a.1.intentId ∉ used) {l : List (PricedIntent × ℕ)}
    {r : Option (PricedIntent × PricedMatch)} :
    findCounterparty a used l = .ok r
      ↔ (∀ b ∈ l, a.2 ≠ b.2 → b.1.intentId ∉ used →
          ¬DividesByZero a.1 b.1)
        ∧ r = Greedy.partner PricedIntent.intentId crossing a used l := by
  induction l with
  | nil => simp [findCounterparty, Greedy.partner, eq_comm]
  | cons c rest ih =>
      rw [List.forall_mem_cons, findCounterparty, Greedy.partner]
      by_cases hskip : a.2 = c.2 ∨ c.1.intentId ∈ used
      · have hskip' : a.2 = c.2 ∨ c.1.intentId ∈ used
            ∨ a.1.intentId ∈ used := by
          rcases hskip with hskip | hskip
          · exact Or.inl hskip
          · exact Or.inr (Or.inl hskip)
        rw [if_pos hskip', if_pos hskip, ih]
        refine and_congr_left fun _ => (and_iff_right ?_).symm
        intro hne hc
        exact absurd hskip (not_or.mpr ⟨hne, hc⟩)
      · obtain ⟨hne, hc⟩ := not_or.mp hskip
        rw [if_neg (by simp [hne, hc, hfree]), if_neg hskip]
        cases hpair : matchPricedPair a.1 c.1 with
        | error e =>
            obtain ⟨hzero, -⟩ := matchPricedPair_error.mp hpair
            refine iff_of_false (by simp [bind, Except.bind]) ?_
            rintro ⟨⟨hhead, -⟩, -⟩
            exact hhead hne hc hzero
        | ok m =>
            have hhead : ¬DividesByZero a.1 c.1 := by
              intro hzero
              rw [matchPricedPair_error.mpr ⟨hzero, rfl⟩] at hpair
              cases hpair
            have hcross : crossing a.1 c.1 = m := by
              unfold crossing
              rw [hpair]
            cases m with
            | none =>
                show findCounterparty a used rest = .ok r ↔ _
                rw [hcross, ih]
                exact and_congr_left fun _ =>
                  (and_iff_right fun _ _ => hhead).symm
            | some m =>
                obtain ⟨hmeets, hamount, -⟩ :=
                  matchPricedPair_some.mp hpair
                show (Except.ok (some (c.1, m)) : Except String _) = .ok r
                  ↔ _
                rw [hcross]
                have hall : ∀ b ∈ rest, a.2 ≠ b.2 →
                    b.1.intentId ∉ used → ¬DividesByZero a.1 b.1 :=
                  fun b _ _ _ => hmeets.not_dividesByZero hamount
                simp only [Except.ok.injEq, hhead, not_false_eq_true,
                  implies_true, true_and, eq_comm]
                exact (and_iff_right hall).symm

/-- The turn of an intent goes well: it is used already, or no unused
counterparty makes the division raise. -/
def TurnOk (intents : List (PricedIntent × ℕ))
    (s : Greedy.State String PricedMatch) (a : PricedIntent × ℕ) : Prop :=
  a.1.intentId ∉ s.used → ∀ b ∈ intents, a.2 ≠ b.2 →
    b.1.intentId ∉ s.used → ¬DividesByZero a.1 b.1

/-- A lead that raises nothing is the greedy one. -/
theorem leadPriced_ok {intents : List (PricedIntent × ℕ)}
    (s : Greedy.State String PricedMatch) (a : PricedIntent × ℕ)
    (t : Greedy.State String PricedMatch) :
    leadPriced intents s a = .ok t
      ↔ TurnOk intents s a
        ∧ t = Greedy.lead PricedIntent.intentId crossing intents s a := by
  unfold leadPriced TurnOk Greedy.lead
  by_cases hused : a.1.intentId ∈ s.used
  · simp [hused, eq_comm]
  · rw [if_neg hused, if_neg hused, bind_eq_ok]
    simp only [findCounterparty_ok hused, hused, not_false_eq_true,
      forall_true_left]
    constructor
    · rintro ⟨r, ⟨hall, rfl⟩, ht⟩
      refine ⟨hall, ?_⟩
      cases hpartner : Greedy.partner PricedIntent.intentId crossing a
          s.used intents with
      | none =>
          rw [hpartner] at ht
          exact (pure_eq_ok.mp ht).symm
      | some bm =>
          rw [hpartner] at ht
          exact (pure_eq_ok.mp ht).symm
    · rintro ⟨hall, rfl⟩
      refine ⟨_, ⟨hall, rfl⟩, ?_⟩
      cases Greedy.partner PricedIntent.intentId crossing a s.used intents
        with
      | none => rfl
      | some bm => rfl

-- ============================================================ whole runs

/-- The matching returns exactly when every turn goes well, and then it
returns the greedy pairing. -/
theorem matchPricedIntents_ok {intents : List PricedIntent}
    {out : List PricedMatch} :
    matchPricedIntents intents = .ok out
      ↔ (∀ before a after, intents.zipIdx = before ++ a :: after →
          TurnOk intents.zipIdx (Greedy.leads PricedIntent.intentId
            crossing intents.zipIdx before) a)
        ∧ out
          = (Greedy.run PricedIntent.intentId crossing intents).out := by
  unfold matchPricedIntents
  rw [bind_eq_ok]
  simp only [foldlM_eq_ok leadPriced_ok, pure_eq_ok]
  constructor
  · rintro ⟨s, ⟨hturns, rfl⟩, rfl⟩
    exact ⟨hturns, rfl⟩
  · rintro ⟨hturns, rfl⟩
    exact ⟨_, ⟨hturns, rfl⟩, rfl⟩

/-- The ids consumed when all of `before` have had their turn. -/
def usedBefore (intents before : List PricedIntent) : List String :=
  (Greedy.leads PricedIntent.intentId crossing intents.zipIdx
    before.zipIdx).used

/-- The other positions of a list. -/
theorem mem_zipIdx_ne {before after : List PricedIntent}
    {a : PricedIntent} {b : PricedIntent × ℕ} :
    b ∈ (before ++ a :: after).zipIdx ∧ before.length ≠ b.2
      ↔ b ∈ before.zipIdx
        ∨ b ∈ after.zipIdx (before.length + 1) := by
  rw [List.zipIdx_append, List.zipIdx_cons, Nat.zero_add,
    List.mem_append, List.mem_cons]
  constructor
  · rintro ⟨hb | rfl | hb, hne⟩
    · exact Or.inl hb
    · exact absurd rfl hne
    · exact Or.inr hb
  · rintro (hb | hb)
    · have hlt := List.snd_lt_of_mem_zipIdx hb
      exact ⟨Or.inl hb, by omega⟩
    · have hle := List.le_snd_of_mem_zipIdx hb
      exact ⟨Or.inr (Or.inr hb), by omega⟩

/-- A turn in words of the list itself. -/
theorem turnOk_iff {before after : List PricedIntent} {a : PricedIntent} :
    TurnOk (before ++ a :: after).zipIdx (Greedy.leads
        PricedIntent.intentId crossing (before ++ a :: after).zipIdx
        before.zipIdx) (a, before.length)
      ↔ (a.intentId ∉ usedBefore (before ++ a :: after) before →
        ∀ b ∈ before ++ after,
          b.intentId ∉ usedBefore (before ++ a :: after) before →
          ¬DividesByZero a b) := by
  refine imp_congr_right fun _ => ?_
  constructor
  · intro h b hb hfree
    have hnumber : ∀ (l : List PricedIntent) (k : ℕ), b ∈ l →
        ∃ i, (b, i) ∈ l.zipIdx k := by
      intro l k hl
      rw [← List.zipIdx_map_fst k l] at hl
      obtain ⟨⟨b', i⟩, hmem, rfl⟩ := List.mem_map.mp hl
      exact ⟨i, hmem⟩
    obtain ⟨i, hi⟩ : ∃ i, (b, i) ∈ before.zipIdx
        ∨ (b, i) ∈ after.zipIdx (before.length + 1) := by
      rcases List.mem_append.mp hb with hb | hb
      · obtain ⟨i, hi⟩ := hnumber before 0 hb
        exact ⟨i, Or.inl hi⟩
      · obtain ⟨i, hi⟩ := hnumber after (before.length + 1) hb
        exact ⟨i, Or.inr hi⟩
    obtain ⟨hmem, hne⟩ := mem_zipIdx_ne.mpr hi
    exact h (b, i) hmem hne hfree
  · intro h b hb hne hfree
    apply h b.1 _ hfree
    rcases mem_zipIdx_ne.mp ⟨hb, hne⟩ with hb | hb
    · exact List.mem_append_left _ (List.fst_mem_of_mem_zipIdx hb)
    · exact List.mem_append_right _ (List.fst_mem_of_mem_zipIdx hb)

/-- The matching returns exactly when no intent, on its turn and not yet
consumed, meets another not yet consumed intent whose amount is zero and
which passes every guard before the division. -/
theorem returns_iff (intents : List PricedIntent) :
    (∃ out, matchPricedIntents intents = .ok out)
      ↔ ∀ before a after, intents = before ++ a :: after →
        a.intentId ∉ usedBefore intents before →
        ∀ b ∈ before ++ after, b.intentId ∉ usedBefore intents before →
          ¬DividesByZero a b := by
  constructor
  · rintro ⟨out, hout⟩ before a after rfl
    obtain ⟨hturns, -⟩ := matchPricedIntents_ok.mp hout
    apply turnOk_iff.mp
    apply hturns before.zipIdx (a, before.length)
      (after.zipIdx (before.length + 1))
    rw [List.zipIdx_append, List.zipIdx_cons, Nat.zero_add]
  · intro h
    refine ⟨_, matchPricedIntents_ok.mpr ⟨?_, rfl⟩⟩
    intro before a after hsplit
    -- a split of the numbered list is one of the list
    obtain ⟨pre, rest, rfl, rfl, hrest⟩ :=
      List.zipIdx_eq_append_iff.mp hsplit
    obtain ⟨x, post, rfl, rfl, -⟩ := List.zipIdx_eq_cons_iff.mp hrest.symm
    rw [Nat.zero_add]
    exact turnOk_iff.mpr (h pre x post rfl)

/-- Two intents that trade nothing: the first asks nothing for its one
unit, the second has nothing to spend. They keep `seller` and `buyer`
from being matched. -/
def degenerate : List PricedIntent := [
  ⟨"X", "usdc-asset", "xlm-asset", 1, 0, 0⟩,
  ⟨"Y", "xlm-asset", "usdc-asset", 0, 0, 0⟩,
  seller,
  buyer]

/-- Nothing is negative here, and yet it raises. -/
theorem degenerate_raises :
    (∀ i ∈ degenerate, 0 ≤ i.amount ∧ 0 ≤ i.minOutput
      ∧ 0 ≤ i.limitPriceScaled)
      ∧ ¬∃ out, matchPricedIntents degenerate = .ok out := by
  have hraise : matchPricedIntents degenerate
      = .error "Division by zero" := rfl
  refine ⟨by decide, ?_⟩
  rintro ⟨out, hout⟩
  rw [hraise] at hout
  cases hout

/-- Where all amounts are positive the matching returns. -/
theorem returns_of_pos {intents : List PricedIntent}
    (hpos : ∀ i ∈ intents, 0 < i.amount) :
    matchPricedIntents intents
      = .ok (Greedy.run PricedIntent.intentId crossing intents).out := by
  apply matchPricedIntents_ok.mpr
  refine ⟨?_, rfl⟩
  intro before a after _ _ b hb _ _
  rintro ⟨-, hzero⟩
  have hamount := hpos b.1 (List.fst_mem_of_mem_zipIdx hb)
  omega

/-- A pair that does not cross is refused, where its second amount is
positive. -/
theorem matchPricedPair_none {a b : PricedIntent} (hpos : 0 < b.amount)
    (h : crossing a b = none) : matchPricedPair a b = .ok none := by
  cases hpair : matchPricedPair a b with
  | error e =>
      obtain ⟨⟨-, hzero⟩, -⟩ := matchPricedPair_error.mp hpair
      omega
  | ok m =>
      unfold crossing at h
      rw [hpair] at h
      rw [← h]

/-- The two ids a match consumes. -/
def PricedMatch.ids (m : PricedMatch) : List String :=
  [m.intentAId, m.intentBId]

/-- The matches are crossings of two different intents each, no id is in
two of them, and no two intents left over cross in either order. -/
theorem priced_pairs {intents : List PricedIntent}
    (hids : (intents.map PricedIntent.intentId).Nodup)
    (hpos : ∀ i ∈ intents, 0 < i.amount) :
    ∃ out, matchPricedIntents intents = .ok out
      ∧ (∀ m ∈ out, ∃ a ∈ intents, ∃ b ∈ intents,
        a.intentId ≠ b.intentId ∧ matchPricedPair a b = .ok (some m))
      ∧ (out.flatMap PricedMatch.ids).Nodup
      ∧ ∀ x ∈ intents, ∀ y ∈ intents, x ≠ y →
        x.intentId ∉ out.flatMap PricedMatch.ids →
        y.intentId ∉ out.flatMap PricedMatch.ids →
        matchPricedPair x y = .ok none
          ∧ matchPricedPair y x = .ok none := by
  obtain ⟨ps, hps⟩ : ∃ ps, Greedy.Pairing PricedIntent.intentId crossing
      intents.zipIdx ps
      (Greedy.run PricedIntent.intentId crossing intents) :=
    Greedy.run_pairing hids
  have hout := hps.out
  have hkeys := Greedy.keys_of_nodup hids
  have hused : (Greedy.run PricedIntent.intentId crossing intents).used
      = (Greedy.run PricedIntent.intentId crossing intents).out.flatMap
        PricedMatch.ids := by
    rw [hps.used, hout, List.flatMap_map]
    refine List.flatMap_congr ?_
    intro p hp
    have hm := crossing_eq_some.mp (hps.crossed p hp)
    obtain ⟨-, -, -, hm⟩ := matchPricedPair_some.mp hm
    rw [hm]
    rfl
  refine ⟨_, returns_of_pos hpos, ?_, ?_, ?_⟩
  · intro m hm
    rw [hout] at hm
    obtain ⟨p, hp, rfl⟩ := List.mem_map.mp hm
    obtain ⟨i, j, hi, hj, hne⟩ := hps.within p hp
    exact ⟨p.1, List.fst_mem_of_mem_zipIdx hi, p.2.1,
      List.fst_mem_of_mem_zipIdx hj, hkeys _ hi _ hj hne,
      crossing_eq_some.mp (hps.crossed p hp)⟩
  · rw [← hused]
    exact hps.nodup
  · intro x hx y hy hxy hxfree hyfree
    rw [← hused] at hxfree hyfree
    have hcross : ∀ v ∈ intents, ∀ w ∈ intents, v ≠ w →
        v.intentId ∉ (Greedy.run PricedIntent.intentId crossing
          intents).used →
        w.intentId ∉ (Greedy.run PricedIntent.intentId crossing
          intents).used →
        matchPricedPair v w = .ok none := by
      intro v hv w hw hvw hvfree hwfree
      obtain ⟨i, hi, rfl⟩ := List.mem_iff_getElem.mp hv
      obtain ⟨j, hj, rfl⟩ := List.mem_iff_getElem.mp hw
      apply matchPricedPair_none (hpos _ hw)
      apply Greedy.run_maximal (a := (intents[i], i))
        (b := (intents[j], j)) _ _ _ hvfree hwfree
      · exact List.mk_mem_zipIdx_iff_getElem?.mpr
          (List.getElem?_eq_getElem hi)
      · exact List.mk_mem_zipIdx_iff_getElem?.mpr
          (List.getElem?_eq_getElem hj)
      · rintro (rfl : i = j)
        exact hvw rfl
    exact ⟨hcross x hx y hy hxy hxfree hyfree,
      hcross y hy x hx hxy.symm hyfree hxfree⟩

/-- Two sellers and one buyer. -/
def twoSellers : List PricedIntent :=
  [seller, buyer, { seller with intentId := "C" }]

/-- Among two sellers and one buyer no id is consumed twice. -/
theorem priced_pairs_two_sellers :
    ∃ out, matchPricedIntents twoSellers = .ok out
      ∧ (out.flatMap PricedMatch.ids).Nodup := by
  have hids : (twoSellers.map PricedIntent.intentId).Nodup := by decide
  obtain ⟨out, hout, -, hnodup, -⟩ := priced_pairs hids (by decide)
  exact ⟨out, hout, hnodup⟩

end Lumix.Committee
