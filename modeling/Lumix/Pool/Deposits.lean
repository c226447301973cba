/-
What a deposit mints against what it credits.

The circuit bounds the note by the field element `amount7dp`: note and
surplus are 128-bit numbers that add up to it. The pool credits the low
half of the same word and compares it with ten times the low half of
`amount6dp`. `deposits_sound` says when the two agree: when the
`amount7dp` word fits 128 bits and the `amount6dp` word is below the
order, and past that only by accident. A CCTP nonce is credited once in
any run.
-/
import Lumix.Pool.Testnet

namespace Lumix

open Exec Run

variable {L : Type} [TokenHost L]

-- ============================================================= amounts

/-- No inflation: the note is worth at most the credited amount, and
that is positive and at most ten times the burned one. -/
def DepositSound (a : DepositArgs) (x : DepositNoteMint) : Prop :=
  (x.note.value.val : ℤ) ≤ a.amount.toInt ∧ 0 < a.amount.toInt
    ∧ a.amount.toInt ≤ 10 * (x.amount6dp.val : ℤ)

/-- The two amount words say what their low halves say: `amount7dp`
fits 128 bits, or is an alias whose low half happens to cover the note;
and `amount6dp` is no alias of a burn too small for the credit. -/
def DepositWordsOk (a : DepositArgs) (x : DepositNoteMint) : Prop :=
  (((Call.receiveCctpDeposit a).signal 7).toNat < 2 ^ 128
    ∨ (r ≤ ((Call.receiveCctpDeposit a).signal 7).toNat
      ∧ x.note.value.val
        ≤ ((Call.receiveCctpDeposit a).signal 7).toNat % 2 ^ 128))
  ∧ ∀ burned k : ℕ, 0 < k →
    ((Call.receiveCctpDeposit a).signal 6).toNat = burned + k * r →
    a.amount.toInt ≤ 10 * (burned : ℤ)

/-- Words that fit are fine. -/
theorem DepositWordsOk.of_lt {a : DepositArgs} {x : DepositNoteMint}
    (h7 : ((Call.receiveCctpDeposit a).signal 7).toNat < 2 ^ 128)
    (h6 : ((Call.receiveCctpDeposit a).signal 6).toNat < r) :
    DepositWordsOk a x := by
  refine ⟨Or.inl h7, ?_⟩
  intro burned k hk hword
  have hr : r ≤ k * r := Nat.le_mul_of_pos_left r hk
  omega

/-- The note half: a 129-bit sum loses its top bit to the narrowing, and
then the note is worth more than the credit. -/
theorem note_le_iff {w : Word} {value surplus : ℕ} {amount : ℤ}
    (hv : value < 2 ^ 128) (hs : surplus < 2 ^ 128)
    (hsum : w.toNat % r = value + surplus)
    (hw : fr32ToI128 w = amount) (hpos : 0 < amount) :
    (value : ℤ) ≤ amount
      ↔ (w.toNat < 2 ^ 128
        ∨ (r ≤ w.toNat ∧ value ≤ w.toNat % 2 ^ 128)) := by
  have hr := two_pow_254_lt_r
  have hlow : amount = ((w.toNat % 2 ^ 128 : ℕ) : ℤ) := by
    rw [← hw]
    exact low_of_fr32ToI128_nonneg (by omega)
  rcases Nat.lt_or_ge w.toNat r with hlt | hge
  · rw [Nat.mod_eq_of_lt hlt] at hsum
    omega
  · omega

/-- The burn half: a canonical word is at least its low half, so only an
alias denotes less than the pool compared. -/
theorem credit_le_iff {w : Word} {amount : ℤ}
    (hpos : 0 < fr32ToI128 w) (hle : amount ≤ fr32ToI128 w * 10) :
    amount ≤ 10 * ((w.toNat % r : ℕ) : ℤ)
      ↔ ∀ burned k : ℕ, 0 < k → w.toNat = burned + k * r →
        amount ≤ 10 * (burned : ℤ) := by
  rw [low_of_fr32ToI128_nonneg hpos.le] at hle
  constructor
  · intro h burned k _ hw
    rw [hw, Nat.add_mul_mod_self_right] at h
    have hmod := Nat.mod_le burned r
    omega
  · intro h
    rcases Nat.lt_or_ge w.toNat r with hlt | hge
    · rw [Nat.mod_eq_of_lt hlt]
      omega
    · refine h (w.toNat % r) (w.toNat / r)
        (Nat.div_pos hge (by decide)) ?_
      rw [Nat.mul_comm]
      exact (Nat.mod_add_div w.toNat r).symm

theorem depositSound_iff {env : Env} {ctx : Ctx} {a : DepositArgs}
    {x : DepositNoteMint} {H : List Fr → Fr}
    {treeDepth associationDepth : ℕ} {w w' : World L}
    (h : exec env ctx w (.receiveCctpDeposit a) = .ok w')
    (hp : Proven H treeDepth associationDepth (.receiveCctpDeposit a)
      (.deposit x)) :
    DepositSound a x ↔ DepositWordsOk a x := by
  obtain ⟨hadm, -⟩ := exec_ok h trivial
  obtain ⟨-, hpos, h7, h6, h10⟩ := hadm.amounts
  obtain ⟨surplus, hs, hv, hsum⟩ :=
    DepositNoteMint.Satisfied.amount_eq hp.satisfied
  rw [← hp.toFr_signal hadm (i := 7) rfl, Word.val_toFr] at hsum
  unfold DepositSound DepositWordsOk
  rw [← hp.toFr_signal hadm (i := 6) rfl, Word.val_toFr,
    note_le_iff hv hs hsum h7 hpos, ← credit_le_iff h6 h10]
  constructor
  · rintro ⟨hnote, -, hburn⟩
    exact ⟨hnote, hburn⟩
  · rintro ⟨hnote, hburn⟩
    exact ⟨hnote, hpos, hburn⟩

-- ============================================================== nonces

/-- The nonce an event credits. -/
def Event.nonce : Event L → Option Word
  | pool _ (.receiveCctpDeposit a) _ => some a.cctpNonce
  | _ => none

/-- The nonces a history credited, in order. -/
def creditedNonces (h : List (Transition (World L) (Event L))) :
    List Word :=
  h.filterMap fun t => t.event.nonce

/-- One event: a credited nonce was not used, and is used from then on;
used nonces stay used. -/
theorem step_nonce {env : Env} {w w' : World L} {e : Event L}
    (h : step env w e = .ok w') :
    (∀ n, e.nonce = some n → w.pool.deposit n = false)
      ∧ ∀ n, w.pool.deposit n = true ∨ e.nonce = some n →
        w'.pool.deposit n = true := by
  cases step_ok h with
  | @settled ctx c x _ hc hadm happ =>
      have hnonce : (Event.pool ctx c x : Event L).nonce
          = (c.effect env ctx w.pool).nonce := by
        cases c <;> rfl
      rw [hnonce]
      exact ⟨happ.unusedNonce, fun n => (happ.nonces n).mpr⟩
  | registered asset token hnew => simp [Event.nonce]
  | configured a => cases a <;> simp [Event.nonce, AdminCall.write]
  | registry hreg => simp [Event.nonce]
  | tokens ledger => simp [Event.nonce]

theorem creditedNonces_nodup {env : Env} (w₀ : World L)
    (es : List (Event L)) :
    (creditedNonces (accepted (step env) w₀ es)).Nodup := by
  have hinv : (creditedNonces (accepted (step env) w₀ es)).Nodup
      ∧ ∀ n ∈ creditedNonces (accepted (step env) w₀ es),
        (run (step env) w₀ es).pool.deposit n = true := by
    refine history_induction
      (fun h w => (creditedNonces h).Nodup
        ∧ ∀ n ∈ creditedNonces h, w.pool.deposit n = true) ?_ ?_ es
    · exact ⟨List.nodup_nil, by simp [creditedNonces]⟩
    · rintro h w w' e ⟨hnodup, hused⟩ hstep
      obtain ⟨hfresh, hnext⟩ := step_nonce hstep
      have hconcat : creditedNonces (h ++ [⟨w, e, w'⟩])
          = creditedNonces h ++ e.nonce.toList := by
        unfold creditedNonces
        rw [List.filterMap_append]
        cases hn : e.nonce with
        | none => simp [hn]
        | some n => simp [hn]
      rw [hconcat]
      refine ⟨List.nodup_append.mpr ⟨hnodup, ?_, ?_⟩, ?_⟩
      · cases e.nonce <;> simp
      · intro m hm n hn heq
        subst heq
        have hold := hused m hm
        rw [hfresh m (Option.mem_toList.mp hn)] at hold
        cases hold
      · intro n hn
        rcases List.mem_append.mp hn with hn | hn
        · exact hnext n (Or.inl (hused n hn))
        · exact hnext n (Or.inr (Option.mem_toList.mp hn))
  exact hinv.1

-- ============================================================ deposits

/-- In any run: an accepted and proven deposit inserts the commitment of
its private note, credits `amount` to its asset, and inflates nothing
exactly when its amount words say what their low halves say; and no
nonce is credited twice. -/
theorem deposits_sound {env : Env} (treeDepth associationDepth : ℕ)
    (w₀ : World L) (es : List (Event L)) :
    (∀ t ∈ accepted (step env) w₀ es, ∀ ctx a x,
      t.event = .pool ctx (.receiveCctpDeposit a) (.deposit x) →
      t.event.Proven env.poseidon treeDepth associationDepth →
      (t.after.pool.treeLeaves = t.before.pool.treeLeaves ++ [a.commitment]
        ∧ Word.toFr a.commitment = x.note.commitment env.poseidon
        ∧ t.after.pool.noteSupply ((Call.receiveCctpDeposit a).signal 8)
          = t.before.pool.noteSupply
              ((Call.receiveCctpDeposit a).signal 8) + a.amount.toInt)
      ∧ (DepositSound a x ↔ DepositWordsOk a x))
    ∧ (creditedNonces (accepted (step env) w₀ es)).Nodup := by
  refine ⟨?_, creditedNonces_nodup w₀ es⟩
  intro t ht ctx a x he hp
  have hstep := step_of_mem_accepted ht
  rw [he] at hstep hp
  have hexec : exec env ctx t.before (.receiveCctpDeposit a)
      = .ok t.after := hstep
  have hproven : Proven env.poseidon treeDepth associationDepth
      (.receiveCctpDeposit a) (.deposit x) := hp
  obtain ⟨hadm, happ⟩ := exec_ok hexec trivial
  obtain ⟨hcommit, -⟩ := hadm.amounts
  obtain ⟨-, -, hsupply⟩ := happ.supply
  refine ⟨⟨happ.leaves, ?_, ?_⟩, depositSound_iff hexec hproven⟩
  · rw [← hcommit, hproven.toFr_signal hadm rfl]
    exact hproven.satisfied.commitment
  · rw [hsupply, Function.update_self]

section Runs

open Testnet

/-- A note worth 2^128 - 1. -/
def noteY : Note := ⟨(idOf usdc).toFr, 2 ^ 128 - 1, 11, 1004, 2004⟩

/-- Its deposit with `amount7dp = 2^128 + 5` against a credit of 5. -/
def inflating : DepositNoteMint := mint noteY 0x100 1 (2 ^ 128 + 5) 1

/-- The deposits of `noteU` and of `noteY` are proven and accepted, into
the empty testnet pool. -/
theorem deposits_evaluated :
    (depositU.Proven env.poseidon 12 2
      ∧ (step env (run (step env) (genesis 100 0) setup) depositU).isOk)
    ∧ Proven env.poseidon 12 2 (depositCall usdc 5 0x100 inflating [])
        (.deposit inflating)
      ∧ (exec env ctx (run (step env) (genesis 100 0) setup)
        (depositCall usdc 5 0x100 inflating [])).isOk := by
  decide +kernel

/-- The deposit of `noteU` inflates nothing: its amount words fit. -/
theorem deposits_sound_noteU :
    ∃ t ∈ accepted (step env) (genesis 100 0) depositRun,
      ∃ a x, t.event = .pool ctx (.receiveCctpDeposit a) (.deposit x)
        ∧ t.after.pool.noteSupply ((Call.receiveCctpDeposit a).signal 8)
          = t.before.pool.noteSupply
              ((Call.receiveCctpDeposit a).signal 8) + a.amount.toInt
        ∧ DepositSound a x := by
  obtain ⟨⟨hp, hok⟩, -⟩ := deposits_evaluated
  obtain ⟨w', hw'⟩ := exists_ok_of_isOk hok
  have hmem : (⟨run (step env) (genesis 100 0) setup, depositU, w'⟩ :
      Transition (World SacLedger) (Event SacLedger))
      ∈ accepted (step env) (genesis 100 0) depositRun := by
    unfold depositRun
    rw [accepted_concat_ok hw']
    exact List.mem_append_right _ (List.mem_singleton_self _)
  obtain ⟨⟨-, -, hcredit⟩, hiff⟩ := (deposits_sound 12 2 (genesis 100 0)
    depositRun).1 _ hmem ctx _ _ rfl hp
  refine ⟨_, hmem, _, _, rfl, hcredit, hiff.mpr ?_⟩
  exact DepositWordsOk.of_lt (by decide +kernel) (by decide +kernel)

/-- The pool accepts the deposit of `noteY`: the low half of `amount7dp`
is the credit. -/
theorem deposit_inflates :
    (genesis 100 0).Constructed
      ∧ Proven env.poseidon 12 2 (depositCall usdc 5 0x100 inflating [])
        (.deposit inflating)
      ∧ (∃ w', exec env ctx (run (step env) (genesis 100 0) setup)
        (depositCall usdc 5 0x100 inflating []) = .ok w')
      ∧ ∃ a, depositCall usdc 5 0x100 inflating [] = .receiveCctpDeposit a
        ∧ ¬DepositSound a inflating := by
  obtain ⟨-, hp, hok⟩ := deposits_evaluated
  refine ⟨genesis_constructed 100 0, hp, exists_ok_of_isOk hok, _, rfl, ?_⟩
  rintro ⟨hnote, -⟩
  exact absurd hnote (by decide +kernel)

end Runs

end Lumix
