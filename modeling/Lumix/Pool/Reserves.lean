/-
The reserve invariant: of every registered asset, no more notes are
outstanding than the pool holds tokens.

`adjust_note_supply` re-checks this for one asset, the one a call
credits or debits. A call also lowers balances: it pays tokens out or
lets the messenger pull them, and every other asset that is registered
on the same token, or every asset when the call adjusts none, is not
looked at. `Covered` says when that does no harm: before the call, each
such asset has a surplus of at least what the call releases.

`reserve_invariant` is the run result: if every accepted step is
covered, the invariant holds in every state reached.
-/
import Lumix.Pool.Testnet

namespace Lumix

open Exec Run TokenHost

variable {L : Type} [TokenHost L]

-- ============================================================= outflow

/-- What an invocation lets go of token `t` held by `self`. An approval
counts in full, and the burn drawing on it for nothing more. -/
def TokenOp.releases (self t : Address) : TokenOp → ℤ
  | transfer token src dst amount =>
      if token = t ∧ src = self ∧ dst ≠ self then amount else 0
  | approve token owner _ amount _ =>
      if token = t ∧ owner = self then amount else 0
  | depositForBurn _ _ => 0

/-- What an event lets go of token `t` held by the pool. -/
def Event.outflow (env : Env) (w : World L) (t : Address) : Event L → ℤ
  | pool ctx c _ =>
      ((c.effect env ctx w.pool).ops.map (TokenOp.releases env.self t)).sum
  | registry _ _ => 0
  | tokens none _ => 0
  | tokens (some drawer) _ => allowance w.tokens t env.self drawer

/-- The asset an event adjusts, and so re-checks. -/
def Event.adjusts (env : Env) (w : World L) : Event L → Option Word
  | pool ctx c _ => (c.effect env ctx w.pool).supply.map Prod.fst
  | registry _ _ | tokens _ _ => none

/-- Nobody but the pool lowers its balances, and a spender it approved
only within the allowance. -/
def Event.Honest (env : Env) (w : World L) (e : Event L) : Prop :=
  match e with
  | pool _ _ _ | registry _ _ => True
  | tokens _ ledger => ∀ t, balance w.tokens t env.self
      - max 0 (e.outflow env w t) ≤ balance ledger t env.self

/-- Every asset the event does not re-check has a surplus that covers
what the event releases of its token. -/
def Event.Covered (env : Env) (w : World L) (e : Event L) : Prop :=
  ∀ asset token, w.pool.assetToken asset = some token →
    e.adjusts env w ≠ some asset → 0 < e.outflow env w token →
    w.pool.noteSupply asset + e.outflow env w token
      ≤ balance w.tokens token env.self

-- ======================================================== ledger bounds

section Ledger

variable [LawfulTokens L] {env : Env}

/-- Transfers out of the pool lower its balance by what they release. -/
theorem transfers_balance {ops : List TokenOp} {l l' : L}
    (hops : ∀ op ∈ ops, ∃ token dst x,
      op = TokenOp.transfer token env.self dst x)
    (h : performAll l ops = .ok l') (t : Address) :
    balance l' t env.self
      = balance l t env.self
        - (ops.map (TokenOp.releases env.self t)).sum := by
  induction ops generalizing l with
  | nil =>
      cases h
      simp
  | cons op ops ih =>
      obtain ⟨token, dst, x, rfl⟩ := hops op (List.mem_cons_self ..)
      obtain ⟨l₁, hop, hrest⟩ := performAll_cons.mp h
      have htail := ih (fun o ho => hops o (List.mem_cons_of_mem _ ho)) hrest
      simp only [TokenOp.perform, orPanic_eq_ok] at hop
      obtain ⟨-, hbal⟩ := LawfulTokens.transfer_balance hop
      rw [htail, hbal t env.self, List.map_cons, List.sum_cons]
      simp only [TokenOp.releases]
      by_cases ht : t = token
      · subst ht
        by_cases hd : dst = env.self
        · simp [hd]
        · simp [hd, Ne.symm hd]
          omega
      · simp [ht, Ne.symm ht]

/-- An approval and the burn that draws on it lower the pool's balance by
at most the approval. -/
theorem burn_balance {ctx : Ctx} {p : Pool} {a : WithdrawCctpArgs}
    {amount : ℤ} {l l' : L}
    (h : performAll l (burnOut env ctx p a amount) = .ok l') (t : Address) :
    balance l t env.self
        - ((burnOut env ctx p a amount).map
            (TokenOp.releases env.self t)).sum
      ≤ balance l' t env.self := by
  cases hm : p.messenger with
  | none =>
      have hops : burnOut env ctx p a amount = [] := by
        unfold burnOut
        rw [hm]
        rfl
      rw [hops] at h ⊢
      cases h
      simp
  | some tmm =>
      rw [burnOut_eq env ctx a amount hm] at h ⊢
      obtain ⟨l₁, happrove, hrest⟩ := performAll_cons.mp h
      obtain ⟨l₂, hburn, hnil⟩ := performAll_cons.mp hrest
      cases hnil
      simp only [TokenOp.perform, orPanic_eq_ok] at happrove hburn
      have hbal := LawfulTokens.approve_balance happrove t env.self
      have hallow := LawfulTokens.approve_allowance happrove
      have hdraw : balance l₁ t env.self
          - (if t = p.usdc then allowance l₁ t env.self tmm else 0)
            ≤ balance l' t env.self := LawfulTokens.burn_balance hburn t
      simp only [List.map_cons, List.map_nil, List.sum_cons, List.sum_nil,
        TokenOp.releases, and_true]
      by_cases ht : t = p.usdc
      · subst ht
        rw [if_pos rfl, hallow] at hdraw
        simp
        omega
      · rw [if_neg ht] at hdraw
        simp [Ne.symm ht]
        omega

theorem payout_transfers {token : Option Address} {dst : Address} {x : ℤ}
    {op : TokenOp} (h : op ∈ payout env token dst x) :
    ∃ t d y, op = TokenOp.transfer t env.self d y := by
  obtain ⟨t, -, rfl⟩ := List.mem_map.mp h
  exact ⟨t, dst, x, rfl⟩

/-- An accepted settlement lowers the pool's balance of a token by at
most its outflow. -/
theorem effect_balance {ctx : Ctx} {p : Pool} (c : Call) {l l' : L}
    (h : performAll l (c.effect env ctx p).ops = .ok l') (t : Address) :
    balance l t env.self
        - ((c.effect env ctx p).ops.map (TokenOp.releases env.self t)).sum
      ≤ balance l' t env.self := by
  cases c with
  | withdrawCctp a => exact burn_balance h t
  | withdraw a =>
      exact (transfers_balance (fun _ ho => payout_transfers ho) h t).ge
  | rfqSettle a =>
      exact (transfers_balance (fun _ ho => payout_transfers ho) h t).ge
  | rfqSettleAtomicSwap a =>
      refine (transfers_balance (fun op ho => ?_) h t).ge
      rcases List.mem_append.mp ho with ho | ho
      · exact payout_transfers ho
      · exact payout_transfers ho
  | receiveCctpDeposit a | privateTransferSettle a | mpcSettle a
  | mpcSettlePriced a | registerAsset asset token | admin a =>
      exact (transfers_balance (fun _ ho => by cases ho) h t).ge

end Ledger

-- =========================================================== invariant

/-- Supply and reserve of every registered asset. -/
def ReserveInv (env : Env) (w : World L) : Prop :=
  ∀ asset token, w.pool.assetToken asset = some token →
    0 ≤ w.pool.noteSupply asset
      ∧ w.pool.noteSupply asset ≤ balance w.tokens token env.self

variable {env : Env}

/-- A covered release keeps what was held of an unadjusted asset. -/
theorem le_of_covered {w : World L} {e : Event L} {asset : Word}
    {token : Address} {b : ℤ} (hinv : ReserveInv env w)
    (hcov : e.Covered env w) (ht : w.pool.assetToken asset = some token)
    (hadj : e.adjusts env w ≠ some asset)
    (hb : balance w.tokens token env.self - max 0 (e.outflow env w token)
      ≤ b) :
    w.pool.noteSupply asset ≤ b := by
  obtain ⟨-, hle⟩ := hinv asset token ht
  rcases Int.lt_or_le 0 (e.outflow env w token) with hpos | hneg
  · have hsurplus := hcov asset token ht hadj hpos
    omega
  · omega

variable [LawfulTokens L]

theorem ReserveInv.settle {ctx : Ctx} {c : Call} {x : Witness}
    {w w' : World L} (hinv : ReserveInv env w)
    (happ : Applies env w (c.effect env ctx w.pool) w')
    (hcov : (Event.pool ctx c x).Covered env w) : ReserveInv env w' := by
  intro asset token ht
  have hreg : w.pool.assetToken asset = some token := by
    rw [happ.frame] at ht
    exact ht
  have hbal : balance w.tokens token env.self
      - max 0 ((Event.pool ctx c x).outflow env w token)
        ≤ balance w'.tokens token env.self := by
    have heff := effect_balance c happ.tokens token
    show _ - max 0 (List.sum _) ≤ _
    omega
  have hsupply := happ.supply
  cases hs : (c.effect env ctx w.pool).supply with
  | none =>
      rw [hs] at hsupply
      have hadj : (Event.pool ctx c x).adjusts env w ≠ some asset := by
        simp [Event.adjusts, hs]
      rw [show w'.pool.noteSupply = w.pool.noteSupply from hsupply]
      exact ⟨(hinv asset token hreg).1,
        le_of_covered hinv hcov hreg hadj hbal⟩
  | some move =>
      obtain ⟨moved, delta⟩ := move
      rw [hs] at hsupply
      obtain ⟨⟨token', htoken', hle⟩, hnonneg, hupdate⟩ := hsupply
      rw [hupdate]
      by_cases ha : asset = moved
      · -- the adjusted asset was re-checked by the call itself
        subst ha
        rw [hreg] at htoken'
        injection htoken' with htoken'
        subst htoken'
        rw [Function.update_self]
        exact ⟨hnonneg, hle⟩
      · have hadj : (Event.pool ctx c x).adjusts env w ≠ some asset := by
          simp [Event.adjusts, hs, Ne.symm ha]
        rw [Function.update_of_ne ha]
        exact ⟨(hinv asset token hreg).1,
          le_of_covered hinv hcov hreg hadj hbal⟩

theorem ReserveInv.step {e : Event L} {w w' : World L}
    (hinv : ReserveInv env w) (h : step env w e = .ok w')
    (henv : e.Honest env w) (hcov : e.Covered env w) :
    ReserveInv env w' := by
  cases step_ok h with
  | settled hc hadm happ => exact hinv.settle happ hcov
  | registered asset token hnew =>
      intro asset' token' ht
      by_cases ha : asset' = asset
      · -- a registration starts at no supply
        subst ha
        show 0 ≤ Function.update w.pool.noteSupply asset' 0 asset'
          ∧ Function.update w.pool.noteSupply asset' 0 asset' ≤ _
        rw [Function.update_self]
        exact ⟨le_refl 0, LawfulTokens.balance_nonneg _ _ _⟩
      · have ht' : w.pool.assetToken asset' = some token' := by
          rw [← ht]
          exact (Function.update_of_ne ha _ _).symm
        show 0 ≤ Function.update w.pool.noteSupply asset 0 asset'
          ∧ Function.update w.pool.noteSupply asset 0 asset' ≤ _
        rw [Function.update_of_ne ha]
        exact hinv asset' token' ht'
  | configured a =>
      -- no other configuration touches supply or registry
      intro asset token ht
      have hsame : (a.write w.pool).noteSupply = w.pool.noteSupply
          ∧ (a.write w.pool).assetToken = w.pool.assetToken := by
        cases a <;> exact ⟨rfl, rfl⟩
      show 0 ≤ (a.write w.pool).noteSupply asset ∧ _
      rw [hsame.1]
      exact hinv asset token (by rw [← hsame.2]; exact ht)
  | registry hreg => exact hinv
  | @tokens drawer ledger =>
      intro asset token ht
      have hreg : w.pool.assetToken asset = some token := ht
      have hadj : (Event.tokens drawer ledger).adjusts env w
          ≠ some asset := by simp [Event.adjusts]
      have hle := le_of_covered hinv hcov hreg hadj (henv token)
      exact ⟨(hinv asset token hreg).1, hle⟩

/-- In a run from the constructor whose every accepted step is covered,
each registered asset has a non-negative supply and at least as many
tokens in the vault, in every state reached. -/
theorem reserve_invariant {w₀ : World L} (h₀ : w₀.Constructed)
    (es : List (Event L))
    (henv : ∀ t ∈ accepted (step env) w₀ es, t.event.Honest env t.before)
    (hcov : ∀ t ∈ accepted (step env) w₀ es,
      t.event.Covered env t.before) (asset : Word)
    (hreg : (run (step env) w₀ es).pool.assetToken asset ≠ none) :
    ∃ vault, vaultBalance env (run (step env) w₀ es) asset = .ok vault
      ∧ 0 ≤ (run (step env) w₀ es).pool.noteSupply asset
      ∧ (run (step env) w₀ es).pool.noteSupply asset ≤ vault := by
  have hinv : ReserveInv env (run (step env) w₀ es) := by
    refine history_induction_of
      (fun t => t.event.Honest env t.before
        ∧ t.event.Covered env t.before)
      (fun _ w => ReserveInv env w) ?_ ?_ es
      fun t ht => ⟨henv t ht, hcov t ht⟩
    · obtain ⟨_, _, _, _, _, _, _, hpool⟩ := h₀
      intro asset token ht
      rw [hpool] at ht
      cases ht
    · intro h w w' e hinv hstep _ hC
      exact hinv.step hstep hC.1 hC.2
  obtain ⟨token, ht⟩ := Option.ne_none_iff_exists'.mp hreg
  obtain ⟨hnonneg, hle⟩ := hinv asset token ht
  refine ⟨_, ?_, hnonneg, hle⟩
  simp only [vaultBalance, Pool.getAssetToken, ht]
  rfl

-- =========================================================== evaluation

/-- The asset and token an event registers. -/
def Event.registration : Event L → Option (Word × Address)
  | pool _ (.registerAsset asset token) _ => some (asset, token)
  | _ => none

omit [LawfulTokens L] in
/-- A registered asset was registered before, or by this event. -/
theorem step_registration {w w' : World L} {e : Event L}
    (h : step env w e = .ok w') {asset : Word} {token : Address}
    (ht : w'.pool.assetToken asset = some token) :
    w.pool.assetToken asset = some token
      ∨ e.registration = some (asset, token) := by
  cases step_ok h with
  | settled hc hadm happ =>
      rw [happ.frame] at ht
      exact Or.inl ht
  | registered asset' token' hnew =>
      by_cases ha : asset = asset'
      · right
        rw [ha] at ht
        simp only [Function.update_self, Option.some.injEq] at ht
        rw [ha, ← ht]
        rfl
      · left
        simp only [Function.update_of_ne ha] at ht
        exact ht
  | configured a =>
      left
      cases a <;> exact ht
  | registry hreg => exact Or.inl ht
  | tokens ledger => exact Or.inl ht

omit [LawfulTokens L] in
/-- In a run from the constructor every registered asset was registered
by an accepted event, at every step. -/
theorem registered_of_accepted {w₀ : World L} (h₀ : w₀.Constructed)
    (es : List (Event L)) :
    ∀ t ∈ accepted (step env) w₀ es, ∀ asset token,
      t.before.pool.assetToken asset = some token →
      ∃ t' ∈ accepted (step env) w₀ es,
        t'.event.registration = some (asset, token) := by
  have hinv : (∀ asset token,
        (run (step env) w₀ es).pool.assetToken asset = some token →
        ∃ t' ∈ accepted (step env) w₀ es,
          t'.event.registration = some (asset, token))
      ∧ ∀ t ∈ accepted (step env) w₀ es, ∀ asset token,
        t.before.pool.assetToken asset = some token →
        ∃ t' ∈ accepted (step env) w₀ es,
          t'.event.registration = some (asset, token) := by
    refine history_induction
      (fun (h : List (Transition (World L) (Event L))) w =>
        (∀ asset token, w.pool.assetToken asset = some token →
          ∃ t' ∈ h, t'.event.registration = some (asset, token))
        ∧ ∀ t ∈ h, ∀ asset token,
          t.before.pool.assetToken asset = some token →
          ∃ t' ∈ h, t'.event.registration = some (asset, token)) ?_ ?_ es
    · refine ⟨?_, by simp⟩
      obtain ⟨_, _, _, _, _, _, _, hpool⟩ := h₀
      intro asset token ht
      rw [hpool] at ht
      cases ht
    · rintro h w w' e ⟨hnow, hpast⟩ hstep
      have hkeep : ∀ asset token, w.pool.assetToken asset = some token →
          ∃ t' ∈ h ++ [⟨w, e, w'⟩],
            t'.event.registration = some (asset, token) := by
        intro asset token ht
        obtain ⟨t', ht', heq⟩ := hnow asset token ht
        exact ⟨t', List.mem_append_left _ ht', heq⟩
      constructor
      · intro asset token ht
        rcases step_registration hstep ht with hold | hnew
        · exact hkeep asset token hold
        · exact ⟨_, List.mem_append_right _ (List.mem_singleton_self _),
            hnew⟩
      · intro t ht asset token hreg
        rcases List.mem_append.mp ht with ht | ht
        · obtain ⟨t', ht', heq⟩ := hpast t ht asset token hreg
          exact ⟨t', List.mem_append_left _ ht', heq⟩
        · rw [List.mem_singleton.mp ht] at hreg
          exact hkeep asset token hreg
  exact hinv.2

omit [LawfulTokens L] in
/-- So a step is covered if it is for the assets the run registers. -/
theorem covered_of_registrations {w₀ : World L} (h₀ : w₀.Constructed)
    {es : List (Event L)}
    (h : ∀ t ∈ accepted (step env) w₀ es,
      ∀ t' ∈ accepted (step env) w₀ es, ∀ reg ∈ t'.event.registration,
      t.event.adjusts env t.before ≠ some reg.1 →
      0 < t.event.outflow env t.before reg.2 →
      t.before.pool.noteSupply reg.1 + t.event.outflow env t.before reg.2
        ≤ balance t.before.tokens reg.2 env.self) :
    ∀ t ∈ accepted (step env) w₀ es, t.event.Covered env t.before := by
  intro t ht asset token hreg
  obtain ⟨t', ht', heq⟩ := registered_of_accepted h₀ es t ht asset token hreg
  exact h t ht t' ht' (asset, token) heq

section Runs

open Testnet

/-- 40 of `noteU` credited to a solver. -/
def rfqRun : List (Event SacLedger) :=
  setup ++ [depositU, rfqSettlement (exit 3 noteU openU 40 0)]

theorem rfqRun_honest (w : World SacLedger) :
    ∀ e ∈ rfqRun, e.Honest Testnet.env w := by
  intro e he
  simp only [rfqRun, setup, configure, depositU, rfqSettlement,
    List.mem_append, List.mem_cons, List.not_mem_nil, or_false] at he
  rcases he with (rfl | rfl | rfl | rfl | rfl | rfl | rfl | rfl)
    | (rfl | rfl)
  all_goals exact trivial

/-- The run with 200 and with 100 in the vault. With 200 every step is
covered; with 100 the vault ends at 60, below the supply. -/
theorem rfqRun_evaluated :
    ((accepted (step Testnet.env) (genesis 200 0) rfqRun).length = 10
      ∧ (run (step Testnet.env) (genesis 200 0) rfqRun).pool.assetToken
        (idOf usdc) = some usdc
      ∧ ∀ t ∈ accepted (step Testnet.env) (genesis 200 0) rfqRun,
        ∀ t' ∈ accepted (step Testnet.env) (genesis 200 0) rfqRun,
        ∀ reg ∈ t'.event.registration,
        t.event.adjusts Testnet.env t.before ≠ some reg.1 →
        0 < t.event.outflow Testnet.env t.before reg.2 →
        t.before.pool.noteSupply reg.1
            + t.event.outflow Testnet.env t.before reg.2
          ≤ balance t.before.tokens reg.2 Testnet.env.self)
    ∧ (∀ t ∈ accepted (step Testnet.env) (genesis 100 0) rfqRun,
        t.event.Proven Testnet.env.poseidon 12 2)
      ∧ (run (step Testnet.env) (genesis 100 0) rfqRun).pool.assetToken
        (idOf usdc) = some usdc
      ∧ vaultBalance Testnet.env
          (run (step Testnet.env) (genesis 100 0) rfqRun) (idOf usdc)
        = .ok 60
      ∧ 60 < (run (step Testnet.env) (genesis 100 0)
          rfqRun).pool.noteSupply (idOf usdc) := by
  decide +kernel

/-- With 200 in the vault, 100 deposited and 40 credited, the reserve
holds. -/
theorem reserve_invariant_surplus :
    (accepted (step Testnet.env) (genesis 200 0) rfqRun).length = 10
      ∧ ∃ vault, vaultBalance Testnet.env
          (run (step Testnet.env) (genesis 200 0) rfqRun) (idOf usdc)
          = .ok vault
        ∧ 0 ≤ (run (step Testnet.env) (genesis 200 0) rfqRun).pool.noteSupply
          (idOf usdc)
        ∧ (run (step Testnet.env) (genesis 200 0) rfqRun).pool.noteSupply
          (idOf usdc) ≤ vault := by
  obtain ⟨⟨hlength, hregistered, hcovered⟩, -⟩ := rfqRun_evaluated
  refine ⟨hlength, ?_⟩
  refine reserve_invariant (genesis_constructed 200 0) rfqRun ?_ ?_
    (idOf usdc) (by rw [hregistered]; simp)
  · intro t ht
    exact rfqRun_honest t.before t.event (event_of_mem_accepted ht)
  · exact covered_of_registrations (genesis_constructed 200 0) hcovered

/-- With exactly the deposit in the vault, the credit leaves 60 against
notes of 100: the solver was paid and no supply was adjusted. -/
theorem reserve_broken_rfq :
    (genesis 100 0).Constructed
      ∧ (∀ t ∈ accepted (step Testnet.env) (genesis 100 0) rfqRun,
        t.event.Honest Testnet.env t.before
          ∧ t.event.Proven Testnet.env.poseidon 12 2)
      ∧ (run (step Testnet.env) (genesis 100 0) rfqRun).pool.assetToken
        (idOf usdc) = some usdc
      ∧ ∃ vault, vaultBalance Testnet.env
          (run (step Testnet.env) (genesis 100 0) rfqRun) (idOf usdc)
          = .ok vault
        ∧ vault < (run (step Testnet.env) (genesis 100 0)
          rfqRun).pool.noteSupply (idOf usdc) := by
  obtain ⟨-, hproven, hregistered, hvault, hless⟩ := rfqRun_evaluated
  refine ⟨genesis_constructed 100 0, ?_, hregistered, 60, hvault, hless⟩
  intro t ht
  exact ⟨rfqRun_honest t.before t.event (event_of_mem_accepted ht),
    hproven t ht⟩

end Runs

end Lumix
