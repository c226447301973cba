/-
The pool together with its verifiers.

Each kind of settlement has a verifier contract of its own, at an
address the pool stores. A settlement that was accepted had its proof
verified there (`exec_verified`), against the key that contract stored
at the time. Verifiers are deployed by anyone and rotated by their
admins, while the pool runs. Over every run, the key a settlement was
verified against is the last one that was written there, by the
deployer or by the admin named at the deployment (`settled_under_key`);
and once a verifier is frozen, its key is settled under for good
(`settled_under_frozen`).
-/
import Lumix.Contracts.VerifyingKey
import Lumix.Pool.System
import Lumix.Pool.Testnet

namespace Lumix

open Exec Run

variable {L : Type} [TokenHost L]

-- ==================================================== one settlement

/-- Where the pool has the proof of a call verified. -/
def Call.verifierOf (p : Pool) : Call → Option Address
  | .receiveCctpDeposit _ => p.depositVerifier
  | .withdraw _ | .withdrawCctp _ | .rfqSettle _ | .rfqSettleAtomicSwap _ =>
      some p.verifier
  | .privateTransferSettle _ => p.transferVerifier
  | .mpcSettle _ => p.mpcVerifier
  | .mpcSettlePriced _ => p.mpcPricedVerifier
  | .registerAsset _ _ | .admin _ => none

/-- The proof a call passes. -/
def Call.proofBytes : Call → Option Bytes
  | .receiveCctpDeposit a => some a.proofBytes
  | .withdraw a => some a.proofBytes
  | .withdrawCctp a => some a.proofBytes
  | .rfqSettle a => some a.proofBytes
  | .rfqSettleAtomicSwap a => some a.proofBytes
  | .privateTransferSettle a => some a.proofBytes
  | .mpcSettle a => a.proofBytes
  | .mpcSettlePriced a => a.proofBytes
  | .registerAsset _ _ => none
  | .admin _ => none

/-- The call's proof and signals verify under the key at `a`. -/
structure Call.VerifiedAt (env : Env) (w : World L) (c : Call)
    (a : Address) (vk : Option Bytes) : Prop where
  slot : c.verifierOf w.pool = some a
  stored : w.verifiers a = some vk
  verifies : ∃ proof signals, c.proofBytes = some proof
    ∧ c.signalBytes = some signals
    ∧ ProofVerifier.verify env.bls vk proof signals = .ok true

omit [TokenHost L] in
theorem verifyProof_ok {env : Env} {w : World L} {a : Address}
    {proof signals : Bytes} {e : PoolError} {u : Unit}
    (h : verifyProof env w a proof signals e = .ok u) :
    ∃ vk, w.verifiers a = some vk
      ∧ ProofVerifier.verify env.bls vk proof signals = .ok true := by
  simp only [verifyProof, bind_eq_ok, orPanic_eq_ok, panicIf_eq_ok] at h
  obtain ⟨vk, hvk, ok, hok, htrue⟩ := h
  exact ⟨vk, hvk, by rw [hok]; simpa using htrue⟩

omit [TokenHost L] in
theorem Call.VerifiedAt.of_verifyProof {env : Env} {w : World L} {c : Call}
    {a : Address} {proof signals : Bytes} {e : PoolError} {u : Unit}
    (hslot : c.verifierOf w.pool = some a)
    (hproof : c.proofBytes = some proof)
    (hsignals : c.signalBytes = some signals)
    (h : verifyProof env w a proof signals e = .ok u) :
    ∃ a vk, c.VerifiedAt env w a vk := by
  obtain ⟨vk, hvk, hok⟩ := verifyProof_ok h
  exact ⟨a, vk, hslot, hvk, proof, signals, hproof, hsignals, hok⟩

/-- `P` follows if the program returns. -/
def Needs {α : Type} (P : Prop) (x : Except Trap α) : Prop :=
  ∀ a, x = .ok a → P

namespace Needs

variable {α β : Type} {P : Prop} {x : Except Trap α}
  {f : α → Except Trap β}

theorem head (h : Needs P x) : Needs P (x >>= f) := by
  intro b hb
  obtain ⟨a, ha, -⟩ := bind_eq_ok.mp hb
  exact h a ha

theorem rest (h : ∀ a, x = .ok a → Needs P (f a)) : Needs P (x >>= f) := by
  intro b hb
  obtain ⟨a, ha, hfa⟩ := bind_eq_ok.mp hb
  exact h a ha b hfa

end Needs

/-- An accepted settlement had its proof verified, by the verifier that
is there for its kind. -/
theorem exec_verified {env : Env} {ctx : Ctx} {w w' : World L} {c : Call}
    (h : exec env ctx w c = .ok w') (hc : c.Settles) :
    ∃ a vk, c.VerifiedAt env w a vk := by
  have hneeds : ∀ {a proof signals}, c.verifierOf w.pool = some a →
      c.proofBytes = some proof → c.signalBytes = some signals →
      ∀ e, Needs (∃ a vk, c.VerifiedAt env w a vk)
        (verifyProof env w a proof signals e) :=
    fun hslot hproof hsignals e _ hu =>
      Call.VerifiedAt.of_verifyProof hslot hproof hsignals hu
  refine (?_ : Needs _ (exec env ctx w c)) w' h
  -- the checks before the verifier's are passed over one by one
  cases c with
  | receiveCctpDeposit a =>
      refine .head ?_
      unfold receiveCctpDeposit
      repeat first
        | refine .rest fun _ hv => ?_
          with_reducible
            exact .head (hneeds (orPanic_eq_ok.mp hv) rfl rfl _)
        | refine .rest fun _ _ => ?_
  | withdraw a =>
      unfold exec withdraw
      repeat first
        | with_reducible exact .head (hneeds rfl rfl rfl _)
        | refine .rest fun _ _ => ?_
  | withdrawCctp a =>
      refine .head ?_
      unfold withdrawCctp
      repeat first
        | with_reducible exact .head (hneeds rfl rfl rfl _)
        | refine .rest fun _ _ => ?_
  | rfqSettle a =>
      unfold exec rfqSettle
      repeat first
        | with_reducible exact .head (hneeds rfl rfl rfl _)
        | refine .rest fun _ _ => ?_
  | rfqSettleAtomicSwap a =>
      unfold exec rfqSettleAtomicSwap
      repeat first
        | with_reducible exact .head (hneeds rfl rfl rfl _)
        | refine .rest fun _ _ => ?_
  | privateTransferSettle a =>
      unfold exec privateTransferSettle
      repeat first
        | refine .rest fun _ hv => ?_
          with_reducible
            exact .head (hneeds (orPanic_eq_ok.mp hv) rfl rfl _)
        | refine .rest fun _ _ => ?_
  | mpcSettle a =>
      unfold exec mpcSettle
      refine .rest fun _ _ => .rest fun _ _ => ?_
      refine .rest fun verifier hverifier => ?_
      refine .rest fun proof hproof => .rest fun signals hsignals => ?_
      exact .head (hneeds (orPanic_eq_ok.mp hverifier)
        (orPanic_eq_ok.mp hproof) (orPanic_eq_ok.mp hsignals) _)
  | mpcSettlePriced a =>
      unfold exec mpcSettlePriced
      refine .rest fun _ _ => .rest fun _ _ => ?_
      refine .rest fun verifier hverifier => ?_
      refine .rest fun proof hproof => .rest fun signals hsignals => ?_
      exact .head (hneeds (orPanic_eq_ok.mp hverifier)
        (orPanic_eq_ok.mp hproof) (orPanic_eq_ok.mp hsignals) _)
  | registerAsset assetId token => exact hc.elim
  | admin c => exact hc.elim

-- ============================================================ the system

namespace Verified

open ProofVerifier

/-- The pool's world, and the storage of the verifiers around it. -/
structure Deployment (L : Type) where
  world : World L
  verifiers : Address → Option ProofVerifier.Storage

/-- The pool sees the keys alone. -/
def Deployment.seen (d : Deployment L) : World L :=
  { d.world with verifiers := fun a => (d.verifiers a).map (·.vk) }

/-- What can happen to the pool or to a verifier. -/
inductive Event (L : Type)
  /-- what happens to the pool's world -/
  | chain (e : Lumix.Event L)
  | deploy (a admin : Address) (vkBytes : Bytes)
  /-- a call of the verifier at `a` -/
  | verifier (ctx : Ctx) (a : Address) (call : KeyCall)

/-- One event; it changes nothing if it traps. -/
def step (env : Env) (d : Deployment L) :
    Event L → Except Trap (Deployment L)
  | .chain e => do
      let w ← Lumix.step env d.seen e
      pure { d with world := w }
  | .deploy a admin vkBytes => do
      panicIf ((d.verifiers a).isSome = true)
        (.panic "contract already exists")
      pure { d with verifiers :=
        Function.update d.verifiers a (some (construct admin vkBytes)) }
  | .verifier ctx a call => do
      let s ← orPanic .noContract (d.verifiers a)
      let s ← execKey ctx s call
      pure { d with verifiers := Function.update d.verifiers a (some s) }

/-- No verifier is there yet. -/
def bare (w : World L) : Deployment L := ⟨w, fun _ => none⟩

/-- What is accepted in a run. -/
abbrev history (env : Env) (w : World L) (es : List (Event L)) :
    List (Transition (Deployment L) (Event L)) :=
  accepted (step env) (bare w) es

/-- The deployment after the events. -/
abbrev after (env : Env) (w : World L) (es : List (Event L)) :
    Deployment L :=
  run (step env) (bare w) es

/-- The key an accepted event writes, and where. -/
def Event.writes : Event L → Option (Address × Bytes)
  | .deploy a _ vkBytes => some (a, vkBytes)
  | .verifier _ a (.setVk vkBytes) => some (a, vkBytes)
  | _ => none

/-- The verifier at `a` was deployed for `admin`, `key` is the last key
written there, and the admin authorised it unless it is the first. -/
structure Stored (h : List (Transition (Deployment L) (Event L)))
    (a admin : Address) (key : Bytes) : Prop where
  deployed : ∃ t ∈ h, ∃ key', t.event = .deploy a admin key'
  last : ∃ x t y, h = x ++ t :: y ∧ t.event.writes = some (a, key)
    ∧ (∀ ctx c, t.event = .verifier ctx a c → ctx.auth admin = true)
    ∧ ∀ u ∈ y, ∀ key', u.event.writes ≠ some (a, key')

variable {h : List (Transition (Deployment L) (Event L))}
  {a admin : Address} {key : Bytes} {d d' : Deployment L}

omit [TokenHost L] in
theorem Stored.aside (hs : Stored h a admin key)
    {t : Transition (Deployment L) (Event L)}
    (ht : ∀ key', t.event.writes ≠ some (a, key')) :
    Stored (h ++ [t]) a admin key := by
  obtain ⟨⟨t₀, ht₀, key₀, hdeploy⟩, x, u, y, rfl, hu, hauth, hy⟩ := hs
  refine ⟨⟨t₀, List.mem_append_left _ ht₀, key₀, hdeploy⟩,
    x, u, y ++ [t], by simp, hu, hauth, ?_⟩
  exact List.forall_mem_append.mpr ⟨hy, List.forall_mem_singleton.mpr ht⟩

omit [TokenHost L] in
theorem Stored.write {admin : Address}
    (hdeployed : ∃ t ∈ h, ∃ key', t.event = .deploy a admin key')
    {t : Transition (Deployment L) (Event L)}
    (ht : t.event.writes = some (a, key))
    (hauth : ∀ ctx c, t.event = .verifier ctx a c → ctx.auth admin = true) :
    Stored (h ++ [t]) a admin key := by
  obtain ⟨t₀, ht₀, key₀, hdeploy⟩ := hdeployed
  exact ⟨⟨t₀, List.mem_append_left _ ht₀, key₀, hdeploy⟩,
    h, t, [], rfl, ht, hauth, List.forall_mem_nil _⟩

/-- The verifiers after this history. -/
def KeyInv (h : List (Transition (Deployment L) (Event L)))
    (d : Deployment L) : Prop :=
  ∀ a s, d.verifiers a = some s →
    ∃ admin key, s.admin = some admin ∧ s.vk = some key
      ∧ Stored h a admin key

/-- What an accepted event does to the verifiers. -/
theorem step_verifiers {env : Env} {e : Event L}
    (hstep : step env d e = .ok d') :
    (∃ a admin key, e = .deploy a admin key ∧ d.verifiers a = none
      ∧ d'.verifiers
        = Function.update d.verifiers a (some (construct admin key)))
    ∨ (∃ ctx a c s s', e = .verifier ctx a c ∧ d.verifiers a = some s
      ∧ execKey ctx s c = .ok s'
      ∧ d'.verifiers = Function.update d.verifiers a (some s'))
    ∨ ((∃ e', e = .chain e') ∧ d'.verifiers = d.verifiers) := by
  cases e with
  | chain e =>
      simp only [step, bind_eq_ok, pure_eq_ok] at hstep
      obtain ⟨w, -, rfl⟩ := hstep
      exact .inr (.inr ⟨⟨e, rfl⟩, rfl⟩)
  | deploy a admin vkBytes =>
      simp only [step, bind_eq_ok, panicIf_eq_ok, pure_eq_ok] at hstep
      obtain ⟨_, hnone, rfl⟩ := hstep
      exact .inl ⟨a, admin, vkBytes, rfl, by simpa using hnone, rfl⟩
  | verifier ctx a call =>
      simp only [step, bind_eq_ok, orPanic_eq_ok, pure_eq_ok] at hstep
      obtain ⟨s, hs, s', hexec, rfl⟩ := hstep
      exact .inr (.inl ⟨ctx, a, call, s, s', rfl, hs, hexec, rfl⟩)

/-- What one accepted event keeps. -/
theorem KeyInv.step (hinv : KeyInv h d) {env : Env} {e : Event L}
    (hstep : step env d e = .ok d') : KeyInv (h ++ [⟨d, e, d'⟩]) d' := by
  intro b s hb
  rcases step_verifiers hstep with ⟨a, admin, key, rfl, -, hd⟩
    | ⟨ctx, a, c, s₀, s', rfl, hs₀, hexec, hd⟩ | ⟨⟨e', rfl⟩, hd⟩
  · rw [hd] at hb
    by_cases hba : b = a
    · subst hba
      rw [Function.update_self] at hb
      injection hb with hb
      subst hb
      refine ⟨admin, key, rfl, rfl, ⟨_, List.mem_append_right _
        (List.mem_singleton_self _), key, rfl⟩, h, _, [], rfl, rfl, ?_,
        List.forall_mem_nil _⟩
      nofun
    · rw [Function.update_of_ne hba] at hb
      obtain ⟨admin', key', hadmin, hkey, hstored⟩ := hinv b s hb
      refine ⟨admin', key', hadmin, hkey, hstored.aside fun key'' hw => ?_⟩
      injection hw with hw
      injection hw with hw
      exact hba hw.symm
  · rw [hd] at hb
    by_cases hba : b = a
    · subst hba
      rw [Function.update_self] at hb
      injection hb with hb
      subst hb
      obtain ⟨admin, key, hadmin, hkey, hstored⟩ := hinv b s₀ hs₀
      obtain ⟨⟨admin', hadmin', hauth⟩, hsame⟩ := execKey_admin hexec
      rw [hadmin] at hadmin'
      injection hadmin' with hadmin'
      subst hadmin'
      cases c with
      | setVk vkBytes =>
          obtain ⟨-, -, rfl⟩ := setVk_ok hexec
          refine ⟨admin, vkBytes, hadmin, rfl, .write hstored.deployed rfl ?_⟩
          intro ctx' c' he
          injection he with hctx
          exact hctx ▸ hauth
      | freezeVk =>
          obtain ⟨-, rfl⟩ := freezeVk_ok hexec
          exact ⟨admin, key, hadmin, hkey, hstored.aside nofun⟩
    · rw [Function.update_of_ne hba] at hb
      obtain ⟨admin', key', hadmin, hkey, hstored⟩ := hinv b s hb
      refine ⟨admin', key', hadmin, hkey, hstored.aside fun key'' hw => ?_⟩
      cases c with
      | setVk vkBytes =>
          injection hw with hw
          injection hw with hw
          exact hba hw.symm
      | freezeVk => cases hw
  · rw [hd] at hb
    obtain ⟨admin, key, hadmin, hkey, hstored⟩ := hinv b s hb
    exact ⟨admin, key, hadmin, hkey, hstored.aside nofun⟩

theorem KeyInv.run (env : Env) (w : World L) (es : List (Event L)) :
    KeyInv (history env w es) (after env w es) :=
  history_induction KeyInv (fun a s hs => by cases hs)
    (fun _ _ _ _ hinv hstep => hinv.step hstep) es

-- ========================================================= settlements

/-- An accepted settlement of the pool. -/
def Settles (t : Transition (Deployment L) (Event L)) (c : Call) : Prop :=
  c.Settles ∧ ∃ ctx witness, t.event = .chain (.pool ctx c witness)

theorem verified_of_step {env : Env}
    {t : Transition (Deployment L) (Event L)} {c : Call}
    (hstep : step env t.before t.event = .ok t.after) (hc : Settles t c) :
    ∃ a s, t.before.verifiers a = some s
      ∧ c.VerifiedAt env t.before.seen a s.vk := by
  obtain ⟨hc, ctx, witness, he⟩ := hc
  rw [he] at hstep
  simp only [step, Lumix.step, bind_eq_ok, pure_eq_ok] at hstep
  obtain ⟨w, hexec, -⟩ := hstep
  obtain ⟨a, vk, hverified⟩ := exec_verified hexec hc
  obtain ⟨s, hs, rfl⟩ := Option.map_eq_some_iff.mp hverified.stored
  exact ⟨a, s, hs, hverified⟩

/-- Every settlement that a run accepts had its proof verified where the
pool has settlements of its kind verified, against the last key written
there before, by the deployer or by the admin the deployer named. -/
theorem settled_under_key (env : Env) (w : World L) (es : List (Event L))
    {x y : List (Transition (Deployment L) (Event L))}
    {t : Transition (Deployment L) (Event L)} {c : Call}
    (h : history env w es = x ++ t :: y) (hc : Settles t c) :
    ∃ a admin key, c.VerifiedAt env t.before.seen a (some key)
      ∧ Stored x a admin key := by
  obtain ⟨es', rfl, hrun, hstep⟩ := accepted_split h
  obtain ⟨a, s, hs, hverified⟩ := verified_of_step hstep hc
  rw [← hrun] at hs
  obtain ⟨admin, key, -, hkey, hstored⟩ := KeyInv.run env w es' a s hs
  rw [hkey] at hverified
  exact ⟨a, admin, key, hverified, hstored⟩

/-- A frozen verifier stays as it is. -/
theorem frozen_run (env : Env) {d : Deployment L} {a : Address}
    {s : ProofVerifier.Storage} (hs : d.verifiers a = some s)
    (hfrozen : s.frozen = some true) (fs : List (Event L)) :
    (run (step env) d fs).verifiers a = some s := by
  refine run_induction (fun d' : Deployment L => d'.verifiers a = some s)
    hs ?_ fs
  intro d₁ d₂ e hd hstep
  rcases step_verifiers hstep with ⟨b, admin, key, -, hnone, hd₂⟩
    | ⟨ctx, b, c, s₀, s', -, hs₀, hexec, hd₂⟩ | ⟨-, hd₂⟩
  · rw [hd₂, Function.update_of_ne]
    · exact hd
    · rintro rfl
      rw [hnone] at hd
      cases hd
  · rw [hd₂]
    by_cases hab : a = b
    · subst hab
      rw [hs₀] at hd
      injection hd with hd
      subst hd
      rw [Function.update_self, frozen_stays hfrozen hexec]
    · rw [Function.update_of_ne hab]
      exact hd
  · rw [hd₂]
    exact hd

/-- Once a verifier is frozen, every settlement that is ever verified
there is verified against the key it was frozen with, and nobody can ask
for another. -/
theorem settled_under_frozen (env : Env) (w : World L)
    (es fs : List (Event L)) {a : Address} {s : ProofVerifier.Storage}
    (hs : (after env w es).verifiers a = some s)
    (hfrozen : s.frozen = some true) :
    ∃ key, s.vk = some key
      ∧ (∀ t ∈ accepted (step env) (after env w es) fs, ∀ c, Settles t c →
        c.verifierOf t.before.world.pool = some a →
          c.VerifiedAt env t.before.seen a (some key))
      ∧ ∀ ctx vkBytes,
        step env (after env w (es ++ fs)) (.verifier ctx a (.setVk vkBytes))
          = .error VerifierError.frozen.trap := by
  obtain ⟨admin, key, -, hkey, -⟩ := KeyInv.run env w es a s hs
  refine ⟨key, hkey, fun t ht c hc hslot => ?_, fun ctx vkBytes => ?_⟩
  · obtain ⟨b, s', hs', hverified⟩ :=
      verified_of_step (step_of_mem_accepted ht) hc
    have hba : b = a := Option.some.inj (hverified.slot.symm.trans hslot)
    subst hba
    obtain ⟨x, y, hsplit⟩ := List.mem_iff_append.mp ht
    obtain ⟨fs', -, hrun, -⟩ := accepted_split hsplit
    have hkept := frozen_run env hs hfrozen fs'
    rw [hrun, hs'] at hkept
    injection hkept with hkept
    rw [hkept, hkey] at hverified
    exact hverified
  · have hkept := frozen_run env hs hfrozen fs
    rw [← run_append] at hkept
    show (orPanic Trap.noContract _ >>= _) = _
    rw [hkept]
    show (setVk ctx vkBytes s >>= _) = _
    rw [setVk_frozen hfrozen]
    rfl

-- ============================================================== a run

open Testnet

/-- The deposit verifier is deployed and frozen. -/
def frozenVerifier : List (Event SacLedger) := [
  .deploy depositVerifier Testnet.admin (keyBytes 14),
  .verifier Testnet.ctx depositVerifier .freezeVk]

/-- And the pool is set up. -/
def untilDeposit : List (Event SacLedger) :=
  frozenVerifier ++ setup.map .chain

/-- The deposit that follows is taken. -/
theorem deposit_taken :
    (step Testnet.env
    (after Testnet.env (genesis 100 0) untilDeposit)
    (.chain depositU)).isOk = true := by
  decide +kernel

theorem settled_under_key_deposit :
    ∃ (t : Transition (Deployment SacLedger) (Event SacLedger)) (c : Call),
    Settles t c ∧ ∃ a admin key,
      c.VerifiedAt Testnet.env t.before.seen a (some key)
        ∧ Stored (history Testnet.env (genesis 100 0) untilDeposit) a admin
          key := by
  have htaken := deposit_taken
  cases hstep : step Testnet.env
      (after Testnet.env (genesis 100 0) untilDeposit)
      (.chain depositU) with
  | error e => rw [hstep] at htaken; cases htaken
  | ok d =>
      have hc : Settles ⟨after Testnet.env (genesis 100 0) untilDeposit,
          .chain depositU, d⟩
          (depositCall usdc 100 0x100 (mint noteU 0x100 1000 100 1) []) :=
        ⟨trivial, Testnet.ctx, _, rfl⟩
      exact ⟨_, _, hc, settled_under_key Testnet.env (genesis 100 0)
        (untilDeposit ++ [.chain depositU]) (accepted_concat_ok hstep) hc⟩

theorem settled_under_frozen_deposit :
    ∃ key, some (keyBytes 14) = some key
      ∧ (∀ t ∈ accepted (step Testnet.env)
          (after Testnet.env (genesis 100 0) frozenVerifier)
          (setup.map .chain ++ [.chain depositU]), ∀ c, Settles t c →
        c.verifierOf t.before.world.pool = some depositVerifier →
          c.VerifiedAt Testnet.env t.before.seen depositVerifier (some key))
      ∧ ∀ ctx vkBytes, step Testnet.env
          (after Testnet.env (genesis 100 0) (frozenVerifier
            ++ (setup.map .chain ++ [.chain depositU])))
          (.verifier ctx depositVerifier (.setVk vkBytes))
        = .error VerifierError.frozen.trap :=
  settled_under_frozen Testnet.env (genesis 100 0) frozenVerifier _
    (s := ⟨some Testnet.admin, some (keyBytes 14), some true⟩) rfl rfl

end Verified

end Lumix
