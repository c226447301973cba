/-
The pool and its nullifier registry as contracts a GovernanceGuardian
guards.

The two sides meet in `invoke_contract` alone: a function name and a
vector of arguments. The guardian passes the reason of a pause and
nothing to an unpause; neither `pause` nor `unpause` of the pool or of
the registry has a parameter. A call with the wrong number of arguments
traps, and takes the approval that made it with it, so a quorum can
unpause what it guards and can never pause it
(`approvePause_pauses_iff`).

Contracts other than these two, and these two once `upgrade` has
replaced their code, are not the repository's; what a call does there is
a parameter (`Foreign`).
-/
import Lumix.Contracts.GuardianSafety
import Lumix.Pool.Testnet

namespace Lumix

open Exec Run GovernanceGuardian

section Guarded

variable {env : Env} {L : Type}

-- ============================================================= dispatch

/-- The pool's world on a ledger where contract code can be replaced. An
address holds one contract. -/
structure Guarded (env : Env) (L : Type) where
  world : World L
  /-- the code `upgrade` installed, by contract -/
  replaced : Address → Option Word
  apart : world.pool.nullifierRegistry ≠ env.self

/-- The contracts that can be guarded. -/
inductive Guardee
  | shieldedPool
  | nullifierRegistry
  deriving DecidableEq

namespace Guardee

/-- Where the contract is. -/
def address (w : Guarded env L) : Guardee → Address
  | shieldedPool => env.self
  | nullifierRegistry => w.world.pool.nullifierRegistry

/-- Who may pause it. -/
def admin (w : World L) : Guardee → Option Address
  | shieldedPool => some w.pool.admin
  | nullifierRegistry => w.registry.admin

/-- Whether it is paused. -/
def paused (w : World L) : Guardee → Bool
  | shieldedPool => w.pool.paused
  | nullifierRegistry => w.registry.paused

/-- `pause` takes no argument in either. -/
def pause (ctx : Ctx) (w : World L) : Guardee → Except Trap (World L)
  | shieldedPool => administer ctx .pause w
  | nullifierRegistry => do
      let registry ← w.registry.pause ctx
      pure { w with registry }

/-- Nor does `unpause`. -/
def unpause (ctx : Ctx) (w : World L) : Guardee → Except Trap (World L)
  | shieldedPool => administer ctx .unpause w
  | nullifierRegistry => do
      let registry ← w.registry.unpause ctx
      pure { w with registry }

/-- A pause moves the registry to no other address. -/
theorem pause_kept {ctx : Ctx} {w w' : World L} {c : Guardee}
    (h : c.pause ctx w = .ok w') :
    w'.pool.nullifierRegistry = w.pool.nullifierRegistry := by
  cases c with
  | shieldedPool =>
      simp only [pause, administer, bind_eq_ok, pure_eq_ok] at h
      obtain ⟨_, -, rfl⟩ := h
      rfl
  | nullifierRegistry =>
      simp only [pause, bind_eq_ok, pure_eq_ok] at h
      obtain ⟨_, -, rfl⟩ := h
      rfl

theorem unpause_kept {ctx : Ctx} {w w' : World L} {c : Guardee}
    (h : c.unpause ctx w = .ok w') :
    w'.pool.nullifierRegistry = w.pool.nullifierRegistry := by
  cases c with
  | shieldedPool =>
      simp only [unpause, administer, bind_eq_ok, pure_eq_ok] at h
      obtain ⟨_, -, rfl⟩ := h
      rfl
  | nullifierRegistry =>
      simp only [unpause, bind_eq_ok, pure_eq_ok] at h
      obtain ⟨_, -, rfl⟩ := h
      rfl

/-- The admin's unpause is accepted. -/
theorem unpause_admin {ctx : Ctx} {w : World L} {c : Guardee}
    {a : Address} (hadmin : c.admin w = some a) (hauth : ctx.auth a = true) :
    ∃ w', c.unpause ctx w = .ok w' ∧ c.paused w' = false := by
  cases c with
  | shieldedPool =>
      injection hadmin with hadmin
      refine ⟨{ w with pool := { w.pool with paused := false } }, ?_, rfl⟩
      simp only [unpause, administer, Pool.requireAdmin, Ctx.requireAuth,
        bind_eq_ok, pure_eq_ok, panicIf_eq_ok]
      exact ⟨(), by rw [hadmin, hauth]; decide, rfl⟩
  | nullifierRegistry =>
      refine ⟨{ w with registry := { w.registry with paused := false } },
        ?_, rfl⟩
      simp only [unpause, NullifierRegistry.unpause,
        NullifierRegistry.requireAdmin, Ctx.requireAuth, bind_eq_ok,
        pure_eq_ok, panicIf_eq_ok, orPanic_eq_ok]
      exact ⟨_, ⟨(), ⟨a, hadmin, by rw [hauth]; decide⟩, rfl⟩, rfl⟩

end Guardee

namespace Guarded

/-- A call that leaves the registry where it is, on the whole ledger. -/
def lift (w : Guarded env L) (f : World L → Except Trap (World L))
    (hkept : ∀ {w w' : World L}, f w = .ok w' →
      w'.pool.nullifierRegistry = w.pool.nullifierRegistry) :
    Except Trap (Guarded env L) :=
  match h : f w.world with
  | .ok world => .ok { w with world, apart := by rw [hkept h]; exact w.apart }
  | .error t => .error t

theorem lift_ok (w : Guarded env L) (f : World L → Except Trap (World L))
    (hkept : ∀ {w w' : World L}, f w = .ok w' →
      w'.pool.nullifierRegistry = w.pool.nullifierRegistry)
    {world : World L} (h : f w.world = .ok world) :
    ∃ w', w.lift f hkept = .ok w' ∧ w'.world = world := by
  unfold lift
  split
  case h_1 world' hf =>
    rw [h] at hf
    injection hf with hf
    exact ⟨_, rfl, hf.symm⟩
  case h_2 t hf =>
    rw [h] at hf
    cases hf

/-- The contract of the repository at an address. -/
def codeAt (w : Guarded env L) (contract : Address) : Option Guardee :=
  if w.replaced contract ≠ none then none
  else if contract = env.self then some .shieldedPool
  else if contract = w.world.pool.nullifierRegistry then
    some .nullifierRegistry
  else none

/-- A call of one of the two contracts: a function of that name with
that many parameters, or a trap. -/
def call (ctx : Ctx) (w : Guarded env L) (c : Guardee) (method : Method)
    (args : List Word) : Except Trap (Guarded env L) :=
  match c, method, args with
  | c, .pause, [] => w.lift (c.pause ctx ·) Guardee.pause_kept
  | c, .unpause, [] => w.lift (c.unpause ctx ·) Guardee.unpause_kept
  | .shieldedPool, .upgrade, [newWasmHash] => do
      w.world.pool.requireAdmin ctx
      pure { w with replaced :=
        Function.update w.replaced env.self (some newWasmHash) }
  | .nullifierRegistry, .upgrade, _ => .error .noFunction
  | _, _, _ => .error .arity

end Guarded

/-- Code that is not in the repository. -/
class Foreign (env : Env) (L : Type) where
  call : Ctx → (contract : Address) → Method → (args : List Word) →
    Guarded env L → Except Trap (Guarded env L)

instance [Foreign env L] : Targets (Guarded env L) where
  invoke ctx contract method args w :=
    match w.codeAt contract with
    | some c => w.call ctx c method args
    | none => Foreign.call ctx contract method args w

-- ============================================================== pausing

section Pausing

theorem codeAt_address {w : Guarded env L} {c : Guardee}
    (hcode : w.replaced (c.address w) = none) :
    w.codeAt (c.address w) = some c := by
  unfold Guarded.codeAt
  rw [if_neg (by simpa using hcode)]
  cases c with
  | shieldedPool => exact if_pos rfl
  | nullifierRegistry =>
      show (if w.world.pool.nullifierRegistry = env.self then _ else _) = _
      rw [if_neg w.apart]
      exact if_pos rfl

variable [Foreign env L]

/-- A call of a guarded contract is one of its own functions. -/
theorem invoke_guardee {w : Guarded env L} {c : Guardee} {a : Address}
    (ha : a = c.address w) (hcode : w.replaced (c.address w) = none)
    (ctx : Ctx) (method : Method) (args : List Word) :
    Targets.invoke ctx a method args w = w.call ctx c method args := by
  subst ha
  show (match w.codeAt (c.address w) with
    | some c => w.call ctx c method args
    | none => Foreign.call ctx (c.address w) method args w) = _
  rw [codeAt_address hcode]

omit [Foreign env L] in
/-- A pause is called with one argument too many. -/
theorem call_pause (w : Guarded env L) (ctx : Ctx) (c : Guardee)
    (id : UInt32) {p : PauseProposal} (hp : p.unpause = false) :
    w.call ctx c (p.invocation id).method (p.invocation id).args
      = .error .arity := by
  unfold PauseProposal.invocation
  rw [hp]
  cases c <;> rfl

omit [Foreign env L] in
/-- An unpause is called as it is declared. -/
theorem call_unpause {w : Guarded env L} {ctx : Ctx} {c : Guardee}
    (id : UInt32) {p : PauseProposal} (hp : p.unpause = true) {a : Address}
    (hadmin : c.admin w.world = some a) (hauth : ctx.auth a = true) :
    ∃ w', w.call ctx c (p.invocation id).method (p.invocation id).args
        = .ok w'
      ∧ c.paused w'.world = false := by
  obtain ⟨world, hcall, hoff⟩ := Guardee.unpause_admin hadmin hauth
  have hlift : w.call ctx c (p.invocation id).method
      (p.invocation id).args
        = w.lift (c.unpause ctx ·) Guardee.unpause_kept := by
    unfold PauseProposal.invocation
    rw [hp]
    cases c <;> rfl
  rw [hlift]
  obtain ⟨w', hw', rfl⟩ :=
    w.lift_ok (c.unpause ctx ·) Guardee.unpause_kept hcall
  exact ⟨w', hw', hoff⟩

/-- The last approval missing: a further guardian's approval succeeds and
leaves the contract as the proposal asks exactly when the proposal is an
unpause that has not been executed. -/
theorem approvePause_pauses_iff {self : Address}
    {w : Governed (Guarded env L)} {c : Guardee}
    (hcode : w.targets.replaced (c.address w.targets) = none)
    (hadmin : c.admin w.targets.world = some self)
    {id : UInt32} {p : PauseProposal}
    (hp : w.guardian.pauseProposal id = some p)
    (htarget : p.contractId = c.address w.targets)
    (hshort : p.approvals.length + 1 = w.guardian.threshold.toNat)
    {ctx : Ctx} {a : Address} (hguardian : a ∈ w.guardian.guardians)
    (hauth : ctx.auth a = true) (hnew : a ∉ p.approvals) :
    (∃ w', approvePause self ctx a id w = .ok w'
        ∧ c.paused w'.targets.world = !p.unpause)
      ↔ p.unpause = true ∧ p.executed = false := by
  have hinvoke : Targets.invoke (ctx.invokedBy self) p.contractId
      (p.invocation id).method (p.invocation id).args w.targets
        = w.targets.call (ctx.invokedBy self) c (p.invocation id).method
          (p.invocation id).args :=
    invoke_guardee htarget hcode _ _ _
  constructor
  · rintro ⟨w', happrove, -⟩
    obtain ⟨hopen, targets, hcall, -⟩ :=
      (approvePause_last hp hshort.ge hguardian hauth hnew).mp happrove
    refine ⟨?_, hopen⟩
    by_contra hpause
    rw [Bool.not_eq_true] at hpause
    rw [hinvoke, call_pause w.targets _ c id hpause] at hcall
    cases hcall
  · rintro ⟨hunpause, hopen⟩
    have hself : (ctx.invokedBy self).auth self = true := by
      simp [Ctx.invokedBy]
    obtain ⟨targets, hcall, hoff⟩ := call_unpause id hunpause hadmin hself
    rw [← hinvoke] at hcall
    refine ⟨_, (approvePause_last hp hshort.ge hguardian hauth hnew).mpr
      ⟨hopen, targets, hcall, rfl⟩, ?_⟩
    rw [hunpause]
    exact hoff

end Pausing

end Guarded

-- =========================================================== evaluation

namespace Testnet

def guardian : Address := ⟨11⟩

def guardianAdmin : Address := ⟨12⟩

def g1 : Address := ⟨13⟩

def g2 : Address := ⟨14⟩

/-- The pool, constructed with the guardian as its admin. -/
def guardedGenesis : Guarded env SacLedger where
  world := { genesis 0 0 with
    pool := Pool.construct guardian usdc withdrawVerifier nullifierRegistry
      12 1 27 }
  replaced _ := none
  apart := by decide

instance : Foreign env SacLedger where
  call _ _ _ _ _ := .error .noContract

/-- Two guardians, both needed, and the first proposes to pause or to
unpause the pool. -/
def proposed (unpause : Bool) : Governed (Guarded env SacLedger) :=
  run (GovernanceGuardian.step guardian)
    { guardian := GovernanceGuardian.empty
      targets := guardedGenesis
      invoked := []
      events := [] }
    [.call ctx (.init guardianAdmin [g1, g2] 2 100),
      .call ctx (.proposePause g1 pool 7 unpause)]

/-- The second guardian's approval of an unpause unpauses the pool. -/
theorem approvePause_unpauses :
    ∃ w', approvePause guardian ctx g2 0 (proposed true) = .ok w'
      ∧ Guardee.shieldedPool.paused w'.targets.world = false := by
  have hp : (proposed true).guardian.pauseProposal 0
      = some ⟨pool, 7, true, [g1], false⟩ := rfl
  have hguardian : g2 ∈ (proposed true).guardian.guardians := by decide
  exact (approvePause_pauses_iff (c := .shieldedPool) rfl rfl hp rfl rfl
    hguardian rfl (by decide)).mpr ⟨rfl, rfl⟩

/-- Its approval of a pause traps, with everything in place. -/
theorem approvePause_traps :
    (proposed false).guardian.pauseProposal 0
        = some ⟨pool, 7, false, [g1], false⟩
      ∧ (proposed false).guardian.threshold = 2
      ∧ g2 ∈ (proposed false).guardian.guardians
      ∧ Guardee.shieldedPool.address (proposed false).targets = pool
      ∧ Guardee.shieldedPool.admin (proposed false).targets.world
        = some guardian
      ∧ approvePause guardian ctx g2 0 (proposed false) = .error .arity :=
  ⟨rfl, rfl, by decide, rfl, rfl, rfl⟩

end Testnet

end Lumix
