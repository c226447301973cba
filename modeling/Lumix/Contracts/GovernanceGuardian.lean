/-
The GovernanceGuardian contract: a set of guardians with an M-of-N
threshold, proposals to pause or unpause a contract (executed by the
approval that reaches the threshold) and proposals to upgrade one (a
quorum is recorded, a delay runs, anyone executes, any guardian cancels).

The contracts a guardian acts on are not its own code. They enter as
`Targets`: what `invoke_contract` does to the rest of the ledger. The
host refuses a call back into a contract that is still running, so an
invocation never touches the guardian's own storage.

`invoked` is a ghost: the calls made on behalf of proposals, in order.
`step_ok` says once what an accepted event can do.
-/
import Mathlib.Logic.Function.Basic
import Lumix.Contracts.Host

namespace Lumix

open Exec

/-- `Error`, in declaration order from 1. -/
inductive GuardianError
  | notInitialized
  | notGuardian
  | alreadyApproved
  | proposalNotFound
  | thresholdNotMet
  | timelockNotElapsed
  | alreadyExecuted
  | invalidThreshold

/-- Errors are numbered from one. -/
def GuardianError.trap (e : GuardianError) : Trap :=
  .contract (e.ctorIdx + 1)

/-- The entrypoints a guardian invokes on its targets. -/
inductive Method
  | pause
  | unpause
  | upgrade
  deriving DecidableEq

/-- The contracts on the ledger. Every argument a guardian passes is a
`BytesN<32>`. -/
class Targets (T : Type) where
  /-- `invoke_contract` -/
  invoke : Ctx → (contract : Address) → Method → (args : List Word) → T →
    Except Trap T

-- ============================================================ storage

/-- A proposal to pause a contract or to unpause it. -/
structure PauseProposal where
  contractId : Address
  reasonHash : Word
  /-- false = pause, true = unpause -/
  unpause : Bool
  approvals : List Address
  executed : Bool

/-- A proposal to upgrade a contract. -/
structure UpgradeProposal where
  contractId : Address
  newWasmHash : Word
  approvals : List Address
  /-- `none` until the threshold is reached -/
  quorumAtLedger : Option UInt32
  executed : Bool
  cancelled : Bool

/-- The contract's storage. -/
structure GovernanceGuardian where
  admin : Option Address
  storedGuardians : Option (List Address)
  storedThreshold : Option UInt32
  upgradeDelay : Option UInt32
  nextProposalId : Option UInt32
  pauseProposal : UInt32 → Option PauseProposal
  upgradeProposal : UInt32 → Option UpgradeProposal

/-- What it publishes. -/
inductive GuardianEvent
  | pause (id : UInt32) (contractId : Address) (unpause : Bool)
  | upquorum (id : UInt32) (contractId : Address)
  | upcancel (id : UInt32) (guardian : Address)
  | upgraded (id : UInt32) (contractId : Address)

/-- A call made on behalf of a proposal. -/
structure Invocation where
  proposal : UInt32
  contract : Address
  method : Method
  args : List Word
  deriving DecidableEq

/-- The guardian and the rest of the ledger. -/
structure Governed (T : Type) where
  guardian : GovernanceGuardian
  targets : T
  invoked : List Invocation
  events : List GuardianEvent

namespace GovernanceGuardian

/-- A freshly deployed guardian. -/
def empty : GovernanceGuardian where
  admin := none
  storedGuardians := none
  storedThreshold := none
  upgradeDelay := none
  nextProposalId := none
  pauseProposal _ := none
  upgradeProposal _ := none

/-- No guardians before `initialize`. -/
def guardians (g : GovernanceGuardian) : List Address :=
  g.storedGuardians.getD []

/-- One before `initialize`. -/
def threshold (g : GovernanceGuardian) : UInt32 :=
  g.storedThreshold.getD 1

/-- The id the next proposal gets. -/
def next (g : GovernanceGuardian) : UInt32 := g.nextProposalId.getD 0

/-- The delay in force. -/
def delay (g : GovernanceGuardian) : UInt32 := g.upgradeDelay.getD 0

/-- A pause proposal is stored. -/
def putPause (g : GovernanceGuardian) (id : UInt32) (p : PauseProposal) :
    GovernanceGuardian :=
  { g with pauseProposal := Function.update g.pauseProposal id (some p) }

/-- An upgrade proposal is stored. -/
def putUpgrade (g : GovernanceGuardian) (id : UInt32)
    (p : UpgradeProposal) : GovernanceGuardian :=
  { g with
    upgradeProposal := Function.update g.upgradeProposal id (some p) }

-- =============================================================== roles

/-- The stored admin has to sign. -/
def requireAdmin (ctx : Ctx) (g : GovernanceGuardian) :
    Except Trap Unit := do
  let admin ← orPanic GuardianError.notInitialized.trap g.admin
  ctx.requireAuth admin

/-- The address has to be in the set. -/
def requireIsGuardian (guardian : Address) (g : GovernanceGuardian) :
    Except Trap Unit :=
  panicIf (guardian ∉ g.guardians) GuardianError.notGuardian.trap

/-- `initialize`. -/
def init (ctx : Ctx) (admin : Address) (guardians : List Address)
    (threshold upgradeDelayLedgers : UInt32) (g : GovernanceGuardian) :
    Except Trap GovernanceGuardian := do
  panicIf (g.admin.isSome = true) (.panic "already initialized")
  ctx.requireAuth admin
  let len ← u32 guardians.length
  panicIf (threshold.toNat = 0 ∨ threshold.toNat > len)
    GuardianError.invalidThreshold.trap
  pure { g with
    admin := some admin
    storedGuardians := some guardians
    storedThreshold := some threshold
    upgradeDelay := some upgradeDelayLedgers
    nextProposalId := some 0 }

/-- `add_guardian`; one that is there is not added again. -/
def addGuardian (ctx : Ctx) (guardian : Address) (g : GovernanceGuardian) :
    Except Trap GovernanceGuardian := do
  g.requireAdmin ctx
  if guardian ∈ g.guardians then pure g
  else pure { g with storedGuardians := some (g.guardians ++ [guardian]) }

/-- `remove_guardian`, as long as the threshold can still be reached. -/
def removeGuardian (ctx : Ctx) (guardian : Address)
    (g : GovernanceGuardian) : Except Trap GovernanceGuardian := do
  g.requireAdmin ctx
  let kept := g.guardians.filter (· ≠ guardian)
  let len ← u32 kept.length
  panicIf (g.threshold.toNat > len) GuardianError.invalidThreshold.trap
  pure { g with storedGuardians := some kept }

/-- `set_threshold`, within the number of guardians. -/
def setThreshold (ctx : Ctx) (threshold : UInt32)
    (g : GovernanceGuardian) : Except Trap GovernanceGuardian := do
  g.requireAdmin ctx
  let len ← u32 g.guardians.length
  panicIf (threshold.toNat = 0 ∨ threshold.toNat > len)
    GuardianError.invalidThreshold.trap
  pure { g with storedThreshold := some threshold }

/-- `next_id`. -/
def nextId (g : GovernanceGuardian) :
    Except Trap (UInt32 × GovernanceGuardian) := do
  let _ ← u32 (g.next.toNat + 1)
  pure (g.next, { g with nextProposalId := some (g.next + 1) })

end GovernanceGuardian

-- =========================================================== proposals

open GovernanceGuardian

variable {T : Type} [Targets T] (self : Address)

/-- The call a pause proposal asks for: the reason is passed to `pause`,
nothing to `unpause`. -/
def PauseProposal.invocation (p : PauseProposal) (id : UInt32) :
    Invocation where
  proposal := id
  contract := p.contractId
  method := if p.unpause then .unpause else .pause
  args := if p.unpause then [] else [p.reasonHash]

/-- The call it asks for. -/
def UpgradeProposal.invocation (p : UpgradeProposal) (id : UInt32) :
    Invocation where
  proposal := id
  contract := p.contractId
  method := .upgrade
  args := [p.newWasmHash]

/-- `invoke_contract` on behalf of a proposal. -/
def Governed.invoke (ctx : Ctx) (inv : Invocation) (w : Governed T) :
    Except Trap (Governed T) := do
  let targets ← Targets.invoke (ctx.invokedBy self) inv.contract inv.method
    inv.args w.targets
  pure { w with targets, invoked := w.invoked ++ [inv] }

/-- A pause is executed at the approval that completes it. -/
def tryExecutePause (ctx : Ctx) (id : UInt32) (proposal : PauseProposal)
    (w : Governed T) : Except Trap (Governed T) := do
  if proposal.approvals.length < w.guardian.threshold.toNat then pure w
  else do
    let w ← w.invoke self ctx (proposal.invocation id)
    let done := { proposal with executed := true }
    pure { w with
      guardian := w.guardian.putPause id done
      events := w.events
        ++ [.pause id proposal.contractId proposal.unpause] }

/-- `propose_pause`; to propose is to approve. -/
def proposePause (ctx : Ctx) (guardian contractId : Address)
    (reasonHash : Word) (unpause : Bool) (w : Governed T) :
    Except Trap (UInt32 × Governed T) := do
  w.guardian.requireIsGuardian guardian
  ctx.requireAuth guardian
  let (id, g) ← w.guardian.nextId
  let proposal : PauseProposal :=
    { contractId, reasonHash, unpause, approvals := [guardian]
      executed := false }
  let w ← tryExecutePause self ctx id proposal
    { w with guardian := g.putPause id proposal }
  pure (id, w)

/-- `approve_pause` -/
def approvePause (ctx : Ctx) (guardian : Address) (proposalId : UInt32)
    (w : Governed T) : Except Trap (Governed T) := do
  w.guardian.requireIsGuardian guardian
  ctx.requireAuth guardian
  let proposal ← orPanic GuardianError.proposalNotFound.trap
    (w.guardian.pauseProposal proposalId)
  panicIf (proposal.executed = true) GuardianError.alreadyExecuted.trap
  panicIf (guardian ∈ proposal.approvals)
    GuardianError.alreadyApproved.trap
  let proposal := { proposal with
    approvals := proposal.approvals ++ [guardian] }
  tryExecutePause self ctx proposalId proposal
    { w with guardian := w.guardian.putPause proposalId proposal }

omit [Targets T] in

/-- The ledger of the quorum is recorded once, and starts the delay. -/
def checkUpgradeQuorum (ctx : Ctx) (id : UInt32)
    (proposal : UpgradeProposal) (w : Governed T) : Governed T :=
  if proposal.quorumAtLedger = none
      ∧ w.guardian.threshold.toNat ≤ proposal.approvals.length then
    { w with
      guardian := w.guardian.putUpgrade id
        { proposal with quorumAtLedger := some ctx.sequence }
      events := w.events ++ [.upquorum id proposal.contractId] }
  else w

omit [Targets T] in

/-- `propose_upgrade`; to propose is to approve. -/
def proposeUpgrade (ctx : Ctx) (guardian contractId : Address)
    (newWasmHash : Word) (w : Governed T) :
    Except Trap (UInt32 × Governed T) := do
  w.guardian.requireIsGuardian guardian
  ctx.requireAuth guardian
  let (id, g) ← w.guardian.nextId
  let proposal : UpgradeProposal :=
    { contractId, newWasmHash, approvals := [guardian]
      quorumAtLedger := none, executed := false, cancelled := false }
  pure (id, checkUpgradeQuorum ctx id proposal
    { w with guardian := g.putUpgrade id proposal })

omit [Targets T] in

/-- `approve_upgrade` -/
def approveUpgrade (ctx : Ctx) (guardian : Address) (proposalId : UInt32)
    (w : Governed T) : Except Trap (Governed T) := do
  w.guardian.requireIsGuardian guardian
  ctx.requireAuth guardian
  let proposal ← orPanic GuardianError.proposalNotFound.trap
    (w.guardian.upgradeProposal proposalId)
  panicIf (proposal.executed = true ∨ proposal.cancelled = true)
    GuardianError.alreadyExecuted.trap
  panicIf (guardian ∈ proposal.approvals)
    GuardianError.alreadyApproved.trap
  let proposal := { proposal with
    approvals := proposal.approvals ++ [guardian] }
  pure (checkUpgradeQuorum ctx proposalId proposal
    { w with guardian := w.guardian.putUpgrade proposalId proposal })

omit [Targets T] in

/-- `cancel_upgrade`, by any guardian. -/
def cancelUpgrade (ctx : Ctx) (guardian : Address) (proposalId : UInt32)
    (w : Governed T) : Except Trap (Governed T) := do
  w.guardian.requireIsGuardian guardian
  ctx.requireAuth guardian
  let proposal ← orPanic GuardianError.proposalNotFound.trap
    (w.guardian.upgradeProposal proposalId)
  panicIf (proposal.executed = true) GuardianError.alreadyExecuted.trap
  pure { w with
    guardian := w.guardian.putUpgrade proposalId
      { proposal with cancelled := true }
    events := w.events ++ [.upcancel proposalId guardian] }

/-- `execute_upgrade`, by anyone, when the delay is over. -/
def executeUpgrade (ctx : Ctx) (proposalId : UInt32) (w : Governed T) :
    Except Trap (Governed T) := do
  let proposal ← orPanic GuardianError.proposalNotFound.trap
    (w.guardian.upgradeProposal proposalId)
  panicIf (proposal.executed = true ∨ proposal.cancelled = true)
    GuardianError.alreadyExecuted.trap
  let quorumLedger ← orPanic GuardianError.thresholdNotMet.trap
    proposal.quorumAtLedger
  let due ← u32 (quorumLedger.toNat + w.guardian.delay.toNat)
  panicIf (ctx.sequence.toNat < due)
    GuardianError.timelockNotElapsed.trap
  let w ← w.invoke self ctx (proposal.invocation proposalId)
  let done := { proposal with executed := true }
  pure { w with
    guardian := w.guardian.putUpgrade proposalId done
    events := w.events ++ [.upgraded proposalId proposal.contractId] }

-- ============================================================== events

namespace GovernanceGuardian

/-- The guardian's entrypoints. -/
inductive Call
  | init (admin : Address) (guardians : List Address)
      (threshold upgradeDelayLedgers : UInt32)
  | addGuardian (guardian : Address)
  | removeGuardian (guardian : Address)
  | setThreshold (threshold : UInt32)
  | proposePause (guardian contractId : Address) (reasonHash : Word)
      (unpause : Bool)
  | approvePause (guardian : Address) (proposalId : UInt32)
  | proposeUpgrade (guardian contractId : Address) (newWasmHash : Word)
  | approveUpgrade (guardian : Address) (proposalId : UInt32)
  | cancelUpgrade (guardian : Address) (proposalId : UInt32)
  | executeUpgrade (proposalId : UInt32)

/-- Run a call, dropping its return value. -/
def exec (ctx : Ctx) (w : Governed T) : Call → Except Trap (Governed T)
  | .init admin guardians threshold delay => do
      let g ← w.guardian.init ctx admin guardians threshold delay
      pure { w with guardian := g }
  | .addGuardian guardian => do
      let g ← w.guardian.addGuardian ctx guardian
      pure { w with guardian := g }
  | .removeGuardian guardian => do
      let g ← w.guardian.removeGuardian ctx guardian
      pure { w with guardian := g }
  | .setThreshold threshold => do
      let g ← w.guardian.setThreshold ctx threshold
      pure { w with guardian := g }
  | .proposePause guardian contractId reasonHash unpause => do
      let (_, w) ← Lumix.proposePause self ctx guardian contractId
        reasonHash unpause w
      pure w
  | .approvePause guardian proposalId =>
      Lumix.approvePause self ctx guardian proposalId w
  | .proposeUpgrade guardian contractId newWasmHash => do
      let (_, w) ← Lumix.proposeUpgrade ctx guardian contractId
        newWasmHash w
      pure w
  | .approveUpgrade guardian proposalId =>
      Lumix.approveUpgrade ctx guardian proposalId w
  | .cancelUpgrade guardian proposalId =>
      Lumix.cancelUpgrade ctx guardian proposalId w
  | .executeUpgrade proposalId =>
      Lumix.executeUpgrade self ctx proposalId w

/-- A call, or the contracts that are guarded move. -/
inductive Event (T : Type)
  /-- a call of the guardian by anyone -/
  | call (ctx : Ctx) (c : Call)
  /-- the rest of the ledger moved without the guardian -/
  | targets (t : T)

/-- One event; it changes nothing if it traps. -/
def step (w : Governed T) : Event T → Except Trap (Governed T)
  | .call ctx c => exec self ctx w c
  | .targets t => .ok { w with targets := t }

-- ============================================================== specs

/-- A call that files an approval of a pause proposal: under which id,
by whom, the record it leaves, and the storage it writes that record
into. -/
inductive PauseFiling (g : GovernanceGuardian) :
    Call → UInt32 → Address → PauseProposal → GovernanceGuardian → Prop
  | proposed {guardian contractId : Address} {reasonHash : Word}
      {unpause : Bool} (hroom : g.next.toNat + 1 < 2 ^ 32) :
      PauseFiling g (.proposePause guardian contractId reasonHash unpause)
        g.next guardian
        ⟨contractId, reasonHash, unpause, [guardian], false⟩
        { g with nextProposalId := some (g.next + 1) }
  | approved {guardian : Address} {id : UInt32} {p : PauseProposal}
      (hp : g.pauseProposal id = some p) (hopen : p.executed = false)
      (hnew : guardian ∉ p.approvals) :
      PauseFiling g (.approvePause guardian id) id guardian
        { p with approvals := p.approvals ++ [guardian] } g

/-- The same for an upgrade proposal, before the quorum is checked. -/
inductive UpgradeFiling (g : GovernanceGuardian) :
    Call → UInt32 → Address → UpgradeProposal → GovernanceGuardian → Prop
  | proposed {guardian contractId : Address} {newWasmHash : Word}
      (hroom : g.next.toNat + 1 < 2 ^ 32) :
      UpgradeFiling g (.proposeUpgrade guardian contractId newWasmHash)
        g.next guardian
        ⟨contractId, newWasmHash, [guardian], none, false, false⟩
        { g with nextProposalId := some (g.next + 1) }
  | approved {guardian : Address} {id : UInt32} {p : UpgradeProposal}
      (hp : g.upgradeProposal id = some p) (hopen : p.executed = false)
      (hlive : p.cancelled = false) (hnew : guardian ∉ p.approvals) :
      UpgradeFiling g (.approveUpgrade guardian id) id guardian
        { p with approvals := p.approvals ++ [guardian] } g

/-- What an accepted event did. -/
inductive Stepped (w : Governed T) : Event T → Governed T → Prop
  | initialized {ctx : Ctx} {admin : Address} {gs : List Address}
      {threshold delay : UInt32} (hfresh : w.guardian.admin = none)
      (hpos : 1 ≤ threshold.toNat) (hle : threshold.toNat ≤ gs.length) :
      Stepped w (.call ctx (.init admin gs threshold delay)) { w with
        guardian := { w.guardian with
          admin := some admin
          storedGuardians := some gs
          storedThreshold := some threshold
          upgradeDelay := some delay
          nextProposalId := some 0 } }
  | guardianKnown {ctx : Ctx} {a : Address}
      (hadmin : w.guardian.admin ≠ none) (hold : a ∈ w.guardian.guardians) :
      Stepped w (.call ctx (.addGuardian a)) w
  | guardianAdded {ctx : Ctx} {a : Address}
      (hadmin : w.guardian.admin ≠ none) (hnew : a ∉ w.guardian.guardians) :
      Stepped w (.call ctx (.addGuardian a)) { w with
        guardian := { w.guardian with
          storedGuardians := some (w.guardian.guardians ++ [a]) } }
  | guardianRemoved {ctx : Ctx} {a : Address}
      (hadmin : w.guardian.admin ≠ none)
      (hle : w.guardian.threshold.toNat
        ≤ (w.guardian.guardians.filter (· ≠ a)).length) :
      Stepped w (.call ctx (.removeGuardian a)) { w with
        guardian := { w.guardian with
          storedGuardians :=
            some (w.guardian.guardians.filter (· ≠ a)) } }
  | thresholdSet {ctx : Ctx} {threshold : UInt32}
      (hadmin : w.guardian.admin ≠ none) (hpos : 1 ≤ threshold.toNat)
      (hle : threshold.toNat ≤ w.guardian.guardians.length) :
      Stepped w (.call ctx (.setThreshold threshold)) { w with
        guardian := { w.guardian with
          storedThreshold := some threshold } }
  | pauseFiled {ctx : Ctx} {c : Call} {id : UInt32} {a : Address}
      {p : PauseProposal} {g : GovernanceGuardian}
      (hfiled : PauseFiling w.guardian c id a p g)
      (hguardian : a ∈ w.guardian.guardians)
      (hshort : p.approvals.length < w.guardian.threshold.toNat) :
      Stepped w (.call ctx c) { w with guardian := g.putPause id p }
  | pauseExecuted {ctx : Ctx} {c : Call} {id : UInt32} {a : Address}
      {p : PauseProposal} {g : GovernanceGuardian} {targets : T}
      {events : List GuardianEvent}
      (hfiled : PauseFiling w.guardian c id a p g)
      (hguardian : a ∈ w.guardian.guardians)
      (hfull : w.guardian.threshold.toNat ≤ p.approvals.length) :
      Stepped w (.call ctx c)
        { guardian := g.putPause id { p with executed := true }
          targets
          invoked := w.invoked ++ [p.invocation id]
          events }
  | upgradeFiled {ctx : Ctx} {c : Call} {id : UInt32} {a : Address}
      {p : UpgradeProposal} {g : GovernanceGuardian}
      (hfiled : UpgradeFiling w.guardian c id a p g)
      (hguardian : a ∈ w.guardian.guardians)
      (hopen : p.quorumAtLedger = none →
        p.approvals.length < w.guardian.threshold.toNat) :
      Stepped w (.call ctx c) { w with guardian := g.putUpgrade id p }
  | quorumReached {ctx : Ctx} {c : Call} {id : UInt32} {a : Address}
      {p : UpgradeProposal} {g : GovernanceGuardian}
      {events : List GuardianEvent}
      (hfiled : UpgradeFiling w.guardian c id a p g)
      (hguardian : a ∈ w.guardian.guardians)
      (hfirst : p.quorumAtLedger = none)
      (hfull : w.guardian.threshold.toNat ≤ p.approvals.length) :
      Stepped w (.call ctx c) { w with
        guardian := g.putUpgrade id
          { p with quorumAtLedger := some ctx.sequence }
        events }
  | upgradeCancelled {ctx : Ctx} {id : UInt32} {a : Address}
      {p : UpgradeProposal} {events : List GuardianEvent}
      (hp : w.guardian.upgradeProposal id = some p)
      (hopen : p.executed = false) (hguardian : a ∈ w.guardian.guardians) :
      Stepped w (.call ctx (.cancelUpgrade a id)) { w with
        guardian := w.guardian.putUpgrade id { p with cancelled := true }
        events }
  | upgradeExecuted {ctx : Ctx} {id : UInt32} {p : UpgradeProposal}
      {q : UInt32} {targets : T} {events : List GuardianEvent}
      (hp : w.guardian.upgradeProposal id = some p)
      (hopen : p.executed = false) (hlive : p.cancelled = false)
      (hquorum : p.quorumAtLedger = some q)
      (hdue : q.toNat + w.guardian.delay.toNat ≤ ctx.sequence.toNat) :
      Stepped w (.call ctx (.executeUpgrade id))
        { guardian := w.guardian.putUpgrade id { p with executed := true }
          targets
          invoked := w.invoked ++ [p.invocation id]
          events }
  | targetsMoved (targets : T) :
      Stepped w (.targets targets) { w with targets }

omit [Targets T] in

/-- What is stored is there. -/
@[simp]
theorem putPause_self (g : GovernanceGuardian) (id : UInt32)
    (p : PauseProposal) : (g.putPause id p).pauseProposal id = some p :=
  Function.update_self ..

omit [Targets T] in

/-- What is stored is there. -/
@[simp]
theorem putUpgrade_self (g : GovernanceGuardian) (id : UInt32)
    (p : UpgradeProposal) :
    (g.putUpgrade id p).upgradeProposal id = some p :=
  Function.update_self ..

omit [Targets T] in

/-- Of two the second stays. -/
@[simp]
theorem putPause_putPause (g : GovernanceGuardian) (id : UInt32)
    (p q : PauseProposal) :
    (g.putPause id p).putPause id q = g.putPause id q := by
  simp [putPause]

omit [Targets T] in

/-- Of two the second stays. -/
@[simp]
theorem putUpgrade_putUpgrade (g : GovernanceGuardian) (id : UInt32)
    (p q : UpgradeProposal) :
    (g.putUpgrade id p).putUpgrade id q = g.putUpgrade id q := by
  simp [putUpgrade]

omit [Targets T] in
/-- The record read back is the one written, or was there before. -/
theorem putPause_cases {g : GovernanceGuardian} {i id : UInt32}
    {p p' : PauseProposal} (hp : (g.putPause i p).pauseProposal id = some p') :
    id = i ∧ p' = p ∨ g.pauseProposal id = some p' := by
  by_cases hi : id = i
  · subst hi
    rw [putPause_self, Option.some.injEq] at hp
    exact Or.inl ⟨rfl, hp.symm⟩
  · simp only [putPause, Function.update_of_ne hi] at hp
    exact Or.inr hp

omit [Targets T] in

/-- A record is the one stored, or was there. -/
theorem putUpgrade_cases {g : GovernanceGuardian} {i id : UInt32}
    {p p' : UpgradeProposal}
    (hp : (g.putUpgrade i p).upgradeProposal id = some p') :
    id = i ∧ p' = p ∨ g.upgradeProposal id = some p' := by
  by_cases hi : id = i
  · subst hi
    rw [putUpgrade_self, Option.some.injEq] at hp
    exact Or.inl ⟨rfl, hp.symm⟩
  · simp only [putUpgrade, Function.update_of_ne hi] at hp
    exact Or.inr hp

omit [Targets T] in
/-- A filing moves nothing but the counter before the record is
written. -/
theorem PauseFiling.frame {g g' : GovernanceGuardian} {c : Call}
    {id : UInt32} {a : Address} {p : PauseProposal}
    (h : PauseFiling g c id a p g') :
    ∃ n, g' = { g with nextProposalId := n } := by
  cases h with
  | proposed hroom => exact ⟨_, rfl⟩
  | approved hp hopen hnew => exact ⟨_, rfl⟩

omit [Targets T] in

/-- Filing an approval moves the counter at most. -/
theorem UpgradeFiling.frame {g g' : GovernanceGuardian} {c : Call}
    {id : UInt32} {a : Address} {p : UpgradeProposal}
    (h : UpgradeFiling g c id a p g') :
    ∃ n, g' = { g with nextProposalId := n } := by
  cases h with
  | proposed hroom => exact ⟨_, rfl⟩
  | approved hp hopen hlive hnew => exact ⟨_, rfl⟩

/-- Filing an approval of a pause proposal holds it or executes it. -/
theorem tryExecutePause_stepped {ctx : Ctx} {c : Call} {id : UInt32}
    {a : Address} {p : PauseProposal} {g : GovernanceGuardian}
    {w w' : Governed T} (hfiled : PauseFiling w.guardian c id a p g)
    (hguardian : a ∈ w.guardian.guardians)
    (h : tryExecutePause self ctx id p
      { w with guardian := g.putPause id p } = .ok w') :
    Stepped w (.call ctx c) w' := by
  have hthreshold : (g.putPause id p).threshold = w.guardian.threshold := by
    obtain ⟨n, rfl⟩ := hfiled.frame
    rfl
  unfold tryExecutePause at h
  rw [hthreshold] at h
  split at h
  case isTrue hshort =>
    rw [pure_eq_ok] at h
    subst h
    exact .pauseFiled hfiled hguardian hshort
  case isFalse hfull =>
    simp only [Governed.invoke, bind_eq_ok, pure_eq_ok] at h
    obtain ⟨_, ⟨targets, -, rfl⟩, rfl⟩ := h
    rw [putPause_putPause]
    exact .pauseExecuted hfiled hguardian (not_lt.mp hfull)

omit [Targets T] in
/-- Filing an approval of an upgrade proposal may record its quorum. -/
theorem checkUpgradeQuorum_stepped {ctx : Ctx} {c : Call} {id : UInt32}
    {a : Address} {p : UpgradeProposal} {g : GovernanceGuardian}
    {w : Governed T} (hfiled : UpgradeFiling w.guardian c id a p g)
    (hguardian : a ∈ w.guardian.guardians) :
    Stepped w (.call ctx c) (checkUpgradeQuorum ctx id p
      { w with guardian := g.putUpgrade id p }) := by
  have hthreshold : (g.putUpgrade id p).threshold
      = w.guardian.threshold := by
    obtain ⟨n, rfl⟩ := hfiled.frame
    rfl
  unfold checkUpgradeQuorum
  rw [hthreshold, putUpgrade_putUpgrade]
  split
  case isTrue hq => exact .quorumReached hfiled hguardian hq.1 hq.2
  case isFalse hq =>
    refine .upgradeFiled hfiled hguardian ?_
    intro hnone
    exact not_le.mp fun hle => hq ⟨hnone, hle⟩

/-- What an accepted event did. -/
theorem step_ok {w w' : Governed T} {e : Event T}
    (h : step self w e = .ok w') : Stepped w e w' := by
  cases e with
  | targets t =>
      cases h
      exact .targetsMoved t
  | call ctx c =>
      cases c with
      | init admin gs threshold delay =>
          simp only [step, exec, init, bind_eq_ok, pure_eq_ok,
            panicIf_eq_ok, u32_eq_ok] at h
          obtain ⟨_, ⟨_, hfresh, _, -, _, ⟨-, rfl⟩, _, hthr, rfl⟩, rfl⟩ := h
          refine .initialized (by simpa using hfresh) ?_ ?_
          · omega
          · omega
      | addGuardian a =>
          simp only [step, exec, addGuardian, requireAdmin, bind_eq_ok,
            pure_eq_ok, orPanic_eq_ok] at h
          obtain ⟨g, ⟨_, ⟨admin, hadmin, -⟩, hg⟩, rfl⟩ := h
          have hset : w.guardian.admin ≠ none := by simp [hadmin]
          split at hg
          case isTrue hold =>
            rw [pure_eq_ok] at hg
            subst hg
            exact .guardianKnown hset hold
          case isFalse hnew =>
            rw [pure_eq_ok] at hg
            subst hg
            exact .guardianAdded hset hnew
      | removeGuardian a =>
          simp only [step, exec, removeGuardian, requireAdmin, bind_eq_ok,
            pure_eq_ok, orPanic_eq_ok, panicIf_eq_ok, u32_eq_ok] at h
          obtain ⟨_, ⟨_, ⟨admin, hadmin, -⟩, _, ⟨-, rfl⟩, _, hle, rfl⟩,
            rfl⟩ := h
          exact .guardianRemoved (by simp [hadmin]) (not_lt.mp hle)
      | setThreshold threshold =>
          simp only [step, exec, setThreshold, requireAdmin, bind_eq_ok,
            pure_eq_ok, orPanic_eq_ok, panicIf_eq_ok, u32_eq_ok] at h
          obtain ⟨_, ⟨_, ⟨admin, hadmin, -⟩, _, ⟨-, rfl⟩, _, hthr, rfl⟩,
            rfl⟩ := h
          refine .thresholdSet (by simp [hadmin]) ?_ ?_
          · omega
          · omega
      | proposePause a contractId reasonHash unpause =>
          simp only [step, exec, Lumix.proposePause, requireIsGuardian,
            nextId, bind_eq_ok, pure_eq_ok, panicIf_eq_ok, u32_eq_ok,
            Prod.exists, Prod.mk.injEq, not_not] at h
          obtain ⟨_, _, ⟨_, hguardian, _, -, _, _, ⟨_, ⟨hroom, -⟩, rfl, rfl⟩,
            _, htry, rfl, rfl⟩, rfl⟩ := h
          exact tryExecutePause_stepped self (.proposed hroom) hguardian htry
      | approvePause a id =>
          simp only [step, exec, Lumix.approvePause, requireIsGuardian,
            bind_eq_ok, panicIf_eq_ok, orPanic_eq_ok, not_not] at h
          obtain ⟨_, hguardian, _, -, p, hp, _, hopen, _, hnew, htry⟩ := h
          exact tryExecutePause_stepped self
            (.approved hp (by simpa using hopen) hnew) hguardian htry
      | proposeUpgrade a contractId newWasmHash =>
          simp only [step, exec, Lumix.proposeUpgrade, requireIsGuardian,
            nextId, bind_eq_ok, pure_eq_ok, panicIf_eq_ok, u32_eq_ok,
            Prod.exists, Prod.mk.injEq, not_not] at h
          obtain ⟨_, _, ⟨_, hguardian, _, -, _, _, ⟨_, ⟨hroom, -⟩, rfl, rfl⟩,
            rfl, rfl⟩, rfl⟩ := h
          exact checkUpgradeQuorum_stepped (.proposed hroom) hguardian
      | approveUpgrade a id =>
          simp only [step, exec, Lumix.approveUpgrade, requireIsGuardian,
            bind_eq_ok, pure_eq_ok, panicIf_eq_ok, orPanic_eq_ok, not_not,
            not_or, Bool.not_eq_true] at h
          obtain ⟨_, hguardian, _, -, p, hp, _, ⟨hopen, hlive⟩, _, hnew,
            rfl⟩ := h
          exact checkUpgradeQuorum_stepped (.approved hp hopen hlive hnew)
            hguardian
      | cancelUpgrade a id =>
          simp only [step, exec, Lumix.cancelUpgrade, requireIsGuardian,
            bind_eq_ok, pure_eq_ok, panicIf_eq_ok, orPanic_eq_ok, not_not,
            Bool.not_eq_true] at h
          obtain ⟨_, hguardian, _, -, p, hp, _, hopen, rfl⟩ := h
          exact .upgradeCancelled hp hopen hguardian
      | executeUpgrade id =>
          simp only [step, exec, Lumix.executeUpgrade, Governed.invoke,
            bind_eq_ok, pure_eq_ok, panicIf_eq_ok, orPanic_eq_ok, u32_eq_ok,
            not_or, Bool.not_eq_true] at h
          obtain ⟨p, hp, _, ⟨hopen, hlive⟩, q, hq, _, ⟨-, rfl⟩, _, hdue, _,
            ⟨targets, -, rfl⟩, rfl⟩ := h
          exact .upgradeExecuted hp hopen hlive hq (not_lt.mp hdue)

variable {self}

/-- With the threshold reached, a proposal is executed exactly when the
call it asks for goes through. -/
theorem tryExecutePause_full {w w' : Governed T} {ctx : Ctx} {id : UInt32}
    {p : PauseProposal}
    (hfull : w.guardian.threshold.toNat ≤ p.approvals.length) :
    tryExecutePause self ctx id p w = .ok w'
      ↔ ∃ targets,
        Targets.invoke (ctx.invokedBy self) p.contractId
            (p.invocation id).method (p.invocation id).args w.targets
          = .ok targets
        ∧ w' = {
          guardian := w.guardian.putPause id { p with executed := true }
          targets
          invoked := w.invoked ++ [p.invocation id]
          events := w.events ++ [.pause id p.contractId p.unpause] } := by
  unfold tryExecutePause
  rw [if_neg (not_lt.mpr hfull)]
  simp only [Governed.invoke, bind_eq_ok, pure_eq_ok]
  constructor
  · rintro ⟨_, ⟨targets, hcall, rfl⟩, rfl⟩
    exact ⟨targets, hcall, rfl⟩
  · rintro ⟨targets, hcall, rfl⟩
    exact ⟨_, ⟨targets, hcall, rfl⟩, rfl⟩

/-- An approval that reaches the threshold goes through exactly when the
proposal is not executed yet and the call it asks for goes through. -/
theorem approvePause_last {w w' : Governed T} {id : UInt32}
    {p : PauseProposal} (hp : w.guardian.pauseProposal id = some p)
    (hfull : w.guardian.threshold.toNat ≤ p.approvals.length + 1)
    {ctx : Ctx} {a : Address} (hguardian : a ∈ w.guardian.guardians)
    (hauth : ctx.auth a = true) (hnew : a ∉ p.approvals) :
    Lumix.approvePause self ctx a id w = .ok w'
      ↔ p.executed = false ∧ ∃ targets,
        Targets.invoke (ctx.invokedBy self) p.contractId
            (p.invocation id).method (p.invocation id).args w.targets
          = .ok targets
        ∧ w' = {
          guardian := w.guardian.putPause id { p with
            approvals := p.approvals ++ [a], executed := true }
          targets
          invoked := w.invoked ++ [p.invocation id]
          events := w.events ++ [.pause id p.contractId p.unpause] } := by
  have hthreshold : w.guardian.threshold.toNat
      ≤ (p.approvals ++ [a]).length := by
    rw [List.length_append]
    exact hfull
  unfold Lumix.approvePause
  simp only [requireIsGuardian, Ctx.requireAuth, bind_eq_ok, panicIf_eq_ok,
    orPanic_eq_ok, Bool.not_eq_true, not_not]
  constructor
  · rintro ⟨_, -, _, -, q, hq, _, hopen, _, -, h⟩
    rw [hp, Option.some.injEq] at hq
    subst hq
    obtain ⟨targets, hcall, rfl⟩ := (tryExecutePause_full hthreshold).mp h
    rw [putPause_putPause]
    exact ⟨hopen, targets, hcall, rfl⟩
  · rintro ⟨hopen, targets, hcall, rfl⟩
    refine ⟨(), hguardian, (), by simp [hauth], p, hp, (), hopen, (), hnew,
      ?_⟩
    refine (tryExecutePause_full hthreshold).mpr ⟨targets, hcall, ?_⟩
    rw [putPause_putPause]
    rfl

end GovernanceGuardian

end Lumix
