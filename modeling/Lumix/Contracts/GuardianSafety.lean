/-
What the guardian may do to the contracts it guards, over whole runs:
`guardian_execution_safety` says what every call it makes rests on, and
`approvals_stand` what has become of the approvals behind a call by the
time it is made.

The second is weaker than one may expect. A recorded approval survives
the removal of its author, so a quorum is one of addresses that were
guardians when they approved; `removed_guardian_counts` is a run in
which a removed guardian's approval completes a pause.
-/
import Lumix.Contracts.GuardianRuns

namespace Lumix.GovernanceGuardian

open Exec Run

variable {T : Type} [Targets T] {self : Address}

-- ================================================================ safety

/-- A transition keeps every record: the same proposal under the same
id, with the approvals it had. -/
def Keeps (t : Transition (Governed T) (Event T)) : Prop :=
  (∀ id p, t.before.guardian.pauseProposal id = some p →
    ∃ p', t.after.guardian.pauseProposal id = some p' ∧ PauseExtends p p')
  ∧ ∀ id p, t.before.guardian.upgradeProposal id = some p →
    ∃ p', t.after.guardian.upgradeProposal id = some p'
      ∧ UpgradeExtends p p'

/-- What a call made by transition `t` after history `x` rests on. -/
inductive Warranted (x : History T)
    (t : Transition (Governed T) (Event T)) : Invocation → Prop
  /-- a pause or unpause: the proposal as it was proposed, with a quorum
  at this very call -/
  | pause {id : UInt32} {p : PauseProposal}
      (hp : t.after.guardian.pauseProposal id = some p)
      (hproposed : PauseProposed (x ++ [t]) id p)
      (hquorate : Quorate (x ++ [t]) t.after.guardian id p.approvals) :
      Warranted x t (p.invocation id)
  /-- an upgrade: the proposal as it was proposed, a quorum at an earlier
  ledger, the delay since, and no cancellation -/
  | upgrade {id q n : UInt32} {p : UpgradeProposal}
      (hp : t.before.guardian.upgradeProposal id = some p)
      (hproposed : UpgradeProposed x id p)
      (hquorum : QuorumAt x id q p.approvals)
      (hnow : t.event.sequence = some n)
      (hdue : q.toNat + t.before.guardian.delay.toNat ≤ n.toNat)
      (hlive : ∀ t' ∈ x, ¬t'.event.Cancels id) :
      Warranted x t (p.invocation id)

/-- Guardian execution safety. In every run of a deployed guardian: an
id is issued once, no record is overwritten by another proposal, at most
one call is made on behalf of a proposal, and every call made is
warranted. -/
theorem guardian_execution_safety {w₀ : Governed T} (h₀ : Deployed w₀)
    (es : List (Event T)) :
    let h := accepted (GovernanceGuardian.step self) w₀ es
    (h.filterMap issued).Nodup
      ∧ (∀ t ∈ h, Keeps t)
      ∧ ((h.flatMap invocations).map Invocation.proposal).Nodup
      ∧ ∀ x t y, h = x ++ t :: y → ∀ inv ∈ invocations t,
        Warranted x t inv := by
  intro h
  have hinv : GuardianInv h (Run.run (GovernanceGuardian.step self) w₀ es) :=
    GuardianInv.run h₀ es
  refine ⟨hinv.issuedOnce, ?_, hinv.once, ?_⟩
  · intro t ht
    obtain ⟨x, y, hsplit⟩ := List.append_of_mem ht
    obtain ⟨hbefore, hstep, -⟩ := GuardianInv.at h₀ hsplit
    exact ⟨fun id p hp => pause_kept hstep hbefore.pauseIds hp,
      fun id p hp => upgrade_kept hstep hbefore.upgradeIds hp⟩
  · intro x t y hsplit inv hin
    obtain ⟨hbefore, hstep, hafter⟩ := GuardianInv.at h₀ hsplit
    rcases invocations_cases hstep with hnone
      | ⟨ctx, c, id, a, p, g, hevent, hfiled, hg, hfull, hinvoked⟩
      | ⟨ctx, id, p, q, hevent, hp, hopen, hlive, hquorum, hdue, hg,
        hinvoked⟩
    · rw [hnone] at hin
      cases hin
    · rw [hinvoked] at hin
      rw [List.mem_singleton.mp hin]
      have hp : t.after.guardian.pauseProposal id
          = some { p with executed := true } := by
        rw [hg]
        exact putPause_self ..
      have hrec := hafter.pauses id _ hp
      show Warranted x t
        (({ p with executed := true } : PauseProposal).invocation id)
      refine .pause hp hrec.proposed ⟨hrec.distinct, ?_, ?_⟩
      · rw [hg]
        obtain ⟨n, rfl⟩ := hfiled.frame
        exact hfull
      · exact fun b hb => (hrec.standing b hb).approved
    · rw [hinvoked] at hin
      rw [List.mem_singleton.mp hin]
      have hrec := hbefore.upgrades id p hp
      refine .upgrade hp hrec.proposed (hrec.quorum q hquorum) ?_ hdue
        (hrec.live hlive)
      rw [hevent]
      rfl

-- =============================================================== standing

/-- What the approvals behind a call are worth when it is made: those of
a pause reach the threshold now, those of an upgrade the threshold at
the call that recorded the quorum it has now; and each author is a
guardian still, or was removed after it approved. -/
inductive Backed (x : History T)
    (t : Transition (Governed T) (Event T)) : Invocation → Prop
  | pause {id : UInt32} {p : PauseProposal}
      (hp : t.after.guardian.pauseProposal id = some p)
      (hdistinct : p.approvals.Nodup)
      (henough : t.after.guardian.threshold.toNat ≤ p.approvals.length)
      (hstanding : ∀ a ∈ p.approvals,
        Standing (x ++ [t]) t.after.guardian id a) :
      Backed x t (p.invocation id)
  | upgrade {id : UInt32} {p : UpgradeProposal}
      (hp : t.before.guardian.upgradeProposal id = some p)
      (hdistinct : p.approvals.Nodup)
      (henough : ∃ s ∈ x, ∃ q p₀, p.quorumAtLedger = some q
        ∧ RecordsQuorum s id q p₀ ∧ p₀.approvals <+: p.approvals
        ∧ s.after.guardian.threshold.toNat ≤ p₀.approvals.length)
      (hstanding : ∀ a ∈ p.approvals,
        Standing x t.before.guardian id a) :
      Backed x t (p.invocation id)

/-- In every run of a deployed guardian, whatever it invokes is backed:
an approval is lost to the guardian set only through `remove_guardian`,
and only the author's own removal. -/
theorem approvals_stand {w₀ : Governed T} (h₀ : Deployed w₀)
    (es : List (Event T)) {x y : History T}
    {t : Transition (Governed T) (Event T)}
    (hsplit : accepted (GovernanceGuardian.step self) w₀ es
      = x ++ t :: y) {inv : Invocation} (hin : inv ∈ invocations t) :
    Backed x t inv := by
  obtain ⟨hbefore, hstep, hafter⟩ := GuardianInv.at h₀ hsplit
  rcases invocations_cases hstep with hnone
    | ⟨ctx, c, id, a, p, g, hevent, hfiled, hg, hfull, hinvoked⟩
    | ⟨ctx, id, p, q, hevent, hp, hopen, hlive, hquorum, hdue, hg,
      hinvoked⟩
  · rw [hnone] at hin
    cases hin
  · rw [hinvoked] at hin
    rw [List.mem_singleton.mp hin]
    have hp : t.after.guardian.pauseProposal id
        = some { p with executed := true } := by
      rw [hg]
      exact putPause_self ..
    have hrec := hafter.pauses id _ hp
    show Backed x t
      (({ p with executed := true } : PauseProposal).invocation id)
    refine .pause hp hrec.distinct ?_ hrec.standing
    rw [hg]
    obtain ⟨n, rfl⟩ := hfiled.frame
    exact hfull
  · rw [hinvoked] at hin
    rw [List.mem_singleton.mp hin]
    have hrec := hbefore.upgrades id p hp
    refine .upgrade hp hrec.distinct ?_ hrec.standing
    obtain ⟨x₁, s, x₂, p₀, rfl, hrecords, hpre, hquorate⟩ :=
      hrec.quorum q hquorum
    exact ⟨s, by simp, q, p₀, hquorum, hrecords, hpre, hquorate.enough⟩

-- =========================================================== evaluation

/-- A target with the entrypoints a guardian calls and nothing else. -/
structure MockTarget where
  paused : Bool
  wasmHash : Option Word

instance : Targets MockTarget where
  invoke _ _ method args t :=
    match method, args with
    | .pause, [_] => .ok { t with paused := true }
    | .unpause, [] => .ok { t with paused := false }
    | .upgrade, [h] => .ok { t with wasmHash := some h }
    | _, _ => .error .arity

namespace Mock

/-- The addresses of the runs below: the guardian, its admin, three
guardians and a target. -/
def guardian : Address := ⟨0⟩
def admin : Address := ⟨1⟩
def g1 : Address := ⟨2⟩
def g2 : Address := ⟨3⟩
def g3 : Address := ⟨4⟩
def target : Address := ⟨5⟩

/-- Every authorisation given, at ledger `n`. -/
def at_ (n : UInt32) : Ctx := ⟨fun _ => true, n⟩

/-- A guardian before `initialize`. -/
def world : Governed MockTarget where
  guardian := empty
  targets := ⟨false, none⟩
  invoked := []
  events := []

/-- Three guardians, two of which suffice, and a delay of 100 ledgers. -/
def setup : Event MockTarget :=
  .call (at_ 1) (.init admin [g1, g2, g3] 2 100)

/-- A pause by two guardians, and an upgrade after its delay. -/
def honestRun : List (Event MockTarget) := [
  setup,
  .call (at_ 2) (.proposePause g1 target 7 false),
  .call (at_ 3) (.approvePause g2 0),
  .call (at_ 4) (.proposeUpgrade g1 target 9),
  .call (at_ 5) (.approveUpgrade g3 1),
  .call (at_ 50) (.executeUpgrade 1),
  .call (at_ 105) (.executeUpgrade 1)]

/-- A guardian proposes a pause and is removed; another completes it. -/
def removalRun : List (Event MockTarget) := [
  setup,
  .call (at_ 2) (.proposePause g1 target 7 false),
  .call (at_ 3) (.removeGuardian g1),
  .call (at_ 4) (.approvePause g2 0)]

/-- What is accepted in a run. -/
def history (es : List (Event MockTarget)) : History MockTarget :=
  accepted (GovernanceGuardian.step guardian) world es

end Mock

open Mock

/-- How many members of the guardian set have an approval recorded. -/
def currentApprovals (g : GovernanceGuardian) (id : UInt32) : ℕ :=
  (g.guardians.dedup.filter fun a =>
    ((g.pauseProposal id).elim false fun p => p.approvals.contains a)
    || ((g.upgradeProposal id).elim false fun p =>
      p.approvals.contains a)).length

/-- In the run of a pause and an upgrade two calls are made, each of
them warranted. -/
theorem guardian_execution_safety_mock :
    (history honestRun).flatMap invocations
        = [⟨0, target, .pause, [7]⟩, ⟨1, target, .upgrade, [9]⟩]
      ∧ ∀ x t y, history honestRun = x ++ t :: y →
        ∀ inv ∈ invocations t, Warranted x t inv := by
  have hdeployed : Deployed Mock.world := ⟨rfl, rfl⟩
  obtain ⟨-, -, -, hwarranted⟩ :=
    guardian_execution_safety hdeployed honestRun
  exact ⟨by decide +kernel, hwarranted⟩

/-- The pause of the run with a removal is the last thing that happens
in it, and it is backed. -/
theorem approvals_stand_mock :
    ∃ t, history removalRun = (history removalRun).dropLast ++ t :: []
      ∧ ⟨0, target, .pause, [7]⟩ ∈ invocations t
      ∧ Backed (history removalRun).dropLast t ⟨0, target, .pause, [7]⟩ := by
  have hdeployed : Deployed Mock.world := ⟨rfl, rfl⟩
  have hcall : ∃ t, (history removalRun).getLast? = some t
      ∧ ⟨0, target, .pause, [7]⟩ ∈ invocations t := by decide +kernel
  obtain ⟨t, hlast, hin⟩ := hcall
  have hsplit := (List.dropLast_append_getLast? t hlast).symm
  exact ⟨t, hsplit, hin, approvals_stand hdeployed removalRun hsplit hin⟩

/-- Not every call has the threshold behind it in the guardian set of
the moment: in the run with a removal one of two approvals is that of an
address removed before. -/
theorem removed_guardian_counts :
    ¬∀ (es : List (Event MockTarget)), ∀ t ∈ history es,
      ∀ inv ∈ invocations t, t.after.guardian.threshold.toNat
        ≤ currentApprovals t.after.guardian inv.proposal := by
  intro h
  have hfew : ∃ t ∈ history removalRun, ∃ inv ∈ invocations t,
      currentApprovals t.after.guardian inv.proposal
        < t.after.guardian.threshold.toNat := by decide +kernel
  obtain ⟨t, ht, inv, hin, hlt⟩ := hfew
  exact absurd (h removalRun t ht inv hin) (not_le.mpr hlt)

end Lumix.GovernanceGuardian
