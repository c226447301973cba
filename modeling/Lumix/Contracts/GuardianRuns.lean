/-
Runs of the GovernanceGuardian: what its quorums are worth.

A proposal is a record that many calls write: the call that opens it,
each approval, the stamp of an upgrade's quorum, its cancellation and
its execution. `pause_cases` and `upgrade_cases` say where a record in
storage after one accepted event comes from; `GuardianInv` is what holds
of every record in every state, and it is derived from these two alone.

Approvals are looked at twice. `Approved` says that an address approved
while it was a guardian. `Standing` adds what became of it since: it is
a guardian still, or a later `remove_guardian` took it out. Nothing in
the contract takes a recorded approval back.
-/
import Lumix.Contracts.GovernanceGuardian
import Lumix.Lib.Run

namespace Lumix.GovernanceGuardian

open Exec Run

variable {T : Type}

-- ============================================================ history

/-- A history of the guardian and the ledger around it. -/
abbrev History (T : Type) := List (Transition (Governed T) (Event T))

/-- The id a propose call takes. -/
def issued (t : Transition (Governed T) (Event T)) : Option UInt32 :=
  match t.event with
  | .call _ (.proposePause _ _ _ _) | .call _ (.proposeUpgrade _ _ _) =>
      some t.before.guardian.next
  | _ => none

/-- The proposal a call approves, and whose approval it is. -/
def approval (t : Transition (Governed T) (Event T)) :
    Option (UInt32 × Address) :=
  match t.event with
  | .call _ (.proposePause a _ _ _) | .call _ (.proposeUpgrade a _ _) =>
      some (t.before.guardian.next, a)
  | .call _ (.approvePause a id) | .call _ (.approveUpgrade a id) =>
      some (id, a)
  | _ => none

/-- The calls a transition made on behalf of proposals. -/
def invocations (t : Transition (Governed T) (Event T)) :
    List Invocation :=
  t.after.invoked.drop t.before.invoked.length

/-- The ids of a longer history, -/
theorem issued_concat (h : History T)
    (t : Transition (Governed T) (Event T)) :
    (h ++ [t]).filterMap issued
      = h.filterMap issued ++ (issued t).toList := by
  rw [List.filterMap_append]
  cases hi : issued t <;> simp [hi]

/-- and its calls. -/
theorem invocations_concat (h : History T)
    (t : Transition (Governed T) (Event T)) :
    (h ++ [t]).flatMap invocations
      = h.flatMap invocations ++ invocations t := by
  rw [List.flatMap_append, List.flatMap_singleton]

/-- The ledger of a call. -/
def Event.sequence : Event T → Option UInt32
  | .call ctx _ => some ctx.sequence
  | .targets _ => none

/-- The event removes this guardian. -/
def Event.Removes (e : Event T) (a : Address) : Prop :=
  ∃ ctx, e = .call ctx (.removeGuardian a)

/-- The event cancels this upgrade. -/
def Event.Cancels (e : Event T) (id : UInt32) : Prop :=
  ∃ ctx a, e = .call ctx (.cancelUpgrade a id)

/-- An approval by an address that is a guardian at the time. -/
def Approves (t : Transition (Governed T) (Event T)) (id : UInt32)
    (a : Address) : Prop :=
  approval t = some (id, a) ∧ a ∈ t.before.guardian.guardians

/-- The address approved the proposal in the history, as a guardian. -/
def Approved (h : History T) (id : UInt32) (a : Address) : Prop :=
  ∃ t ∈ h, Approves t id a

/-- An approval whose author is a guardian still, or was removed after
it approved. -/
def Standing (h : History T) (g : GovernanceGuardian) (id : UInt32)
    (a : Address) : Prop :=
  ∃ x t y, h = x ++ t :: y ∧ Approves t id a
    ∧ (a ∈ g.guardians ∨ ∃ t' ∈ y, t'.event.Removes a)

/-- Enough distinct addresses approved, each as a guardian. -/
structure Quorate (h : History T) (g : GovernanceGuardian) (id : UInt32)
    (approvals : List Address) : Prop where
  distinct : approvals.Nodup
  enough : g.threshold.toNat ≤ approvals.length
  approved : ∀ a ∈ approvals, Approved h id a

/-- The transition that recorded the quorum of an upgrade proposal: it
left `p` with its own ledger as that of the quorum, where no quorum was
recorded before. -/
structure RecordsQuorum (t : Transition (Governed T) (Event T))
    (id q : UInt32) (p : UpgradeProposal) : Prop where
  now : t.event.sequence = some q
  held : t.after.guardian.upgradeProposal id = some p
  recorded : p.quorumAtLedger = some q
  first : ∀ p₀, t.before.guardian.upgradeProposal id = some p₀ →
    p₀.quorumAtLedger = none

/-- A call of the history, at ledger `q`, recorded the quorum of the
upgrade proposal. There was one then, of the approvals that are the
first of `approvals`. -/
def QuorumAt (h : History T) (id q : UInt32) (approvals : List Address) :
    Prop :=
  ∃ x t y p, h = x ++ t :: y ∧ RecordsQuorum t id q p
    ∧ p.approvals <+: approvals
    ∧ Quorate (x ++ [t]) t.after.guardian id p.approvals

/-- It did so in a longer one. -/
theorem Approved.mono {h : History T} {id : UInt32} {a : Address}
    (ha : Approved h id a) (h' : History T) : Approved (h ++ h') id a := by
  obtain ⟨t, ht, happ⟩ := ha
  exact ⟨t, List.mem_append_left _ ht, happ⟩

/-- A standing approval was given. -/
theorem Standing.approved {h : History T} {g : GovernanceGuardian}
    {id : UInt32} {a : Address} (hs : Standing h g id a) :
    Approved h id a := by
  obtain ⟨x, t, y, rfl, happ, -⟩ := hs
  exact ⟨t, by simp, happ⟩

/-- An approval stands in the longer history, whatever the event did to
the guardian set. -/
theorem Standing.next {h : History T} {w w' : Governed T} {e : Event T}
    {id : UInt32} {a : Address} (hs : Standing h w.guardian id a)
    (hkeep : a ∈ w.guardian.guardians →
      a ∈ w'.guardian.guardians ∨ e.Removes a) :
    Standing (h ++ [⟨w, e, w'⟩]) w'.guardian id a := by
  obtain ⟨x, t, y, rfl, happ, hnow⟩ := hs
  refine ⟨x, t, y ++ [⟨w, e, w'⟩], by simp, happ, ?_⟩
  rcases hnow with hin | ⟨t', ht', hrem⟩
  · rcases hkeep hin with hin' | hrem
    · exact Or.inl hin'
    · exact Or.inr ⟨⟨w, e, w'⟩, by simp, hrem⟩
  · exact Or.inr ⟨t', List.mem_append_left _ ht', hrem⟩

/-- A quorum stays one, whatever is approved later. -/
theorem QuorumAt.mono {h : History T} {id q : UInt32}
    {approvals approvals' : List Address} (hq : QuorumAt h id q approvals)
    (hpre : approvals <+: approvals') (h' : History T) :
    QuorumAt (h ++ h') id q approvals' := by
  obtain ⟨x, t, y, p, rfl, hrecords, happ, hquorate⟩ := hq
  exact ⟨x, t, y ++ h', p, by simp, hrecords, happ.trans hpre, hquorate⟩

-- ===================================================== where records come from

section Records

variable {w w' : Governed T} {e : Event T}

/-- A pause proposal in storage after an event was there before, or the
event filed an approval of it. -/
theorem pause_cases (h : Stepped w e w') {id : UInt32} {p' : PauseProposal}
    (hp : w'.guardian.pauseProposal id = some p') :
    w.guardian.pauseProposal id = some p'
      ∨ ∃ ctx c a p g, e = .call ctx c
        ∧ PauseFiling w.guardian c id a p g
        ∧ a ∈ w.guardian.guardians ∧ w'.guardian.guardians = g.guardians
        ∧ (p' = p ∨ p' = { p with executed := true }) := by
  cases h with
  | initialized hfresh hpos hle => exact Or.inl hp
  | guardianKnown hadmin hold => exact Or.inl hp
  | guardianAdded hadmin hnew => exact Or.inl hp
  | guardianRemoved hadmin hle => exact Or.inl hp
  | thresholdSet hadmin hpos hle => exact Or.inl hp
  | @pauseFiled ctx c i a p g hfiled hguardian hshort =>
      rcases putPause_cases hp with ⟨rfl, rfl⟩ | hp
      · exact Or.inr ⟨ctx, c, a, p', g, rfl, hfiled, hguardian, rfl,
          Or.inl rfl⟩
      · left
        obtain ⟨n, rfl⟩ := hfiled.frame
        exact hp
  | @pauseExecuted ctx c i a p g targets events hfiled hguardian hfull =>
      rcases putPause_cases hp with ⟨rfl, rfl⟩ | hp
      · exact Or.inr ⟨ctx, c, a, p, g, rfl, hfiled, hguardian, rfl,
          Or.inr rfl⟩
      · left
        obtain ⟨n, rfl⟩ := hfiled.frame
        exact hp
  | upgradeFiled hfiled hguardian hopen =>
      left
      obtain ⟨n, rfl⟩ := hfiled.frame
      exact hp
  | quorumReached hfiled hguardian hfirst hfull =>
      left
      obtain ⟨n, rfl⟩ := hfiled.frame
      exact hp
  | upgradeCancelled hp' hopen hguardian => exact Or.inl hp
  | upgradeExecuted hp' hopen hlive hquorum hdue => exact Or.inl hp
  | targetsMoved targets => exact Or.inl hp

/-- The same for an upgrade proposal, which may also have been stamped,
cancelled or executed. -/
theorem upgrade_cases (h : Stepped w e w') {id : UInt32}
    {p' : UpgradeProposal}
    (hp : w'.guardian.upgradeProposal id = some p') :
    w.guardian.upgradeProposal id = some p'
      ∨ (∃ ctx c a p g, e = .call ctx c
        ∧ UpgradeFiling w.guardian c id a p g
        ∧ a ∈ w.guardian.guardians ∧ w'.guardian.guardians = g.guardians
        ∧ (p' = p ∨ (p' = { p with quorumAtLedger := some ctx.sequence }
          ∧ p.quorumAtLedger = none
          ∧ w'.guardian.threshold.toNat ≤ p.approvals.length)))
      ∨ ∃ p, w.guardian.upgradeProposal id = some p
        ∧ w'.guardian.guardians = w.guardian.guardians
        ∧ (p' = { p with cancelled := true } ∧ e.Cancels id
          ∨ p' = { p with executed := true } ∧ p.cancelled = false) := by
  cases h with
  | initialized hfresh hpos hle => exact Or.inl hp
  | guardianKnown hadmin hold => exact Or.inl hp
  | guardianAdded hadmin hnew => exact Or.inl hp
  | guardianRemoved hadmin hle => exact Or.inl hp
  | thresholdSet hadmin hpos hle => exact Or.inl hp
  | pauseFiled hfiled hguardian hshort =>
      left
      obtain ⟨n, rfl⟩ := hfiled.frame
      exact hp
  | pauseExecuted hfiled hguardian hfull =>
      left
      obtain ⟨n, rfl⟩ := hfiled.frame
      exact hp
  | @upgradeFiled ctx c i a p g hfiled hguardian hopen =>
      rcases putUpgrade_cases hp with ⟨rfl, rfl⟩ | hp
      · exact Or.inr (Or.inl ⟨ctx, c, a, p', g, rfl, hfiled, hguardian, rfl,
          Or.inl rfl⟩)
      · left
        obtain ⟨n, rfl⟩ := hfiled.frame
        exact hp
  | @quorumReached ctx c i a p g events hfiled hguardian hfirst hfull =>
      rcases putUpgrade_cases hp with ⟨rfl, rfl⟩ | hp
      · refine Or.inr (Or.inl ⟨ctx, c, a, p, g, rfl, hfiled, hguardian, rfl,
          Or.inr ⟨rfl, hfirst, ?_⟩⟩)
        obtain ⟨n, rfl⟩ := hfiled.frame
        exact hfull
      · left
        obtain ⟨n, rfl⟩ := hfiled.frame
        exact hp
  | @upgradeCancelled ctx i a p events hpi hopen hguardian =>
      rcases putUpgrade_cases hp with ⟨rfl, rfl⟩ | hp
      · exact Or.inr (Or.inr ⟨p, hpi, rfl, Or.inl ⟨rfl, ctx, a, rfl⟩⟩)
      · left
        exact hp
  | @upgradeExecuted ctx i p q targets events hpi hopen hlive hquorum
      hdue =>
      rcases putUpgrade_cases hp with ⟨rfl, rfl⟩ | hp
      · exact Or.inr (Or.inr ⟨p, hpi, rfl, Or.inr ⟨rfl, hlive⟩⟩)
      · left
        exact hp
  | targetsMoved targets => exact Or.inl hp

/-- A guardian stays one unless the event removes it. Before `initialize`
there is none. -/
theorem guardians_kept (h : Stepped w e w')
    (hfresh : w.guardian.admin = none → w.guardian = empty)
    {a : Address} (ha : a ∈ w.guardian.guardians) :
    a ∈ w'.guardian.guardians ∨ e.Removes a := by
  cases h with
  | initialized hnone hpos hle =>
      rw [hfresh hnone] at ha
      simp [guardians, empty] at ha
  | guardianKnown hadmin hold => exact Or.inl ha
  | guardianAdded hadmin hnew =>
      left
      simp only [guardians, Option.getD_some]
      exact List.mem_append_left _ ha
  | @guardianRemoved ctx b hadmin hle =>
      by_cases hab : a = b
      · right
        exact ⟨ctx, by rw [hab]⟩
      · left
        simp only [guardians, Option.getD_some]
        exact List.mem_filter.mpr ⟨ha, by simpa using hab⟩
  | thresholdSet hadmin hpos hle => exact Or.inl ha
  | pauseFiled hfiled hguardian hshort =>
      left
      obtain ⟨n, rfl⟩ := hfiled.frame
      exact ha
  | pauseExecuted hfiled hguardian hfull =>
      left
      obtain ⟨n, rfl⟩ := hfiled.frame
      exact ha
  | upgradeFiled hfiled hguardian hopen =>
      left
      obtain ⟨n, rfl⟩ := hfiled.frame
      exact ha
  | quorumReached hfiled hguardian hfirst hfull =>
      left
      obtain ⟨n, rfl⟩ := hfiled.frame
      exact ha
  | upgradeCancelled hp hopen hguardian => exact Or.inl ha
  | upgradeExecuted hp hopen hlive hquorum hdue => exact Or.inl ha
  | targetsMoved targets => exact Or.inl ha

/-- A cancelling call finds the proposal and leaves it cancelled. -/
theorem step_cancels (h : Stepped w e w') {id : UInt32}
    (hc : e.Cancels id) :
    (∃ p, w.guardian.upgradeProposal id = some p)
      ∧ ∃ p, w'.guardian.upgradeProposal id = some p
        ∧ p.cancelled = true := by
  obtain ⟨ctx, a, rfl⟩ := hc
  cases h with
  | pauseFiled hfiled => cases hfiled
  | pauseExecuted hfiled => cases hfiled
  | upgradeFiled hfiled => cases hfiled
  | quorumReached hfiled => cases hfiled
  | upgradeCancelled hp hopen hguardian =>
      exact ⟨⟨_, hp⟩, _, putUpgrade_self .., rfl⟩

/-- The counter moves exactly when an id is issued. -/
theorem step_next (h : Stepped w e w')
    (hfresh : w.guardian.admin = none → w.guardian = empty) :
    (issued ⟨w, e, w'⟩ = none ∧ w'.guardian.next = w.guardian.next)
      ∨ issued ⟨w, e, w'⟩ = some w.guardian.next
        ∧ w'.guardian.next.toNat = w.guardian.next.toNat + 1 := by
  have hsucc : w.guardian.next.toNat + 1 < 2 ^ 32 →
      (w.guardian.next + 1).toNat = w.guardian.next.toNat + 1 := by
    intro hroom
    rw [UInt32.toNat_add]
    exact Nat.mod_eq_of_lt hroom
  cases h with
  | initialized hnone hpos hle =>
      rw [hfresh hnone]
      exact Or.inl ⟨rfl, rfl⟩
  | guardianKnown hadmin hold => exact Or.inl ⟨rfl, rfl⟩
  | guardianAdded hadmin hnew => exact Or.inl ⟨rfl, rfl⟩
  | guardianRemoved hadmin hle => exact Or.inl ⟨rfl, rfl⟩
  | thresholdSet hadmin hpos hle => exact Or.inl ⟨rfl, rfl⟩
  | pauseFiled hfiled hguardian hshort =>
      cases hfiled with
      | proposed hroom => exact Or.inr ⟨rfl, hsucc hroom⟩
      | approved hp hopen hnew => exact Or.inl ⟨rfl, rfl⟩
  | pauseExecuted hfiled hguardian hfull =>
      cases hfiled with
      | proposed hroom => exact Or.inr ⟨rfl, hsucc hroom⟩
      | approved hp hopen hnew => exact Or.inl ⟨rfl, rfl⟩
  | upgradeFiled hfiled hguardian hopen =>
      cases hfiled with
      | proposed hroom => exact Or.inr ⟨rfl, hsucc hroom⟩
      | approved hp hopen hlive hnew => exact Or.inl ⟨rfl, rfl⟩
  | quorumReached hfiled hguardian hfirst hfull =>
      cases hfiled with
      | proposed hroom => exact Or.inr ⟨rfl, hsucc hroom⟩
      | approved hp hopen hlive hnew => exact Or.inl ⟨rfl, rfl⟩
  | upgradeCancelled hp hopen hguardian => exact Or.inl ⟨rfl, rfl⟩
  | upgradeExecuted hp hopen hlive hquorum hdue => exact Or.inl ⟨rfl, rfl⟩
  | targetsMoved targets => exact Or.inl ⟨rfl, rfl⟩

end Records

-- ========================================================== kept records

/-- The later record is the same proposal, with more approvals. -/
structure PauseExtends (p p' : PauseProposal) : Prop where
  contractId : p'.contractId = p.contractId
  reasonHash : p'.reasonHash = p.reasonHash
  unpause : p'.unpause = p.unpause
  approvals : p.approvals <+: p'.approvals
  executed : p.executed = true → p'.executed = true

/-- The same upgrade proposal, with more done to it. -/
structure UpgradeExtends (p p' : UpgradeProposal) : Prop where
  contractId : p'.contractId = p.contractId
  newWasmHash : p'.newWasmHash = p.newWasmHash
  approvals : p.approvals <+: p'.approvals
  executed : p.executed = true → p'.executed = true
  cancelled : p.cancelled = true → p'.cancelled = true

/-- A proposal nobody touched. -/
theorem PauseExtends.refl (p : PauseProposal) : PauseExtends p p :=
  ⟨rfl, rfl, rfl, List.prefix_rfl, id⟩

/-- A proposal nobody touched. -/
theorem UpgradeExtends.refl (p : UpgradeProposal) : UpgradeExtends p p :=
  ⟨rfl, rfl, List.prefix_rfl, id, id⟩

section Kept

variable {w w' : Governed T} {e : Event T} {id : UInt32}

/-- Writing a record under its id keeps the records under the others. -/
theorem putPause_kept {g : GovernanceGuardian} {i : UInt32}
    {p p' : PauseProposal} (hp : g.pauseProposal id = some p)
    (hsame : id = i → PauseExtends p p') :
    ∃ p'', (g.putPause i p').pauseProposal id = some p''
      ∧ PauseExtends p p'' := by
  by_cases hi : id = i
  · subst hi
    exact ⟨p', putPause_self .., hsame rfl⟩
  · exact ⟨p, by simpa [putPause, Function.update_of_ne hi] using hp,
      PauseExtends.refl p⟩

/-- Storing an extension extends. -/
theorem putUpgrade_kept {g : GovernanceGuardian} {i : UInt32}
    {p p' : UpgradeProposal} (hp : g.upgradeProposal id = some p)
    (hsame : id = i → UpgradeExtends p p') :
    ∃ p'', (g.putUpgrade i p').upgradeProposal id = some p''
      ∧ UpgradeExtends p p'' := by
  by_cases hi : id = i
  · subst hi
    exact ⟨p', putUpgrade_self .., hsame rfl⟩
  · exact ⟨p, by simpa [putUpgrade, Function.update_of_ne hi] using hp,
      UpgradeExtends.refl p⟩

/-- A filing extends the record that is there, if one is. -/
theorem PauseFiling.extends {g g' : GovernanceGuardian} {c : Call}
    {a : Address} {p p₀ : PauseProposal}
    (hfiled : PauseFiling g c id a p g')
    (hids : ∀ p, g.pauseProposal id = some p →
      id.toNat < g.next.toNat)
    (hp : g.pauseProposal id = some p₀) :
    g'.pauseProposal id = some p₀ ∧ p₀.executed = false
      ∧ PauseExtends p₀ p := by
  cases hfiled with
  | proposed hroom => exact absurd (hids _ hp) (lt_irrefl _)
  | approved hq hopen hnew =>
      rw [hq] at hp
      injection hp with hp
      subst hp
      exact ⟨hq, hopen, rfl, rfl, rfl, List.prefix_append _ _,
        fun hx => hx⟩

/-- Filing an approval extends its proposal. -/
theorem UpgradeFiling.extends {g g' : GovernanceGuardian} {c : Call}
    {a : Address} {p p₀ : UpgradeProposal}
    (hfiled : UpgradeFiling g c id a p g')
    (hids : ∀ p, g.upgradeProposal id = some p →
      id.toNat < g.next.toNat)
    (hp : g.upgradeProposal id = some p₀) :
    g'.upgradeProposal id = some p₀ ∧ UpgradeExtends p₀ p := by
  cases hfiled with
  | proposed hroom => exact absurd (hids _ hp) (lt_irrefl _)
  | approved hq hopen hlive hnew =>
      rw [hq] at hp
      injection hp with hp
      subst hp
      exact ⟨hq, rfl, rfl, List.prefix_append _ _, fun hx => hx,
        fun hx => hx⟩

/-- Every event keeps a pause proposal, -/
theorem pause_kept (h : Stepped w e w')
    (hids : ∀ id p, w.guardian.pauseProposal id = some p →
      id.toNat < w.guardian.next.toNat)
    {p : PauseProposal} (hp : w.guardian.pauseProposal id = some p) :
    ∃ p', w'.guardian.pauseProposal id = some p' ∧ PauseExtends p p' := by
  cases h with
  | initialized hnone hpos hle => exact ⟨p, hp, PauseExtends.refl p⟩
  | guardianKnown hadmin hold => exact ⟨p, hp, PauseExtends.refl p⟩
  | guardianAdded hadmin hnew => exact ⟨p, hp, PauseExtends.refl p⟩
  | guardianRemoved hadmin hle => exact ⟨p, hp, PauseExtends.refl p⟩
  | thresholdSet hadmin hpos hle => exact ⟨p, hp, PauseExtends.refl p⟩
  | @pauseFiled ctx c i a p' g hfiled hguardian hshort =>
      have hg : g.pauseProposal id = some p := by
        obtain ⟨n, rfl⟩ := hfiled.frame
        exact hp
      refine putPause_kept hg ?_
      rintro rfl
      exact (hfiled.extends (hids id) hp).2.2
  | @pauseExecuted ctx c i a p' g targets events hfiled hguardian hfull =>
      have hg : g.pauseProposal id = some p := by
        obtain ⟨n, rfl⟩ := hfiled.frame
        exact hp
      refine putPause_kept hg ?_
      rintro rfl
      obtain ⟨-, -, hext⟩ := hfiled.extends (hids id) hp
      exact ⟨hext.contractId, hext.reasonHash, hext.unpause,
        hext.approvals, fun _ => rfl⟩
  | upgradeFiled hfiled hguardian hopen =>
      refine ⟨p, ?_, PauseExtends.refl p⟩
      obtain ⟨n, rfl⟩ := hfiled.frame
      exact hp
  | quorumReached hfiled hguardian hfirst hfull =>
      refine ⟨p, ?_, PauseExtends.refl p⟩
      obtain ⟨n, rfl⟩ := hfiled.frame
      exact hp
  | upgradeCancelled hp' hopen hguardian =>
      exact ⟨p, hp, PauseExtends.refl p⟩
  | upgradeExecuted hp' hopen hlive hquorum hdue =>
      exact ⟨p, hp, PauseExtends.refl p⟩
  | targetsMoved targets => exact ⟨p, hp, PauseExtends.refl p⟩

/-- and an upgrade proposal. -/
theorem upgrade_kept (h : Stepped w e w')
    (hids : ∀ id p, w.guardian.upgradeProposal id = some p →
      id.toNat < w.guardian.next.toNat)
    {p : UpgradeProposal} (hp : w.guardian.upgradeProposal id = some p) :
    ∃ p', w'.guardian.upgradeProposal id = some p'
      ∧ UpgradeExtends p p' := by
  cases h with
  | initialized hnone hpos hle => exact ⟨p, hp, UpgradeExtends.refl p⟩
  | guardianKnown hadmin hold => exact ⟨p, hp, UpgradeExtends.refl p⟩
  | guardianAdded hadmin hnew => exact ⟨p, hp, UpgradeExtends.refl p⟩
  | guardianRemoved hadmin hle => exact ⟨p, hp, UpgradeExtends.refl p⟩
  | thresholdSet hadmin hpos hle => exact ⟨p, hp, UpgradeExtends.refl p⟩
  | pauseFiled hfiled hguardian hshort =>
      refine ⟨p, ?_, UpgradeExtends.refl p⟩
      obtain ⟨n, rfl⟩ := hfiled.frame
      exact hp
  | pauseExecuted hfiled hguardian hfull =>
      refine ⟨p, ?_, UpgradeExtends.refl p⟩
      obtain ⟨n, rfl⟩ := hfiled.frame
      exact hp
  | @upgradeFiled ctx c i a p' g hfiled hguardian hopen =>
      have hg : g.upgradeProposal id = some p := by
        obtain ⟨n, rfl⟩ := hfiled.frame
        exact hp
      refine putUpgrade_kept hg ?_
      rintro rfl
      exact (hfiled.extends (hids id) hp).2
  | @quorumReached ctx c i a p' g events hfiled hguardian hfirst hfull =>
      have hg : g.upgradeProposal id = some p := by
        obtain ⟨n, rfl⟩ := hfiled.frame
        exact hp
      refine putUpgrade_kept hg ?_
      rintro rfl
      obtain ⟨-, hext⟩ := hfiled.extends (hids id) hp
      exact ⟨hext.contractId, hext.newWasmHash, hext.approvals,
        hext.executed, hext.cancelled⟩
  | @upgradeCancelled ctx i a p' events hpi hopen hguardian =>
      refine putUpgrade_kept hp ?_
      rintro rfl
      rw [hpi] at hp
      injection hp with hp
      subst hp
      exact ⟨rfl, rfl, List.prefix_rfl, fun hx => hx, fun _ => rfl⟩
  | @upgradeExecuted ctx i p' q targets events hpi hopen hlive hquorum
      hdue =>
      refine putUpgrade_kept hp ?_
      rintro rfl
      rw [hpi] at hp
      injection hp with hp
      subst hp
      exact ⟨rfl, rfl, List.prefix_rfl, fun _ => rfl, fun hx => hx⟩
  | targetsMoved targets => exact ⟨p, hp, UpgradeExtends.refl p⟩

end Kept

-- ========================================================= the invariant

/-- The propose call a pause record goes back to. -/
def PauseProposed (h : History T) (id : UInt32) (p : PauseProposal) :
    Prop :=
  ∃ t ∈ h, issued t = some id ∧ ∃ ctx a, t.event
    = .call ctx (.proposePause a p.contractId p.reasonHash p.unpause)

/-- The proposal is one that was proposed under its id, with this
contract and code. -/
def UpgradeProposed (h : History T) (id : UInt32) (p : UpgradeProposal) :
    Prop :=
  ∃ t ∈ h, issued t = some id ∧ ∃ ctx a, t.event
    = .call ctx (.proposeUpgrade a p.contractId p.newWasmHash)

/-- What the record of a pause proposal rests on. -/
structure PauseRecorded (h : History T) (g : GovernanceGuardian)
    (id : UInt32) (p : PauseProposal) : Prop where
  proposed : PauseProposed h id p
  distinct : p.approvals.Nodup
  standing : ∀ a ∈ p.approvals, Standing h g id a

/-- What the record of an upgrade proposal rests on: its quorum was one
when it was recorded, and it was not cancelled unless it says so. -/
structure UpgradeRecorded (h : History T) (g : GovernanceGuardian)
    (id : UInt32) (p : UpgradeProposal) : Prop where
  proposed : UpgradeProposed h id p
  distinct : p.approvals.Nodup
  standing : ∀ a ∈ p.approvals, Standing h g id a
  quorum : ∀ q, p.quorumAtLedger = some q → QuorumAt h id q p.approvals
  live : p.cancelled = false → ∀ t ∈ h, ¬t.event.Cancels id

/-- A call was made for this proposal. -/
def Executed (g : GovernanceGuardian) (id : UInt32) : Prop :=
  (∃ p, g.pauseProposal id = some p ∧ p.executed = true)
    ∨ ∃ p, g.upgradeProposal id = some p ∧ p.executed = true

/-- One more address that is not there. -/
theorem nodup_concat {as : List Address} {a : Address} (has : as.Nodup)
    (ha : a ∉ as) : (as ++ [a]).Nodup := by
  refine List.nodup_append.mpr ⟨has, List.nodup_singleton a, ?_⟩
  intro b hb c hc heq
  rw [List.mem_singleton.mp hc] at heq
  exact ha (heq ▸ hb)

/-- What holds of a guardian and its history: ids are issued once and in
order, every record rests on the history, and a proposal is executed
once. -/
structure GuardianInv (h : History T) (w : Governed T) : Prop where
  fresh : w.guardian.admin = none → w.guardian = empty
  pauseIds : ∀ id p, w.guardian.pauseProposal id = some p →
    id.toNat < w.guardian.next.toNat
  upgradeIds : ∀ id p, w.guardian.upgradeProposal id = some p →
    id.toNat < w.guardian.next.toNat
  issuedIds : ∀ id ∈ h.filterMap issued,
    id.toNat < w.guardian.next.toNat
  issuedOnce : (h.filterMap issued).Nodup
  cancelIds : ∀ id, ∀ t ∈ h, t.event.Cancels id →
    id.toNat < w.guardian.next.toNat
  kinds : ∀ id p q, w.guardian.pauseProposal id = some p →
    w.guardian.upgradeProposal id ≠ some q
  pauses : ∀ id p, w.guardian.pauseProposal id = some p →
    PauseRecorded h w.guardian id p
  upgrades : ∀ id p, w.guardian.upgradeProposal id = some p →
    UpgradeRecorded h w.guardian id p
  executed : ∀ inv ∈ h.flatMap invocations,
    Executed w.guardian inv.proposal
  once : ((h.flatMap invocations).map Invocation.proposal).Nodup

section Step

variable {h : History T} {w w' : Governed T} {e : Event T}

/-- Filing a pause approval keeps the record what it should be. -/
theorem GuardianInv.pause_filed (hinv : GuardianInv h w) (ctx : Ctx)
    {c : Call} {id : UInt32} {a : Address} {p : PauseProposal}
    {g : GovernanceGuardian}
    (hfiled : PauseFiling w.guardian c id a p g)
    (ha : a ∈ w.guardian.guardians)
    (hg : w'.guardian.guardians = g.guardians) :
    PauseRecorded (h ++ [⟨w, .call ctx c, w'⟩]) w'.guardian id p := by
  have hsame : w'.guardian.guardians = w.guardian.guardians := by
    rw [hg]
    obtain ⟨n, rfl⟩ := hfiled.frame
    rfl
  have hnew : Standing (h ++ [⟨w, .call ctx c, w'⟩]) w'.guardian id a := by
    refine ⟨h, _, [], rfl, ⟨?_, ha⟩, Or.inl ?_⟩
    · cases hfiled <;> rfl
    · rw [hsame]
      exact ha
  cases hfiled with
  | proposed hroom =>
      refine ⟨⟨_, List.mem_append_right _ (List.mem_singleton_self _), rfl,
        ctx, a, rfl⟩, List.nodup_singleton a, ?_⟩
      intro b hb
      rw [List.mem_singleton.mp hb]
      exact hnew
  | approved hp hopen hfresh =>
      obtain ⟨⟨t, ht, hissued, hevent⟩, hdistinct, hstanding⟩ :=
        hinv.pauses _ _ hp
      refine ⟨⟨t, List.mem_append_left _ ht, hissued, hevent⟩, ?_, ?_⟩
      · exact nodup_concat hdistinct hfresh
      · intro b hb
        rcases List.mem_append.mp hb with hb | hb
        · refine (hstanding b hb).next fun hin => Or.inl ?_
          rw [hsame]
          exact hin
        · rw [List.mem_singleton.mp hb]
          exact hnew

/-- Filing an approval by itself leaves the quorum as it is recorded. -/
theorem UpgradeFiling.quorum_kept {g g' : GovernanceGuardian} {c : Call}
    {id : UInt32} {a : Address} {p p₀ : UpgradeProposal}
    (hfiled : UpgradeFiling g c id a p g')
    (hids : ∀ i q, g.upgradeProposal i = some q → i.toNat < g.next.toNat)
    (hp₀ : g.upgradeProposal id = some p₀) :
    p₀.quorumAtLedger = p.quorumAtLedger := by
  cases hfiled with
  | proposed hroom =>
      -- the next id is nobody's yet
      exact absurd (hids _ _ hp₀) (lt_irrefl _)
  | approved hp hopen hlive hnew =>
      rw [hp₀] at hp
      injection hp with hp
      rw [hp]

/-- Filing an upgrade approval likewise; a quorum it reaches is one. -/
theorem GuardianInv.upgrade_filed (hinv : GuardianInv h w) (ctx : Ctx)
    {c : Call} {id : UInt32} {a : Address} {p : UpgradeProposal}
    {g : GovernanceGuardian}
    (hfiled : UpgradeFiling w.guardian c id a p g)
    (ha : a ∈ w.guardian.guardians)
    (hg : w'.guardian.guardians = g.guardians) :
    UpgradeRecorded (h ++ [⟨w, .call ctx c, w'⟩]) w'.guardian id p := by
  have hsame : w'.guardian.guardians = w.guardian.guardians := by
    rw [hg]
    obtain ⟨n, rfl⟩ := hfiled.frame
    rfl
  have hnew : Standing (h ++ [⟨w, .call ctx c, w'⟩]) w'.guardian id a := by
    refine ⟨h, _, [], rfl, ⟨?_, ha⟩, Or.inl ?_⟩
    · cases hfiled <;> rfl
    · rw [hsame]
      exact ha
  have hcall : ∀ i, ¬(Event.call ctx c : Event T).Cancels i := by
    rintro i ⟨_, _, heq⟩
    cases hfiled <;> cases heq
  cases hfiled with
  | proposed hroom =>
      refine ⟨⟨_, List.mem_append_right _ (List.mem_singleton_self _), rfl,
        ctx, a, rfl⟩, List.nodup_singleton a, ?_, nofun, ?_⟩
      · intro b hb
        rw [List.mem_singleton.mp hb]
        exact hnew
      · intro _ t ht hcancels
        rcases List.mem_append.mp ht with ht | ht
        · exact absurd (hinv.cancelIds _ t ht hcancels) (lt_irrefl _)
        · rw [List.mem_singleton.mp ht] at hcancels
          exact hcall _ hcancels
  | approved hp hopen hlive hfresh =>
      obtain ⟨⟨t, ht, hissued, hevent⟩, hdistinct, hstanding, hquorum,
        hcancel⟩ := hinv.upgrades _ _ hp
      refine ⟨⟨t, List.mem_append_left _ ht, hissued, hevent⟩, ?_, ?_, ?_,
        ?_⟩
      · exact nodup_concat hdistinct hfresh
      · intro b hb
        rcases List.mem_append.mp hb with hb | hb
        · refine (hstanding b hb).next fun hin => Or.inl ?_
          rw [hsame]
          exact hin
        · rw [List.mem_singleton.mp hb]
          exact hnew
      · intro q hq
        exact (hquorum q hq).mono (List.prefix_append _ _) _
      · intro hlive t ht
        rcases List.mem_append.mp ht with ht | ht
        · exact hcancel hlive t ht
        · rw [List.mem_singleton.mp ht]
          exact hcall _

/-- Every event keeps what pause records rest on, -/
theorem GuardianInv.pauses_step (hinv : GuardianInv h w)
    (hstep : Stepped w e w') {id : UInt32} {p : PauseProposal}
    (hp : w'.guardian.pauseProposal id = some p) :
    PauseRecorded (h ++ [⟨w, e, w'⟩]) w'.guardian id p := by
  rcases pause_cases hstep hp with
    hold | ⟨ctx, c, a, p₀, g, rfl, hfiled, ha, hg, hlast⟩
  · obtain ⟨⟨t, ht, hissued, hevent⟩, hdistinct, hstanding⟩ :=
      hinv.pauses id p hold
    exact ⟨⟨t, List.mem_append_left _ ht, hissued, hevent⟩, hdistinct,
      fun a ha => (hstanding a ha).next
        (guardians_kept hstep hinv.fresh)⟩
  · have hrec := hinv.pause_filed ctx hfiled ha hg
    rcases hlast with rfl | rfl
    · exact hrec
    · exact ⟨hrec.proposed, hrec.distinct, hrec.standing⟩

/-- and what upgrade records do. -/
theorem GuardianInv.upgrades_step (hinv : GuardianInv h w)
    (hstep : Stepped w e w') {id : UInt32} {p : UpgradeProposal}
    (hp : w'.guardian.upgradeProposal id = some p) :
    UpgradeRecorded (h ++ [⟨w, e, w'⟩]) w'.guardian id p := by
  -- a cancelling event would have left the record cancelled
  have hlast : p.cancelled = false → ¬e.Cancels id := by
    intro hlive hcancels
    obtain ⟨-, p', hp', hcancelled⟩ := step_cancels hstep hcancels
    rw [hp] at hp'
    injection hp' with hp'
    rw [← hp', hlive] at hcancelled
    cases hcancelled
  have hkeep : ∀ p₀ : UpgradeProposal,
      w.guardian.upgradeProposal id = some p₀ →
      UpgradeProposed (h ++ [⟨w, e, w'⟩]) id p₀ ∧ p₀.approvals.Nodup
        ∧ (∀ a ∈ p₀.approvals,
          Standing (h ++ [⟨w, e, w'⟩]) w'.guardian id a)
        ∧ (∀ q, p₀.quorumAtLedger = some q →
          QuorumAt (h ++ [⟨w, e, w'⟩]) id q p₀.approvals)
        ∧ (p₀.cancelled = false → p.cancelled = false →
          ∀ t ∈ h ++ [⟨w, e, w'⟩], ¬t.event.Cancels id) := by
    intro p₀ hp₀
    obtain ⟨⟨t, ht, hissued, hevent⟩, hdistinct, hstanding, hquorum, hlive₀⟩
      := hinv.upgrades id p₀ hp₀
    refine ⟨⟨t, List.mem_append_left _ ht, hissued, hevent⟩, hdistinct,
      fun a ha => (hstanding a ha).next (guardians_kept hstep hinv.fresh),
      fun q hq => (hquorum q hq).mono List.prefix_rfl _, ?_⟩
    intro hbefore hlive t ht hcancels
    rcases List.mem_append.mp ht with ht | ht
    · exact hlive₀ hbefore t ht hcancels
    · rw [List.mem_singleton.mp ht] at hcancels
      exact hlast hlive hcancels
  rcases upgrade_cases hstep hp with
    hold | ⟨ctx, c, a, p₀, g, rfl, hfiled, ha, hg, hcase⟩
      | ⟨p₀, hp₀, hg, hcase⟩
  · obtain ⟨hproposed, hdistinct, hstanding, hquorum, hnever⟩ :=
      hkeep p hold
    exact ⟨hproposed, hdistinct, hstanding, hquorum,
      fun hlive => hnever hlive hlive⟩
  · have hrec := hinv.upgrade_filed ctx hfiled ha hg
    rcases hcase with rfl | ⟨rfl, hnone, hfull⟩
    · exact hrec
    · refine ⟨hrec.proposed, hrec.distinct, hrec.standing, ?_, hrec.live⟩
      rintro q ⟨rfl⟩
      have hfirst : ∀ p₁, w.guardian.upgradeProposal id = some p₁ →
          p₁.quorumAtLedger = none := by
        intro p₁ hp₁
        rw [hfiled.quorum_kept hinv.upgradeIds hp₁]
        exact hnone
      exact ⟨h, _, [], _, rfl, ⟨rfl, hp, rfl, hfirst⟩, List.prefix_rfl,
        hrec.distinct, hfull, fun b hb => (hrec.standing b hb).approved⟩
  · obtain ⟨hproposed, hdistinct, hstanding, hquorum, hnever⟩ :=
      hkeep p₀ hp₀
    rcases hcase with ⟨rfl, -⟩ | ⟨rfl, hlive₀⟩
    · exact ⟨hproposed, hdistinct, hstanding, hquorum, fun hlive => by
        cases hlive⟩
    · exact ⟨hproposed, hdistinct, hstanding, hquorum, hnever hlive₀⟩

end Step

-- ========================================================= invocations

section Invocations

variable {h : History T} {w w' : Governed T} {e : Event T}

/-- An event makes no call, or the one call of the pause proposal it
completed, or of the upgrade proposal it executed. -/
theorem invocations_cases (hstep : Stepped w e w') :
    invocations ⟨w, e, w'⟩ = []
      ∨ (∃ ctx c id a p g, e = .call ctx c
        ∧ PauseFiling w.guardian c id a p g
        ∧ w'.guardian = g.putPause id { p with executed := true }
        ∧ w.guardian.threshold.toNat ≤ p.approvals.length
        ∧ invocations ⟨w, e, w'⟩ = [p.invocation id])
      ∨ ∃ ctx id p q, e = .call ctx (.executeUpgrade id)
        ∧ w.guardian.upgradeProposal id = some p
        ∧ p.executed = false ∧ p.cancelled = false
        ∧ p.quorumAtLedger = some q
        ∧ q.toNat + w.guardian.delay.toNat ≤ ctx.sequence.toNat
        ∧ w'.guardian = w.guardian.putUpgrade id
          { p with executed := true }
        ∧ invocations ⟨w, e, w'⟩ = [p.invocation id] := by
  have hnone : w'.invoked = w.invoked → invocations ⟨w, e, w'⟩ = [] := by
    intro hsame
    unfold invocations
    rw [hsame]
    exact List.drop_length
  have hone : ∀ inv, w'.invoked = w.invoked ++ [inv] →
      invocations ⟨w, e, w'⟩ = [inv] := by
    intro inv hsame
    unfold invocations
    rw [hsame]
    exact List.drop_left
  cases hstep with
  | initialized hfresh hpos hle => exact Or.inl (hnone rfl)
  | guardianKnown hadmin hold => exact Or.inl (hnone rfl)
  | guardianAdded hadmin hnew => exact Or.inl (hnone rfl)
  | guardianRemoved hadmin hle => exact Or.inl (hnone rfl)
  | thresholdSet hadmin hpos hle => exact Or.inl (hnone rfl)
  | pauseFiled hfiled hguardian hshort => exact Or.inl (hnone rfl)
  | @pauseExecuted ctx c id a p g targets events hfiled hguardian hfull =>
      exact Or.inr (Or.inl ⟨ctx, c, id, a, p, g, rfl, hfiled, rfl, hfull,
        hone _ rfl⟩)
  | upgradeFiled hfiled hguardian hopen => exact Or.inl (hnone rfl)
  | quorumReached hfiled hguardian hfirst hfull =>
      exact Or.inl (hnone rfl)
  | upgradeCancelled hp hopen hguardian => exact Or.inl (hnone rfl)
  | @upgradeExecuted ctx id p q targets events hp hopen hlive hquorum
      hdue =>
      exact Or.inr (Or.inr ⟨ctx, id, p, q, rfl, hp, hopen, hlive, hquorum,
        hdue, rfl, hone _ rfl⟩)
  | targetsMoved targets => exact Or.inl (hnone rfl)

/-- An executed proposal stays executed. -/
theorem GuardianInv.executed_kept (hinv : GuardianInv h w)
    (hstep : Stepped w e w') {id : UInt32}
    (hx : Executed w.guardian id) : Executed w'.guardian id := by
  rcases hx with ⟨p, hp, hx⟩ | ⟨p, hp, hx⟩
  · obtain ⟨p', hp', hext⟩ := pause_kept hstep hinv.pauseIds hp
    exact Or.inl ⟨p', hp', hext.executed hx⟩
  · obtain ⟨p', hp', hext⟩ := upgrade_kept hstep hinv.upgradeIds hp
    exact Or.inr ⟨p', hp', hext.executed hx⟩

/-- The proposal a call is made for was not executed before and is
afterwards. -/
theorem GuardianInv.invokes (hinv : GuardianInv h w)
    (hstep : Stepped w e w') {inv : Invocation}
    (hone : invocations ⟨w, e, w'⟩ = [inv]) :
    ¬Executed w.guardian inv.proposal
      ∧ Executed w'.guardian inv.proposal := by
  rcases invocations_cases hstep with hnone
    | ⟨ctx, c, id, a, p, g, rfl, hfiled, hafter, hfull, hinvoked⟩
    | ⟨ctx, id, p, q, rfl, hp, hopen, hlive, hquorum, hdue, hafter,
      hinvoked⟩
  · rw [hnone] at hone
    cases hone
  · rw [hinvoked] at hone
    injection hone with hone
    subst hone
    constructor
    · rintro (⟨p₀, hp₀, hx⟩ | ⟨p₀, hp₀, hx⟩)
      · obtain ⟨-, hopen, -⟩ := hfiled.extends (hinv.pauseIds id) hp₀
        rw [hx] at hopen
        cases hopen
      · cases hfiled with
        | proposed hroom =>
            exact absurd (hinv.upgradeIds _ p₀ hp₀) (lt_irrefl _)
        | approved hq hopen hnew => exact hinv.kinds _ _ _ hq hp₀
    · left
      rw [hafter]
      exact ⟨_, putPause_self .., rfl⟩
  · rw [hinvoked] at hone
    injection hone with hone
    subst hone
    constructor
    · rintro (⟨p₀, hp₀, hx⟩ | ⟨p₀, hp₀, hx⟩)
      · exact hinv.kinds _ _ _ hp₀ hp
      · have hsame : p₀ = p := by
          have := hp₀.symm.trans hp
          injection this
        rw [hsame, hopen] at hx
        cases hx
    · right
      rw [hafter]
      exact ⟨_, putUpgrade_self .., rfl⟩

end Invocations

-- ============================================================ preserved

section Preserved

variable {h : History T} {w w' : Governed T} {e : Event T}

/-- Before `initialize` nothing is stored. -/
theorem step_fresh (hstep : Stepped w e w')
    (hfresh : w.guardian.admin = none → w.guardian = empty)
    (hnone : w'.guardian.admin = none) : w'.guardian = empty := by
  have hnobody : w.guardian.admin = none → ∀ a,
      a ∉ w.guardian.guardians := by
    intro h a ha
    rw [hfresh h] at ha
    simp [guardians, empty] at ha
  cases hstep with
  | initialized hold hpos hle => cases hnone
  | guardianKnown hadmin hold => exact absurd hnone hadmin
  | guardianAdded hadmin hnew => exact absurd hnone hadmin
  | guardianRemoved hadmin hle => exact absurd hnone hadmin
  | thresholdSet hadmin hpos hle => exact absurd hnone hadmin
  | pauseFiled hfiled hguardian hshort =>
      refine absurd hguardian (hnobody ?_ _)
      obtain ⟨n, rfl⟩ := hfiled.frame
      exact hnone
  | pauseExecuted hfiled hguardian hfull =>
      refine absurd hguardian (hnobody ?_ _)
      obtain ⟨n, rfl⟩ := hfiled.frame
      exact hnone
  | upgradeFiled hfiled hguardian hopen =>
      refine absurd hguardian (hnobody ?_ _)
      obtain ⟨n, rfl⟩ := hfiled.frame
      exact hnone
  | quorumReached hfiled hguardian hfirst hfull =>
      refine absurd hguardian (hnobody ?_ _)
      obtain ⟨n, rfl⟩ := hfiled.frame
      exact hnone
  | upgradeCancelled hp hopen hguardian =>
      exact absurd hguardian (hnobody hnone _)
  | upgradeExecuted hp hopen hlive hquorum hdue =>
      rw [hfresh hnone] at hp
      cases hp
  | targetsMoved targets => exact hfresh hnone

/-- A pause proposal in storage was there, or takes the issued id. -/
theorem pause_origin (hstep : Stepped w e w') {id : UInt32}
    {p' : PauseProposal} (hp : w'.guardian.pauseProposal id = some p') :
    (∃ p, w.guardian.pauseProposal id = some p)
      ∨ issued ⟨w, e, w'⟩ = some id
        ∧ ∃ ctx a c r u, e = .call ctx (.proposePause a c r u) := by
  rcases pause_cases hstep hp with
    hold | ⟨ctx, c, a, p, g, rfl, hfiled, -⟩
  · exact Or.inl ⟨p', hold⟩
  · cases hfiled with
    | proposed hroom => exact Or.inr ⟨rfl, ctx, _, _, _, _, rfl⟩
    | approved hq hopen hnew => exact Or.inl ⟨_, hq⟩

/-- An upgrade proposal in storage was there, or takes the issued id. -/
theorem upgrade_origin (hstep : Stepped w e w') {id : UInt32}
    {p' : UpgradeProposal}
    (hp : w'.guardian.upgradeProposal id = some p') :
    (∃ p, w.guardian.upgradeProposal id = some p)
      ∨ issued ⟨w, e, w'⟩ = some id
        ∧ ∃ ctx a c n, e = .call ctx (.proposeUpgrade a c n) := by
  rcases upgrade_cases hstep hp with
    hold | ⟨ctx, c, a, p, g, rfl, hfiled, -⟩ | ⟨p, hp, -⟩
  · exact Or.inl ⟨p', hold⟩
  · cases hfiled with
    | proposed hroom => exact Or.inr ⟨rfl, ctx, _, _, _, rfl⟩
    | approved hq hopen hlive hnew => exact Or.inl ⟨_, hq⟩
  · exact Or.inl ⟨p, hp⟩

/-- The id an event issues is the next one, and is behind the counter
then. -/
theorem step_issued (hstep : Stepped w e w')
    (hfresh : w.guardian.admin = none → w.guardian = empty) {id : UInt32}
    (hid : issued ⟨w, e, w'⟩ = some id) :
    id = w.guardian.next ∧ id.toNat < w'.guardian.next.toNat := by
  rcases step_next hstep hfresh with ⟨hnone, -⟩ | ⟨hsome, hsucc⟩
  · rw [hnone] at hid
    cases hid
  · rw [hsome] at hid
    injection hid with hid
    exact ⟨hid.symm, by rw [← hid]; omega⟩

/-- The counter never goes back. -/
theorem step_next_le (hstep : Stepped w e w')
    (hfresh : w.guardian.admin = none → w.guardian = empty) :
    w.guardian.next.toNat ≤ w'.guardian.next.toNat := by
  rcases step_next hstep hfresh with ⟨-, hsame⟩ | ⟨-, hsucc⟩
  · rw [hsame]
  · omega

/-- An event makes at most one call. -/
theorem invocations_one (hstep : Stepped w e w') :
    invocations ⟨w, e, w'⟩ = []
      ∨ ∃ inv, invocations ⟨w, e, w'⟩ = [inv] := by
  rcases invocations_cases hstep with hnone | hpause | hupgrade
  · exact Or.inl hnone
  · obtain ⟨_, _, id, _, p, _, _, _, _, _, hinv⟩ := hpause
    exact Or.inr ⟨_, hinv⟩
  · obtain ⟨_, id, p, _, _, _, _, _, _, _, _, hinv⟩ := hupgrade
    exact Or.inr ⟨_, hinv⟩

/-- So every event keeps the invariant. -/
theorem GuardianInv.step (hinv : GuardianInv h w)
    (hstep : Stepped w e w') :
    GuardianInv (h ++ [⟨w, e, w'⟩]) w' := by
  have hmono := step_next_le hstep hinv.fresh
  have hissued : ∀ id, issued ⟨w, e, w'⟩ = some id →
      id = w.guardian.next ∧ id.toNat < w'.guardian.next.toNat :=
    fun id hid => step_issued hstep hinv.fresh hid
  have hids := issued_concat h ⟨w, e, w'⟩
  have hcalls := invocations_concat h ⟨w, e, w'⟩
  constructor
  case fresh => exact step_fresh hstep hinv.fresh
  case pauseIds =>
    intro id p hp
    rcases pause_origin hstep hp with ⟨p₀, hp₀⟩ | ⟨hid, -⟩
    · exact (hinv.pauseIds id p₀ hp₀).trans_le hmono
    · exact (hissued id hid).2
  case upgradeIds =>
    intro id p hp
    rcases upgrade_origin hstep hp with ⟨p₀, hp₀⟩ | ⟨hid, -⟩
    · exact (hinv.upgradeIds id p₀ hp₀).trans_le hmono
    · exact (hissued id hid).2
  case issuedIds =>
    intro id hid
    rw [hids] at hid
    rcases List.mem_append.mp hid with hid | hid
    · exact (hinv.issuedIds id hid).trans_le hmono
    · exact (hissued id (Option.mem_toList.mp hid)).2
  case issuedOnce =>
    rw [hids]
    refine List.nodup_append.mpr ⟨hinv.issuedOnce, ?_, ?_⟩
    · cases issued ⟨w, e, w'⟩ <;> simp
    · intro id hid id' hid' heq
      have hlt := hinv.issuedIds id hid
      have hthis := (hissued id' (Option.mem_toList.mp hid')).1
      rw [heq, hthis] at hlt
      exact lt_irrefl _ hlt
  case cancelIds =>
    intro id t ht hcancels
    rcases List.mem_append.mp ht with ht | ht
    · exact (hinv.cancelIds id t ht hcancels).trans_le hmono
    · rw [List.mem_singleton.mp ht] at hcancels
      obtain ⟨⟨p, hp⟩, -⟩ := step_cancels hstep hcancels
      exact (hinv.upgradeIds id p hp).trans_le hmono
  case kinds =>
    intro id p q hp hq
    rcases pause_origin hstep hp with ⟨p₀, hp₀⟩ | ⟨hid, _, _, _, _, _, rfl⟩
    · rcases upgrade_origin hstep hq with ⟨q₀, hq₀⟩ | ⟨hid, -⟩
      · exact hinv.kinds id p₀ q₀ hp₀ hq₀
      · have hlt := hinv.pauseIds id p₀ hp₀
        rw [(hissued id hid).1] at hlt
        exact lt_irrefl _ hlt
    · rcases upgrade_origin hstep hq with
        ⟨q₀, hq₀⟩ | ⟨-, _, _, _, _, hevent⟩
      · have hlt := hinv.upgradeIds id q₀ hq₀
        rw [(hissued id hid).1] at hlt
        exact lt_irrefl _ hlt
      · cases hevent
  case pauses => exact fun id p hp => hinv.pauses_step hstep hp
  case upgrades => exact fun id p hp => hinv.upgrades_step hstep hp
  case executed =>
    intro inv hin
    rw [hcalls] at hin
    rcases List.mem_append.mp hin with hin | hin
    · exact hinv.executed_kept hstep (hinv.executed inv hin)
    · rcases invocations_one hstep with hnone | ⟨inv', hinv'⟩
      · rw [hnone] at hin
        cases hin
      · rw [hinv'] at hin
        rw [List.mem_singleton.mp hin]
        exact (hinv.invokes hstep hinv').2
  case once =>
    rw [hcalls, List.map_append]
    rcases invocations_one hstep with hnone | ⟨inv', hinv'⟩
    · rw [hnone, List.map_nil, List.append_nil]
      exact hinv.once
    · rw [hinv']
      refine List.nodup_append.mpr ⟨hinv.once, List.nodup_singleton _, ?_⟩
      intro id hid id' hid' heq
      obtain ⟨inv, hin, rfl⟩ := List.mem_map.mp hid
      rw [List.map_singleton, List.mem_singleton] at hid'
      rw [hid'] at heq
      have hx := hinv.executed inv hin
      rw [heq] at hx
      exact (hinv.invokes hstep hinv').1 hx

end Preserved

-- ================================================================= runs

/-- A guardian that has just been deployed, over any ledger. -/
def Deployed (w : Governed T) : Prop :=
  w.guardian = empty ∧ w.invoked = []

/-- It holds of a deployed guardian, -/
theorem GuardianInv.init {w : Governed T} (h₀ : Deployed w) :
    GuardianInv [] w := by
  obtain ⟨hempty, -⟩ := h₀
  constructor
  case fresh => exact fun _ => hempty
  case pauseIds =>
    intro id p hp
    rw [hempty] at hp
    cases hp
  case upgradeIds =>
    intro id p hp
    rw [hempty] at hp
    cases hp
  case issuedIds => exact fun _ hid => by cases hid
  case issuedOnce => exact List.nodup_nil
  case cancelIds => exact fun _ _ ht => by cases ht
  case kinds =>
    intro id p q hp
    rw [hempty] at hp
    cases hp
  case pauses =>
    intro id p hp
    rw [hempty] at hp
    cases hp
  case upgrades =>
    intro id p hp
    rw [hempty] at hp
    cases hp
  case executed => exact fun _ hin => by cases hin
  case once => exact List.nodup_nil

variable [Targets T] {self : Address}

/-- and after every run. -/
theorem GuardianInv.run {w₀ : Governed T} (h₀ : Deployed w₀)
    (es : List (Event T)) :
    GuardianInv (accepted (GovernanceGuardian.step self) w₀ es)
      (Run.run (GovernanceGuardian.step self) w₀ es) :=
  history_induction GuardianInv (GuardianInv.init h₀)
    (fun _ _ _ _ hinv hstep => hinv.step (step_ok self hstep)) es

/-- The invariant at every point of a history. -/
theorem GuardianInv.at {w₀ : Governed T} (h₀ : Deployed w₀)
    {es : List (Event T)} {x y : History T}
    {t : Transition (Governed T) (Event T)}
    (h : accepted (GovernanceGuardian.step self) w₀ es = x ++ t :: y) :
    GuardianInv x t.before ∧ Stepped t.before t.event t.after
      ∧ GuardianInv (x ++ [t]) t.after := by
  obtain ⟨es', hacc, hrun, hstep⟩ := accepted_split h
  have hinv : GuardianInv (accepted (GovernanceGuardian.step self) w₀ es')
      (Run.run (GovernanceGuardian.step self) w₀ es') :=
    GuardianInv.run h₀ es'
  rw [hacc, hrun] at hinv
  have hstepped := step_ok self hstep
  exact ⟨hinv, hstepped, hinv.step hstepped⟩

end Lumix.GovernanceGuardian
