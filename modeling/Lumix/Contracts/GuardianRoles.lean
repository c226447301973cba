/-
The guardian set and its threshold: can a proposal always collect enough
distinct approvals?

`add_guardian` refuses to list an address twice; `initialize` stores the
vector it is given. All four operations compare the threshold with the
length of the vector, approvals are by distinct addresses, so the two
agree exactly as long as no address is listed twice
(`quorum_reachable_iff`).
-/
import Lumix.Contracts.GuardianSafety

namespace Lumix.GovernanceGuardian

open Exec Run

variable {T : Type}

/-- The calls that edit the guardian set or the threshold. -/
def Call.EditsRoles : Call → Prop
  | .addGuardian _ | .removeGuardian _ | .setThreshold _ => True
  | _ => False

/-- The event changes the set or the threshold. -/
def Event.EditsRoles : Event T → Prop
  | .call _ c => c.EditsRoles
  | .targets _ => False

/-- There is a threshold, and as many different guardians as it asks
for. -/
structure QuorumReachable (g : GovernanceGuardian) : Prop where
  positive : 1 ≤ g.threshold.toNat
  enough : g.threshold.toNat ≤ g.guardians.dedup.length

/-- What keeps it so: an initialized guardian whose vector lists no
address twice and is long enough. -/
structure RolesInv (g : GovernanceGuardian) : Prop where
  initialized : g.admin ≠ none
  distinct : g.guardians.Nodup
  positive : 1 ≤ g.threshold.toNat
  enough : g.threshold.toNat ≤ g.guardians.length

/-- A threshold within a set without repetitions can be reached. -/
theorem RolesInv.quorumReachable {g : GovernanceGuardian}
    (hinv : RolesInv g) : QuorumReachable g := by
  refine ⟨hinv.positive, ?_⟩
  rw [hinv.distinct.dedup]
  exact hinv.enough

/-- Filing a pause approval leaves the roles alone. -/
theorem PauseFiling.roles {g g' : GovernanceGuardian} {c : Call}
    {id : UInt32} {a : Address} {p q : PauseProposal}
    (h : PauseFiling g c id a p g') (hinv : RolesInv g) :
    RolesInv (g'.putPause id q) := by
  cases h with
  | proposed hroom => exact ⟨hinv.1, hinv.2, hinv.3, hinv.4⟩
  | approved hp hopen hnew => exact ⟨hinv.1, hinv.2, hinv.3, hinv.4⟩

/-- Filing leaves the roles as they are. -/
theorem UpgradeFiling.roles {g g' : GovernanceGuardian} {c : Call}
    {id : UInt32} {a : Address} {p q : UpgradeProposal}
    (h : UpgradeFiling g c id a p g') (hinv : RolesInv g) :
    RolesInv (g'.putUpgrade id q) := by
  cases h with
  | proposed hroom => exact ⟨hinv.1, hinv.2, hinv.3, hinv.4⟩
  | approved hp hopen hlive hnew =>
      exact ⟨hinv.1, hinv.2, hinv.3, hinv.4⟩

/-- Every event keeps them in bounds, -/
theorem RolesInv.step {w w' : Governed T} {e : Event T}
    (hinv : RolesInv w.guardian) (h : Stepped w e w') :
    RolesInv w'.guardian := by
  cases h with
  | initialized hfresh hpos hle => exact absurd hfresh hinv.initialized
  | guardianKnown hadmin hold => exact hinv
  | guardianAdded hadmin hnew =>
      refine ⟨hadmin, ?_, hinv.positive, ?_⟩
      · show (w.guardian.guardians ++ [_]).Nodup
        rw [← List.concat_eq_append]
        exact hinv.distinct.concat hnew
      · show w.guardian.threshold.toNat
          ≤ (w.guardian.guardians ++ [_]).length
        rw [List.length_append]
        exact hinv.enough.trans (Nat.le_add_right ..)
  | guardianRemoved hadmin hle =>
      exact ⟨hadmin, hinv.distinct.filter _, hinv.positive, hle⟩
  | thresholdSet hadmin hpos hle =>
      exact ⟨hadmin, hinv.distinct, hpos, hle⟩
  | pauseFiled hfiled hguardian hshort => exact hfiled.roles hinv
  | pauseExecuted hfiled hguardian hfull => exact hfiled.roles hinv
  | upgradeFiled hfiled hguardian hopen => exact hfiled.roles hinv
  | quorumReached hfiled hguardian hfirst hfull => exact hfiled.roles hinv
  | upgradeCancelled hp hopen hguardian =>
      exact ⟨hinv.1, hinv.2, hinv.3, hinv.4⟩
  | upgradeExecuted hp hopen hlive hquorum hdue =>
      exact ⟨hinv.1, hinv.2, hinv.3, hinv.4⟩
  | targetsMoved targets => exact hinv

variable [Targets T] {self : Address}

/-- and so does every run. -/
theorem RolesInv.run {w : Governed T} (hinv : RolesInv w.guardian)
    (es : List (Event T)) :
    RolesInv (Run.run (GovernanceGuardian.step self) w es).guardian := by
  refine run_induction (fun w : Governed T => RolesInv w.guardian) hinv ?_ es
  intro w₁ w₂ e hinv hstep
  exact hinv.step (step_ok self hstep)

/-- What a successful `initialize` stored, and that the vector's length
is a `u32`. -/
theorem init_ok {w w' : Governed T} {ctx : Ctx} {admin : Address}
    {gs : List Address} {threshold delay : UInt32}
    (h : GovernanceGuardian.step self w
      (.call ctx (.init admin gs threshold delay)) = .ok w') :
    w'.guardian.admin = some admin ∧ w'.guardian.guardians = gs
      ∧ w'.guardian.threshold = threshold ∧ gs.length < 2 ^ 32
      ∧ 1 ≤ threshold.toNat ∧ threshold.toNat ≤ gs.length := by
  simp only [step, exec, init, bind_eq_ok, pure_eq_ok, panicIf_eq_ok,
    u32_eq_ok, InU32] at h
  obtain ⟨_, ⟨_, -, _, -, _, ⟨hlen, rfl⟩, _, hthr, rfl⟩, rfl⟩ := h
  exact ⟨rfl, rfl, rfl, hlen, by omega, by omega⟩

/-- The admin may raise the threshold to the length of the vector. -/
theorem setThreshold_length (self : Address) {w : Governed T}
    {admin : Address}
    (hadmin : w.guardian.admin = some admin)
    (hpos : 1 ≤ w.guardian.guardians.length)
    (hlen : w.guardian.guardians.length < 2 ^ 32) :
    ∃ w', GovernanceGuardian.step self w (.call ⟨fun _ => true, 0⟩
          (.setThreshold (.ofNat w.guardian.guardians.length))) = .ok w'
      ∧ w'.guardian.guardians = w.guardian.guardians
      ∧ w'.guardian.threshold.toNat = w.guardian.guardians.length := by
  have hsize : (UInt32.ofNat w.guardian.guardians.length).toNat
      = w.guardian.guardians.length :=
    UInt32.toNat_ofNat_of_lt' hlen
  refine ⟨{ w with guardian := { w.guardian with
    storedThreshold := some (.ofNat w.guardian.guardians.length) } },
    ?_, rfl, hsize⟩
  simp only [step, exec, setThreshold, requireAdmin, Ctx.requireAuth,
    bind_eq_ok, pure_eq_ok, panicIf_eq_ok, orPanic_eq_ok, u32_eq_ok]
  refine ⟨_, ⟨(), ⟨admin, hadmin, by simp⟩, _, ⟨hlen, rfl⟩, (), ?_, rfl⟩,
    rfl⟩
  rw [hsize]
  omega

/-- After a successful `initialize` the quorum stays reachable, whatever
role edits follow, exactly when the vector it was given lists no address
twice. -/
theorem quorum_reachable_iff {w w' : Governed T} {ctx : Ctx}
    {admin : Address} {gs : List Address} {threshold delay : UInt32}
    (h : GovernanceGuardian.step self w
      (.call ctx (.init admin gs threshold delay)) = .ok w') :
    (∀ es : List (Event T), (∀ e ∈ es, e.EditsRoles) → QuorumReachable
        (Run.run (GovernanceGuardian.step self) w' es).guardian)
      ↔ gs.Nodup := by
  obtain ⟨hadmin, hgs, hthr, hlen, hpos, hle⟩ := init_ok h
  constructor
  · intro hall
    -- raise the threshold to the length of the vector
    rw [← hgs] at hlen hle
    obtain ⟨w'', hstep, hkept, hfull⟩ :=
      setThreshold_length self hadmin (hpos.trans hle) hlen
    have hquorum := hall [.call ⟨fun _ => true, 0⟩ (.setThreshold
      (.ofNat w'.guardian.guardians.length))] (by
        intro e he
        rw [List.mem_singleton.mp he]
        trivial)
    rw [run, next_ok hstep, run_nil] at hquorum
    have henough := hquorum.enough
    rw [hfull, hkept, hgs] at henough
    have hsub := List.dedup_sublist gs
    rw [← hsub.eq_of_length_le henough]
    exact List.nodup_dedup gs
  · intro hnodup es _
    have hinv : RolesInv w'.guardian := by
      refine ⟨by simp [hadmin], ?_, ?_, ?_⟩
      · rw [hgs]
        exact hnodup
      · rw [hthr]
        exact hpos
      · rw [hthr, hgs]
        exact hle
    exact (hinv.run es).quorumReachable

open Mock

/-- Three different guardians keep a quorum within reach. -/
theorem quorum_reachable_iff_mock :
    [g1, g2, g3].Nodup
      ∧ ((∀ es : List (Event MockTarget), (∀ e ∈ es, e.EditsRoles) →
          QuorumReachable (Run.run (GovernanceGuardian.step guardian)
            (Run.next (GovernanceGuardian.step guardian) world setup)
            es).guardian)
        ↔ [g1, g2, g3].Nodup) := by
  have hinit : GovernanceGuardian.step guardian world setup
      = .ok (Run.next (GovernanceGuardian.step guardian) world setup) := rfl
  exact ⟨by decide, quorum_reachable_iff hinit⟩

/-- One guardian listed twice passes for two: `initialize` accepts a
threshold of two, and there is one address that can approve. -/
theorem duplicate_guardian_counts :
    ∃ w : Governed MockTarget,
      GovernanceGuardian.step guardian world
          (.call (at_ 1) (.init Mock.admin [g1, g1] 2 100)) = .ok w
        ∧ ¬QuorumReachable w.guardian := by
  refine ⟨_, rfl, ?_⟩
  intro h
  exact absurd h.enough (by decide)

end Lumix.GovernanceGuardian
