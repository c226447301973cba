/-
The verifying key of a ProofVerifier contract: who may change it, and
when nobody can.

The constructor names an admin for good and stores the first key. The
admin may replace the key until the contract is frozen, and freezing
cannot be undone (`frozen_stays`).
-/
import Lumix.Contracts.ProofVerifier

namespace Lumix

open Exec

namespace ProofVerifier

/-- `VerifierError`, in declaration order from 1. -/
inductive VerifierError
  | notInitialized
  | alreadyInitialized
  | malformedVerifyingKey
  | malformedProof
  | frozen

/-- Errors are numbered from one. -/
def VerifierError.trap (e : VerifierError) : Trap :=
  .contract (e.ctorIdx + 1)

/-- The contract's storage. -/
structure Storage where
  admin : Option Address
  vk : Option Bytes
  frozen : Option Bool

/-- `__constructor`, which the host runs once, at the deployment. -/
def construct (admin : Address) (vkBytes : Bytes) : Storage where
  admin := some admin
  vk := some vkBytes
  frozen := some false

/-- A key that was never frozen is not. -/
def isFrozen (s : Storage) : Bool := s.frozen.getD false

/-- `admin` -/
def admin (s : Storage) : Except Trap Address := orPanic .unwrapNone s.admin

/-- `vk_hash` -/
def vkHash (sha256 : Bytes → Word) (s : Storage) : Except Trap Word := do
  let vk ← orPanic .unwrapNone s.vk
  pure (sha256 vk)

/-- The stored admin has to sign. -/
def requireAdmin (ctx : Ctx) (s : Storage) : Except Trap Unit := do
  let admin ← orPanic .unwrapNone s.admin
  ctx.requireAuth admin

/-- `set_vk`, by the admin, until it is frozen. -/
def setVk (ctx : Ctx) (vkBytes : Bytes) (s : Storage) :
    Except Trap Storage := do
  panicIf (isFrozen s = true) VerifierError.frozen.trap
  requireAdmin ctx s
  pure { s with vk := some vkBytes }

/-- `freeze_vk`, by the admin, for good. -/
def freezeVk (ctx : Ctx) (s : Storage) : Except Trap Storage := do
  requireAdmin ctx s
  pure { s with frozen := some true }

/-- The entrypoints that write. -/
inductive KeyCall
  | setVk (vkBytes : Bytes)
  | freezeVk

/-- What a call does. -/
def execKey (ctx : Ctx) (s : Storage) : KeyCall → Except Trap Storage
  | .setVk vkBytes => setVk ctx vkBytes s
  | .freezeVk => freezeVk ctx s

-- ============================================================== specs

variable {ctx : Ctx} {s s' : Storage}

/-- An admin is stored, and signed. -/
theorem requireAdmin_ok {u : Unit} (h : requireAdmin ctx s = .ok u) :
    ∃ a, s.admin = some a ∧ ctx.auth a = true := by
  simp only [requireAdmin, Ctx.requireAuth, bind_eq_ok, orPanic_eq_ok,
    panicIf_eq_ok] at h
  obtain ⟨a, ha, hauth⟩ := h
  exact ⟨a, ha, by simpa using hauth⟩

/-- What an accepted `set_vk` did, -/
theorem setVk_ok {vkBytes : Bytes} (h : setVk ctx vkBytes s = .ok s') :
    isFrozen s = false ∧ (∃ a, s.admin = some a ∧ ctx.auth a = true)
      ∧ s' = { s with vk := some vkBytes } := by
  simp only [setVk, bind_eq_ok, panicIf_eq_ok, pure_eq_ok] at h
  obtain ⟨_, hfrozen, _, hadmin, rfl⟩ := h
  exact ⟨by simpa using hfrozen, requireAdmin_ok hadmin, rfl⟩

/-- and an accepted `freeze_vk`. -/
theorem freezeVk_ok (h : freezeVk ctx s = .ok s') :
    (∃ a, s.admin = some a ∧ ctx.auth a = true)
      ∧ s' = { s with frozen := some true } := by
  simp only [freezeVk, bind_eq_ok, pure_eq_ok] at h
  obtain ⟨_, hadmin, rfl⟩ := h
  exact ⟨requireAdmin_ok hadmin, rfl⟩

/-- The admin authorises every write, and remains who it was. -/
theorem execKey_admin {c : KeyCall} (h : execKey ctx s c = .ok s') :
    (∃ a, s.admin = some a ∧ ctx.auth a = true) ∧ s'.admin = s.admin := by
  cases c with
  | setVk vkBytes =>
      obtain ⟨-, hadmin, rfl⟩ := setVk_ok h
      exact ⟨hadmin, rfl⟩
  | freezeVk =>
      obtain ⟨hadmin, rfl⟩ := freezeVk_ok h
      exact ⟨hadmin, rfl⟩

/-- Frozen, the storage is what it was. -/
theorem frozen_stays {c : KeyCall} (hs : s.frozen = some true)
    (h : execKey ctx s c = .ok s') : s' = s := by
  cases c with
  | setVk vkBytes =>
      obtain ⟨hfrozen, -⟩ := setVk_ok h
      rw [isFrozen, hs] at hfrozen
      cases hfrozen
  | freezeVk =>
      obtain ⟨-, rfl⟩ := freezeVk_ok h
      rw [← hs]

/-- Frozen, whoever asks for another key is told so. -/
theorem setVk_frozen (hs : s.frozen = some true) (vkBytes : Bytes) :
    setVk ctx vkBytes s = .error VerifierError.frozen.trap := by
  have hfrozen : isFrozen s = true := by rw [isFrozen, hs]; rfl
  rw [setVk, panicIf, if_pos hfrozen]
  rfl

end ProofVerifier

end Lumix
