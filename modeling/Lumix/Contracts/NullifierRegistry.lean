/-
The NullifierRegistry contract: the set of spent nullifier words, who may
add to it, and a pause switch. `spend` is the only writer of the set and
nothing ever removes a word (`exec_spent_mono`).
-/
import Mathlib.Logic.Function.Basic
import Lumix.Contracts.Host

namespace Lumix

open Exec

/-- The registry's storage. -/
structure NullifierRegistry where
  admin : Option Address
  paused : Bool
  spent : Word → Bool
  authorized : Address → Bool

namespace NullifierRegistry

/-- A freshly deployed registry. -/
def empty : NullifierRegistry where
  admin := none
  paused := false
  spent _ := false
  authorized _ := false

/-- The stored admin has to sign. -/
def requireAdmin (ctx : Ctx) (reg : NullifierRegistry) :
    Except Trap Unit := do
  let admin ← orPanic .unwrapNone reg.admin
  ctx.requireAuth admin

/-- Nothing is spent while it is paused. -/
def requireNotPaused (reg : NullifierRegistry) : Except Trap Unit :=
  panicIf (reg.paused = true) (.panic "paused")

/-- `initialize`. -/
def init (ctx : Ctx) (admin : Address) (reg : NullifierRegistry) :
    Except Trap NullifierRegistry := do
  panicIf (reg.admin.isSome = true) (.panic "already initialized")
  ctx.requireAuth admin
  pure { reg with admin := some admin, paused := false }

/-- `set_authorized_spender`, by the admin. -/
def setAuthorizedSpender (ctx : Ctx) (spender : Address) (allowed : Bool)
    (reg : NullifierRegistry) : Except Trap NullifierRegistry := do
  reg.requireAdmin ctx
  pure { reg with
    authorized := Function.update reg.authorized spender allowed }

/-- Spend a nullifier exactly once, as an authorised spender. -/
def spend (ctx : Ctx) (caller : Address) (nullifier : Word)
    (reg : NullifierRegistry) : Except Trap NullifierRegistry := do
  reg.requireNotPaused
  ctx.requireAuth caller
  panicIf (reg.authorized caller = false) (.panic "unauthorized spender")
  panicIf (reg.spent nullifier = true) (.panic "nullifier spent")
  pure { reg with spent := Function.update reg.spent nullifier true }

/-- `pause`, by the admin. -/
def pause (ctx : Ctx) (reg : NullifierRegistry) :
    Except Trap NullifierRegistry := do
  reg.requireAdmin ctx
  pure { reg with paused := true }

/-- `unpause`, by the admin. -/
def unpause (ctx : Ctx) (reg : NullifierRegistry) :
    Except Trap NullifierRegistry := do
  reg.requireAdmin ctx
  pure { reg with paused := false }

/-- The registry's entrypoints. -/
inductive Call
  | init (admin : Address)
  | setAuthorizedSpender (spender : Address) (allowed : Bool)
  | spend (caller : Address) (nullifier : Word)
  | pause
  | unpause

/-- What a call does. -/
def exec (ctx : Ctx) (reg : NullifierRegistry) :
    Call → Except Trap NullifierRegistry
  | .init admin => reg.init ctx admin
  | .setAuthorizedSpender spender allowed =>
      reg.setAuthorizedSpender ctx spender allowed
  | .spend caller nullifier => reg.spend ctx caller nullifier
  | .pause => reg.pause ctx
  | .unpause => reg.unpause ctx

-- ============================================================== specs

/-- What an accepted spend did: the word was new and now is spent, and
nothing else moved. -/
theorem spend_ok {ctx : Ctx} {caller : Address} {n : Word}
    {reg reg' : NullifierRegistry}
    (h : reg.spend ctx caller n = .ok reg') :
    reg.spent n = false
      ∧ reg' = { reg with spent := Function.update reg.spent n true } := by
  simp only [spend, bind_eq_ok, panicIf_eq_ok, pure_eq_ok] at h
  obtain ⟨_, _, _, _, _, _, _, hfresh, rfl⟩ := h
  exact ⟨by simpa using hfresh, rfl⟩

/-- And who made it: an authorised spender, which authorised the call. -/
theorem spend_caller {ctx : Ctx} {caller : Address} {n : Word}
    {reg reg' : NullifierRegistry}
    (h : reg.spend ctx caller n = .ok reg') :
    ctx.auth caller = true ∧ reg.authorized caller = true := by
  simp only [spend, Ctx.requireAuth, bind_eq_ok, panicIf_eq_ok,
    pure_eq_ok] at h
  obtain ⟨_, _, _, hauth, _, hallowed, -⟩ := h
  exact ⟨by simpa using hauth, by simpa using hallowed⟩

/-- A refused spend carries no error code. -/
theorem spend_codeless (ctx : Ctx) (caller : Address) (n : Word)
    (reg : NullifierRegistry) : Codeless (reg.spend ctx caller n) := by
  apply (Codeless.panicIf (t := .panic _) nofun _).bind
  intro _
  apply (Codeless.panicIf (t := .auth) nofun _).bind
  intro _
  apply (Codeless.panicIf (t := .panic _) nofun _).bind
  intro _
  apply (Codeless.panicIf (t := .panic _) nofun _).bind
  intro _
  exact Codeless.ok _

/-- What an accepted call can do: change one spender's right, spend a
word, or leave the set and the rights as they were. -/
theorem exec_cases {ctx : Ctx} {reg reg' : NullifierRegistry} {c : Call}
    (h : reg.exec ctx c = .ok reg') :
    (∃ spender allowed, c = .setAuthorizedSpender spender allowed
      ∧ reg' = { reg with
          authorized := Function.update reg.authorized spender allowed })
    ∨ (∃ caller n, c = .spend caller n
      ∧ reg.spend ctx caller n = .ok reg')
    ∨ (reg'.spent = reg.spent ∧ reg'.authorized = reg.authorized) := by
  cases c with
  | init admin =>
      simp only [exec, init, bind_eq_ok, pure_eq_ok] at h
      obtain ⟨_, _, _, _, rfl⟩ := h
      exact Or.inr (Or.inr ⟨rfl, rfl⟩)
  | setAuthorizedSpender spender allowed =>
      simp only [exec, setAuthorizedSpender, bind_eq_ok, pure_eq_ok] at h
      obtain ⟨_, _, rfl⟩ := h
      exact Or.inl ⟨spender, allowed, rfl, rfl⟩
  | spend caller nullifier =>
      exact Or.inr (Or.inl ⟨caller, nullifier, rfl, h⟩)
  | pause =>
      simp only [exec, pause, bind_eq_ok, pure_eq_ok] at h
      obtain ⟨_, _, rfl⟩ := h
      exact Or.inr (Or.inr ⟨rfl, rfl⟩)
  | unpause =>
      simp only [exec, unpause, bind_eq_ok, pure_eq_ok] at h
      obtain ⟨_, _, rfl⟩ := h
      exact Or.inr (Or.inr ⟨rfl, rfl⟩)

/-- The spent set only grows, whichever entrypoint runs. -/
theorem exec_spent_mono {ctx : Ctx} {reg reg' : NullifierRegistry}
    {c : Call} (h : reg.exec ctx c = .ok reg') {n : Word}
    (hn : reg.spent n = true) : reg'.spent n = true := by
  rcases exec_cases h with ⟨_, _, -, rfl⟩ | ⟨_, m, -, hspend⟩ | ⟨hsame, -⟩
  · exact hn
  · obtain ⟨-, rfl⟩ := spend_ok hspend
    by_cases hx : n = m
    · subst hx
      exact Function.update_self ..
    · rw [← hn]
      exact Function.update_of_ne hx _ _
  · rw [hsame]
    exact hn

end NullifierRegistry

end Lumix
