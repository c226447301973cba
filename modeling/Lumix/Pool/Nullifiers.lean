/-
What the registry's spent set is a record of.

A pool call presents its nullifier words in the middle of its work, to
another contract, and may still fail afterwards. A refused call is
rolled back whole, so the set moves with the accepted calls only. As
long as the pool is the registry's one spender, the set is exactly the
words of the accepted calls, each entered by one call and once
(`nullifier_accounting`). That no word is entered twice needs no such
condition (`spentWords_nodup`).
-/
import Lumix.Pool.Testnet

namespace Lumix

open Exec Run

variable {L : Type} [TokenHost L]

-- ============================================================== words

/-- The nullifier words a call presents to the registry. -/
def Call.nullifierWords (c : Call) : List Word :=
  match c with
  | .withdraw _ | .withdrawCctp _ | .rfqSettle _ | .rfqSettleAtomicSwap _
  | .privateTransferSettle _ => [c.signal 0]
  | .mpcSettle a | .mpcSettlePriced a => [a.nullifierA, a.nullifierB]
  | .receiveCctpDeposit _ | .registerAsset _ _ | .admin _ => []

theorem Call.effect_nullifiers (env : Env) (ctx : Ctx) (p : Pool)
    (c : Call) : (c.effect env ctx p).nullifiers = c.nullifierWords := by
  cases c <;> rfl

/-- The nullifiers a call of the pool passes. -/
def Event.nullifierWords : Event L → List Word
  | pool _ c _ => c.nullifierWords
  | registry _ _ | tokens _ _ => []

/-- The words of the accepted events of a history, in order. -/
def spentWords (h : List (Transition (World L) (Event L))) : List Word :=
  h.flatMap fun t => t.event.nullifierWords

omit [TokenHost L] in
theorem spentWords_concat (h : List (Transition (World L) (Event L)))
    (t : Transition (World L) (Event L)) :
    spentWords (h ++ [t]) = spentWords h ++ t.event.nullifierWords := by
  simp [spentWords]

section Fresh

variable {env : Env} {w w' : World L}

/-- The words of an accepted event are distinct, were unspent before it,
and are spent after it. -/
theorem step_words {e : Event L} (h : step env w e = .ok w') :
    e.nullifierWords.Nodup
      ∧ ∀ n ∈ e.nullifierWords, w.registry.spent n = false
        ∧ w'.registry.spent n = true := by
  cases step_ok h with
  | @settled ctx c x _ hc hadm happ =>
      have hnodup := happ.nodup
      have hfresh := happ.fresh
      have hspent := happ.spent
      rw [Call.effect_nullifiers] at hnodup hfresh hspent
      exact ⟨hnodup, fun n hn =>
        ⟨hfresh n hn, (hspent n).mpr (Or.inr hn)⟩⟩
  | registered asset token hnew =>
      simp [Event.nullifierWords, Call.nullifierWords]
  | configured a => simp [Event.nullifierWords, Call.nullifierWords]
  | registry hreg => simp [Event.nullifierWords]
  | tokens ledger => simp [Event.nullifierWords]

/-- No word is contributed by two accepted calls, or twice by one, in
any run of any deployment. -/
theorem spentWords_nodup (w₀ : World L) (es : List (Event L)) :
    (spentWords (accepted (step env) w₀ es)).Nodup := by
  have hinv : (spentWords (accepted (step env) w₀ es)).Nodup
      ∧ ∀ n ∈ spentWords (accepted (step env) w₀ es),
        (run (step env) w₀ es).registry.spent n = true := by
    refine history_induction
      (fun (h : List (Transition (World L) (Event L))) w =>
        (spentWords h).Nodup
          ∧ ∀ n ∈ spentWords h, w.registry.spent n = true)
      ⟨List.nodup_nil, by simp [spentWords]⟩ ?_ es
    intro h w₁ w₂ e ⟨hnodup, hentered⟩ hstep
    obtain ⟨hwords, hnew⟩ := step_words hstep
    rw [spentWords_concat]
    constructor
    · refine List.nodup_append.mpr ⟨hnodup, hwords, ?_⟩
      -- an old word is spent already, a new one is not
      intro n hn m hm hnm
      have hold := hentered n hn
      rw [hnm, (hnew m hm).1] at hold
      cases hold
    · intro n hn
      rcases List.mem_append.mp hn with hn | hn
      · exact step_spent_mono hstep (hentered n hn)
      · exact (hnew n hn).2
  exact hinv.1

/-- A spent word stays spent, through any further run. -/
theorem run_spent_mono {n : Word} (hn : w.registry.spent n = true)
    (es : List (Event L)) :
    (run (step env) w es).registry.spent n = true := by
  refine run_induction (fun v : World L => v.registry.spent n = true) hn
    ?_ es
  intro v v' e hv hstep
  exact step_spent_mono hstep hv

end Fresh

-- ==================================================== the only spender

/-- Nobody but the pool may spend at the registry. -/
def OnlySpender (env : Env) (reg : NullifierRegistry) : Prop :=
  ∀ a, reg.authorized a = true → a = env.self

/-- The event authorises no other spender, and is no call that carries
the pool's own authorisation to the registry. -/
def Event.KeepsSpender (env : Env) : Event L → Prop
  | registry _ (.setAuthorizedSpender a true) => a = env.self
  | registry ctx (.spend _ _) => ctx.auth env.self = false
  | _ => True

instance (env : Env) : (e : Event L) → Decidable (e.KeepsSpender env)
  | .registry _ (.setAuthorizedSpender a true) =>
      inferInstanceAs (Decidable (a = env.self))
  | .registry ctx (.spend _ _) =>
      inferInstanceAs (Decidable (ctx.auth env.self = false))
  | .registry _ (.setAuthorizedSpender _ false) | .registry _ (.init _)
  | .registry _ .pause | .registry _ .unpause | .pool _ _ _
  | .tokens _ _ => isTrue trivial

section Accounting

variable {env : Env} {w w' : World L}

omit [TokenHost L] in
/-- A registry call of someone else spends nothing and authorises nobody
but the pool. -/
theorem registry_quiet {ctx : Ctx} {c : NullifierRegistry.Call}
    {reg reg' : NullifierRegistry} (h : reg.exec ctx c = .ok reg')
    (honly : OnlySpender env reg)
    (hkeeps : (Event.registry ctx c : Event L).KeepsSpender env) :
    reg'.spent = reg.spent ∧ OnlySpender env reg' := by
  rcases NullifierRegistry.exec_cases h with
    ⟨spender, allowed, rfl, rfl⟩ | ⟨caller, n, rfl, hspend⟩
    | ⟨hspent, hrights⟩
  · refine ⟨rfl, ?_⟩
    intro a ha
    by_cases hsame : a = spender
    · subst hsame
      cases allowed with
      | true => exact hkeeps
      | false =>
          rw [show (_ : NullifierRegistry).authorized a = false from
            Function.update_self ..] at ha
          cases ha
    · rw [show (_ : NullifierRegistry).authorized a = reg.authorized a from
        Function.update_of_ne hsame _ _] at ha
      exact honly a ha
  · -- the caller would be the pool, whose authorisation is missing
    obtain ⟨hauth, hallowed⟩ := NullifierRegistry.spend_caller hspend
    rw [honly caller hallowed, show ctx.auth env.self = false from hkeeps]
      at hauth
    cases hauth
  · refine ⟨hspent, ?_⟩
    intro a ha
    rw [hrights] at ha
    exact honly a ha

/-- One accepted event enters exactly its own words. -/
theorem step_spent_iff {e : Event L} (h : step env w e = .ok w')
    (honly : OnlySpender env w.registry) (hkeeps : e.KeepsSpender env) :
    OnlySpender env w'.registry
      ∧ ∀ n, w'.registry.spent n = true
        ↔ w.registry.spent n = true ∨ n ∈ e.nullifierWords := by
  cases step_ok h with
  | settled hc hadm happ =>
      have hspent := happ.spent
      rw [Call.effect_nullifiers] at hspent
      refine ⟨?_, hspent⟩
      rw [happ.registryFrame]
      exact honly
  | registered asset token hnew =>
      exact ⟨honly, fun n => by simp [Event.nullifierWords,
        Call.nullifierWords]⟩
  | configured a =>
      exact ⟨honly, fun n => by simp [Event.nullifierWords,
        Call.nullifierWords]⟩
  | registry hreg =>
      obtain ⟨hspent, hrights⟩ := registry_quiet hreg honly hkeeps
      refine ⟨hrights, ?_⟩
      intro n
      simp [Event.nullifierWords, hspent]
  | tokens ledger => exact ⟨honly, fun n => by simp [Event.nullifierWords]⟩

/-- Nullifier accounting. In any run in which the pool is the registry's
only spender, from an empty registry: the spent set is the words of the
accepted calls; no word is contributed twice; the set only grows; and an
event that traps leaves the world as it was. -/
theorem nullifier_accounting (w₀ : World L) (es : List (Event L))
    (hempty : ∀ n, w₀.registry.spent n = false)
    (honly : OnlySpender env w₀.registry)
    (hkeeps : ∀ t ∈ accepted (step env) w₀ es, t.event.KeepsSpender env) :
    (∀ n, (run (step env) w₀ es).registry.spent n = true
        ↔ n ∈ spentWords (accepted (step env) w₀ es))
      ∧ (spentWords (accepted (step env) w₀ es)).Nodup
      ∧ (∀ fs n, (run (step env) w₀ es).registry.spent n = true →
        (run (step env) w₀ (es ++ fs)).registry.spent n = true)
      ∧ ∀ e trap, step env (run (step env) w₀ es) e = .error trap →
        run (step env) w₀ (es ++ [e]) = run (step env) w₀ es := by
  refine ⟨?_, spentWords_nodup w₀ es, ?_, ?_⟩
  · have hinv : OnlySpender env (run (step env) w₀ es).registry
        ∧ ∀ n, (run (step env) w₀ es).registry.spent n = true
          ↔ n ∈ spentWords (accepted (step env) w₀ es) := by
      refine history_induction_of (fun t => t.event.KeepsSpender env)
        (fun h w => OnlySpender env w.registry
          ∧ ∀ n, w.registry.spent n = true ↔ n ∈ spentWords h)
        ⟨honly, by simp [spentWords, hempty]⟩ ?_ es hkeeps
      intro h w₁ w₂ e ⟨hrights, hset⟩ hstep _ hkeep
      obtain ⟨hrights', hset'⟩ := step_spent_iff hstep hrights hkeep
      refine ⟨hrights', ?_⟩
      intro n
      rw [hset', hset, spentWords_concat, List.mem_append]
    exact hinv.2
  · intro fs n hn
    rw [run_append]
    exact run_spent_mono hn fs
  · intro e trap htrap
    rw [run_concat, next_error htrap]

end Accounting

section Runs

open Testnet

/-- The withdrawal of 40, then the registry paused, a second spend that
traps, and the pool's right taken away and given back. -/
def pausedRun : List (Event SacLedger) :=
  withdrawRun ++ [
    .registry ctx .pause,
    aliasedWithdrawal withdraw40,
    .registry ctx .unpause,
    .registry ctx (.setAuthorizedSpender pool false),
    aliasedWithdrawal withdraw40,
    .registry ctx (.setAuthorizedSpender pool true)]

/-- Of this run the registry holds one word. -/
theorem nullifier_accounting_paused :
    spentWords (accepted (step env) (genesis 100 0) pausedRun)
        = [Word.ofFr (noteU.nullifierHash env.poseidon 1 27)]
      ∧ ∀ n, (run (step env) (genesis 100 0) pausedRun).registry.spent n
          = true
        ↔ n ∈ spentWords (accepted (step env) (genesis 100 0) pausedRun) := by
  have hrun : (∀ t ∈ accepted (step env) (genesis 100 0) pausedRun,
        t.event.KeepsSpender env)
      ∧ spentWords (accepted (step env) (genesis 100 0) pausedRun)
        = [Word.ofFr (noteU.nullifierHash env.poseidon 1 27)] := by
    decide +kernel
  obtain ⟨hkeeps, hwords⟩ := hrun
  have honly : OnlySpender env (genesis 100 0).registry := by
    intro a ha
    exact of_decide_eq_true ha
  exact ⟨hwords, (nullifier_accounting (genesis 100 0) pausedRun
    (fun _ => rfl) honly hkeeps).1⟩

end Runs

end Lumix
