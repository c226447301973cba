/-
The system around the pool: who can do what, and what an accepted
pool call is worth as evidence.

Three kinds of events move the world: a call of the pool, a call of the
shared nullifier registry by anyone, and a change of the token ledger by
someone else. A pool call that carries a proof also carries the circuit
assignment behind it (`Witness`), a ghost no contract reads. `Proven`
is the verifier's guarantee for such a call: the public inputs the
verifier read from the call's bytes are the public signals of a
satisfying assignment of the matching circuit.

The notes a run spends and creates are read off these assignments, and
`occurring` is the set of inputs its hashes were applied to, by provers
and by the pool's own tree.

`step_ok` says once what an accepted event can do (`Stepped`); what
every step keeps, and the invariants of the later modules, are case
splits on it.
-/
import Lumix.Circuits.Mpc
import Lumix.Circuits.Notes
import Lumix.Lib.Run
import Lumix.Pool.Decoding

namespace Lumix

open Exec Run

-- =========================================================== witnesses

/-- A circuit assignment, or none for a call without a proof. -/
inductive Witness
  | none
  | deposit (x : DepositNoteMint)
  | withdraw (x : Withdraw)
  | transfer (x : PrivateTransfer)
  | mpc (x : MpcSettlement)
  | priced (x : MpcPricedSettlement)

namespace Witness

/-- The signals of its circuit. -/
def publicSignals : Witness → List Fr
  | none => []
  | deposit x => x.publicSignals
  | withdraw x => x.publicSignals
  | transfer x => x.publicSignals
  | mpc x => x.publicSignals
  | priced x => x.publicSignals

/-- The notes whose nullifiers the assignment reveals. -/
def spent : Witness → List Note
  | none | deposit _ => []
  | withdraw x => [x.note]
  | transfer x => [x.input]
  | mpc x => [x.noteA, x.noteB]
  | priced x => [x.noteA, x.noteB]

/-- The notes whose commitments the assignment outputs. -/
def created : Witness → List Note
  | none | withdraw _ => []
  | deposit x => [x.note]
  | transfer x => [x.output]
  | mpc x => [x.outNoteA, x.outNoteB]
  | priced x => [x.outNoteA, x.outNoteB]

variable (H : List Fr → Fr) (treeDepth associationDepth : ℕ)

/-- It satisfies its circuit. -/
def Satisfied : Witness → Prop
  | none => True
  | deposit x => x.Satisfied H
  | withdraw x => x.Satisfied H treeDepth associationDepth
  | transfer x => x.Satisfied H treeDepth associationDepth
  | mpc x => x.Satisfied H treeDepth associationDepth
  | priced x => x.Satisfied H treeDepth associationDepth

instance : (x : Witness) →
    Decidable (x.Satisfied H treeDepth associationDepth)
  | none => isTrue trivial
  | deposit x => inferInstanceAs (Decidable (x.Satisfied _))
  | withdraw x => inferInstanceAs (Decidable (x.Satisfied _ _ _))
  | transfer x => inferInstanceAs (Decidable (x.Satisfied _ _ _))
  | mpc x => inferInstanceAs (Decidable (x.Satisfied _ _ _))
  | priced x => inferInstanceAs (Decidable (x.Satisfied _ _ _))

/-- What its circuit hashes. -/
def hashInputs : Witness → List (List Fr)
  | none => []
  | deposit x => x.hashInputs H
  | withdraw x => x.hashInputs H
  | transfer x => x.hashInputs H
  | mpc x => x.hashInputs H
  | priced x => x.hashInputs H

/-- The notes an assignment spends are opened inside it. -/
theorem spent_hashInputs {x : Witness} {n : Note} (hn : n ∈ x.spent)
    {y : List Fr} (hy : y ∈ n.hashInputs H) : y ∈ x.hashInputs H := by
  cases x with
  | none => cases hn
  | deposit a => cases hn
  | withdraw a =>
      obtain rfl := List.mem_singleton.mp hn
      simp [hashInputs, Withdraw.hashInputs, hy]
  | transfer a =>
      obtain rfl := List.mem_singleton.mp hn
      simp [hashInputs, PrivateTransfer.hashInputs, hy]
  | mpc a =>
      rcases List.mem_pair.mp hn with rfl | rfl
      · simp [hashInputs, MpcSettlement.hashInputs, hy]
      · simp [hashInputs, MpcSettlement.hashInputs, hy]
  | priced a =>
      rcases List.mem_pair.mp hn with rfl | rfl
      · simp [hashInputs, MpcPricedSettlement.hashInputs, hy]
      · simp [hashInputs, MpcPricedSettlement.hashInputs, hy]

/-- And so are the notes it creates. -/
theorem created_hashInputs {x : Witness} {n : Note} (hn : n ∈ x.created)
    {y : List Fr} (hy : y ∈ n.hashInputs H) : y ∈ x.hashInputs H := by
  cases x with
  | none => cases hn
  | withdraw a => cases hn
  | deposit a =>
      obtain rfl := List.mem_singleton.mp hn
      simp [hashInputs, DepositNoteMint.hashInputs, hy]
  | transfer a =>
      obtain rfl := List.mem_singleton.mp hn
      simp [hashInputs, PrivateTransfer.hashInputs, hy]
  | mpc a =>
      rcases List.mem_pair.mp hn with rfl | rfl
      · simp [hashInputs, MpcSettlement.hashInputs, hy]
      · simp [hashInputs, MpcSettlement.hashInputs, hy]
  | priced a =>
      rcases List.mem_pair.mp hn with rfl | rfl
      · simp [hashInputs, MpcPricedSettlement.hashInputs, hy]
      · simp [hashInputs, MpcPricedSettlement.hashInputs, hy]

end Witness

/-- The assignment is of the circuit the call's verifier is for. -/
def Call.Circuit : Call → Witness → Prop
  | receiveCctpDeposit _, .deposit _ => True
  | withdraw _, .withdraw _ => True
  | withdrawCctp _, .withdraw _ => True
  | rfqSettle _, .withdraw _ => True
  | rfqSettleAtomicSwap _, .withdraw _ => True
  | privateTransferSettle _, .transfer _ => True
  | mpcSettle _, .mpc _ => True
  | mpcSettlePriced _, .priced _ => True
  | registerAsset _ _, .none => True
  | admin _, .none => True
  | _, _ => False

instance (c : Call) (x : Witness) : Decidable (c.Circuit x) := by
  cases c <;> cases x <;> first
    | exact isTrue trivial
    | exact isFalse id

/-- Groth16 soundness for one call: what the verifier read from the
bytes extends to a satisfying assignment. -/
structure Proven (H : List Fr → Fr) (treeDepth associationDepth : ℕ)
    (c : Call) (x : Witness) : Prop where
  circuit : c.Circuit x
  satisfied : x.Satisfied H treeDepth associationDepth
  signals : ∀ bytes, c.signalBytes = some bytes →
    ProofVerifier.publicFromBytes bytes = .ok x.publicSignals

instance (H : List Fr → Fr) (treeDepth associationDepth : ℕ) (c : Call)
    (x : Witness) : Decidable (Proven H treeDepth associationDepth c x) :=
  decidable_of_iff
    (c.Circuit x ∧ x.Satisfied H treeDepth associationDepth
      ∧ ∀ bytes ∈ c.signalBytes,
        ProofVerifier.publicFromBytes bytes = .ok x.publicSignals)
    ⟨fun ⟨hc, hs, hb⟩ => ⟨hc, hs, hb⟩,
      fun h => ⟨h.circuit, h.satisfied, h.signals⟩⟩

section Proven

variable {H : List Fr → Fr} {treeDepth associationDepth : ℕ} {c : Call}
  {x : Witness}

/-- A signal of a proven call denotes the public signal of its
assignment at the same place. -/
theorem Proven.toFr_signal (hp : Proven H treeDepth associationDepth c x)
    {env : Env} {p : Pool} (hadm : c.Admitted env p) {i : ℕ} {y : Fr}
    (hy : x.publicSignals[i]? = some y) : Word.toFr (c.signal i) = y := by
  obtain ⟨bytes, hbytes, hparse⟩ := hadm.decoded
  have hread := hp.signals bytes hbytes
  rw [publicFromBytes_of_parse hparse] at hread
  injection hread with hread
  rw [← hread, List.getElem?_map, Option.map_eq_some_iff] at hy
  obtain ⟨w, hw, rfl⟩ := hy
  unfold Call.signal sigAt
  rw [hw]
  rfl

/-- A canonical value word, range-checked by the circuit, is narrowed to
the value itself. -/
theorem narrow_withdrawn {env : Env} {p : Pool} {x : Withdraw}
    (hp : Proven H treeDepth associationDepth c (.withdraw x))
    (hadm : c.Admitted env p) (hcan : (c.signal 2).Canonical)
    (hpos : 0 < fr32ToI128 (c.signal 2)) :
    fr32ToI128 (c.signal 2) = x.withdrawnValue.val := by
  have hval := Word.val_toFr_of_canonical hcan
  rw [hp.toFr_signal hadm (i := 2) rfl] at hval
  have hrange := inRange_iff.mp hp.satisfied.withdrawnValueRangeCheck
  have hhigh : (c.signal 2).high = 0 := by
    unfold Word.high
    omega
  rw [fr32ToI128_of_high_zero hhigh hpos.le, hval]

end Proven

-- ============================================================== events

variable {L : Type} [TokenHost L]

/-- What can happen to the pool, its registry and its tokens. -/
inductive Event (L : Type)
  /-- a call of the pool, with the assignment its proof is of -/
  | pool (ctx : Ctx) (call : Call) (witness : Witness)
  /-- a call of the nullifier registry by anyone -/
  | registry (ctx : Ctx) (call : NullifierRegistry.Call)
  /-- the tokens moved without the pool; `drawer` names a spender that
  drew on an allowance the pool gave it -/
  | tokens (drawer : Option Address) (ledger : L)

/-- One event. -/
def step (env : Env) (w : World L) : Event L → Except Trap (World L)
  | .pool ctx call _ => exec env ctx w call
  | .registry ctx call => do
      let registry ← w.registry.exec ctx call
      pure { w with registry }
  | .tokens _ ledger => .ok { w with tokens := ledger }

/-- A world in which the pool has just been constructed. The registry,
the verifiers and the tokens around it are arbitrary. -/
def World.Constructed (w : World L) : Prop :=
  ∃ admin usdcSac verifier nullifierRegistry depth poolId chainId,
    w.pool = Pool.construct admin usdcSac verifier nullifierRegistry depth
      poolId chainId

namespace Event

/-- The notes a call spends. -/
def spent : Event L → List Note
  | pool _ _ x => x.spent
  | registry _ _ | tokens _ _ => []

/-- The notes it creates. -/
def created : Event L → List Note
  | pool _ _ x => x.created
  | registry _ _ | tokens _ _ => []

/-- What its circuit hashes. -/
def hashInputs (H : List Fr → Fr) : Event L → List (List Fr)
  | pool _ _ x => x.hashInputs H
  | registry _ _ | tokens _ _ => []

/-- A call of the pool comes with the assignment its proof is of. -/
def Proven (H : List Fr → Fr) (treeDepth associationDepth : ℕ) :
    Event L → Prop
  | pool _ c x => Lumix.Proven H treeDepth associationDepth c x
  | registry _ _ | tokens _ _ => True

instance (H : List Fr → Fr) (treeDepth associationDepth : ℕ) :
    (e : Event L) → Decidable (e.Proven H treeDepth associationDepth)
  | pool _ c x => inferInstanceAs (Decidable (Lumix.Proven _ _ _ c x))
  | registry _ _ => isTrue trivial
  | tokens _ _ => isTrue trivial

end Event

-- ================================================================ runs

/-- The notes the accepted events of a history spent, in order. -/
def spentNotes (h : List (Transition (World L) (Event L))) : List Note :=
  h.flatMap fun t => t.event.spent

/-- The notes they created, in order. -/
def createdNotes (h : List (Transition (World L) (Event L))) :
    List Note :=
  h.flatMap fun t => t.event.created

/-- The input pairs of the tree over `leaves`. -/
def treeInputs (H : List Fr → Fr) (depth : ℕ) (leaves : List Word) :
    Set (List Fr) :=
  { x | ∃ l < depth, ∃ i, x = [
      LeanIMT.plainNode H leaves l (2 * i),
      LeanIMT.plainNode H leaves l (2 * i + 1)] }

/-- What was hashed in a run: by the provers of its accepted events, and
by the pool over each non-empty stage of its tree. -/
def occurring (env : Env) (w : World L) (es : List (Event L)) :
    Set (List Fr) :=
  { x | (∃ t ∈ accepted (step env) w es, x ∈ t.event.hashInputs env.poseidon)
    ∨ ∃ k > 0, x ∈ treeInputs env.poseidon
        (run (step env) w es).pool.treeDepth.toNat
        ((run (step env) w es).pool.treeLeaves.take k) }

/-- The inputs of a spent note's commitment occurred. -/
theorem occurring_of_spent {env : Env} {w : World L} {es : List (Event L)}
    {n : Note} (hn : n ∈ spentNotes (accepted (step env) w es))
    {y : List Fr} (hy : y ∈ n.hashInputs env.poseidon) :
    y ∈ occurring env w es := by
  obtain ⟨t, ht, hnt⟩ := List.mem_flatMap.mp hn
  refine Or.inl ⟨t, ht, ?_⟩
  cases he : t.event with
  | pool ctx c x =>
      rw [he] at hnt
      exact x.spent_hashInputs _ hnt hy
  | registry ctx c =>
      rw [he] at hnt
      cases hnt
  | tokens drawer ledger =>
      rw [he] at hnt
      cases hnt

section Frame

variable {env : Env} {w w' : World L}

/-- What an accepted event did. -/
inductive Stepped (env : Env) (w : World L) : Event L → World L → Prop
  /-- a settlement passed its checks and applied its effect -/
  | settled {ctx : Ctx} {c : Call} {x : Witness} {w' : World L}
      (hc : c.Settles) (hadm : c.Admitted env w.pool)
      (happ : Applies env w (c.effect env ctx w.pool) w') :
      Stepped env w (.pool ctx c x) w'
  /-- a fresh asset was registered, with no supply -/
  | registered {ctx : Ctx} {x : Witness} (asset : Word) (token : Address)
      (hnew : w.pool.assetToken asset = none) :
      Stepped env w (.pool ctx (.registerAsset asset token) x) { w with
        pool := { w.pool with
          assetToken := Function.update w.pool.assetToken asset (some token)
          noteSupply := Function.update w.pool.noteSupply asset 0 }
        events := w.events ++ [.regasset asset token] }
  /-- configuration was written -/
  | configured {ctx : Ctx} {x : Witness} (a : AdminCall) :
      Stepped env w (.pool ctx (.admin a) x)
        { w with pool := a.write w.pool }
  /-- the registry took a call -/
  | registry {ctx : Ctx} {c : NullifierRegistry.Call}
      {reg : NullifierRegistry} (hreg : w.registry.exec ctx c = .ok reg) :
      Stepped env w (.registry ctx c) { w with registry := reg }
  /-- the tokens moved -/
  | tokens {drawer : Option Address} (ledger : L) :
      Stepped env w (.tokens drawer ledger) { w with tokens := ledger }

theorem step_ok {e : Event L} (h : step env w e = .ok w') :
    Stepped env w e w' := by
  cases e with
  | pool ctx c x =>
      by_cases hc : c.Settles
      · obtain ⟨hadm, happ⟩ := exec_ok h hc
        exact .settled hc hadm happ
      · rcases exec_config h hc
          with ⟨asset, token, rfl, hnew, rfl⟩ | ⟨a, rfl, rfl⟩
        · exact .registered asset token hnew
        · exact .configured a
  | registry ctx c =>
      simp only [step, bind_eq_ok, pure_eq_ok] at h
      obtain ⟨reg, hreg, rfl⟩ := h
      exact .registry hreg
  | tokens drawer ledger =>
      cases h
      exact .tokens ledger

/-- The pool's domain and tree depth are fixed at construction. -/
theorem step_domain {e : Event L} (h : step env w e = .ok w') :
    w'.pool.poolId = w.pool.poolId ∧ w'.pool.chainId = w.pool.chainId
      ∧ w'.pool.treeDepth = w.pool.treeDepth := by
  cases step_ok h with
  | settled hc hadm happ =>
      rw [happ.frame]
      exact ⟨rfl, rfl, rfl⟩
  | registered asset token hnew => exact ⟨rfl, rfl, rfl⟩
  | configured a => cases a <;> exact ⟨rfl, rfl, rfl⟩
  | registry hreg => exact ⟨rfl, rfl, rfl⟩
  | tokens ledger => exact ⟨rfl, rfl, rfl⟩

/-- An event that is no settlement keeps the tree and its roots; the
supplies too, where unregistered assets have none. -/
theorem step_quiet {e : Event L} (h : step env w e = .ok w')
    (hq : ∀ ctx c x, e = .pool ctx c x → ¬c.Settles)
    (hzero : ∀ asset, w.pool.assetToken asset = none →
      w.pool.noteSupply asset = 0) :
    w'.pool.treeLeaves = w.pool.treeLeaves
      ∧ w'.pool.knownRoot = w.pool.knownRoot
      ∧ w'.pool.noteSupply = w.pool.noteSupply
      ∧ ∀ asset, w'.pool.assetToken asset = none →
        w.pool.assetToken asset = none := by
  cases step_ok h with
  | settled hc hadm happ => exact absurd hc (hq _ _ _ rfl)
  | registered asset token hnew =>
      refine ⟨rfl, rfl, ?_, ?_⟩
      · rw [← hzero asset hnew]
        exact Function.update_eq_self asset w.pool.noteSupply
      · intro other hother
        by_cases ho : other = asset
        · rw [ho, hnew]
        · rwa [show (_ : Pool).assetToken other = _ from
            Function.update_of_ne ho _ _] at hother
  | configured a =>
      cases a <;> exact ⟨rfl, rfl, rfl, fun _ hasset => hasset⟩
  | registry hreg => exact ⟨rfl, rfl, rfl, fun _ hasset => hasset⟩
  | tokens ledger => exact ⟨rfl, rfl, rfl, fun _ hasset => hasset⟩

/-- The tree only grows. -/
theorem step_leaves {e : Event L} (h : step env w e = .ok w') :
    w.pool.treeLeaves <+: w'.pool.treeLeaves := by
  cases step_ok h with
  | settled hc hadm happ =>
      rw [happ.leaves]
      exact List.prefix_append _ _
  | registered asset token hnew => exact List.prefix_rfl
  | configured a => cases a <;> exact List.prefix_rfl
  | registry hreg => exact List.prefix_rfl
  | tokens ledger => exact List.prefix_rfl

/-- So every stage of the tree is a prefix of the last. -/
theorem accepted_leaves (w₀ : World L) (es : List (Event L)) :
    ∀ t ∈ accepted (step env) w₀ es,
      t.after.pool.treeLeaves <+: (run (step env) w₀ es).pool.treeLeaves := by
  refine history_induction
    (fun (h : List (Transition (World L) (Event L))) w =>
      ∀ t ∈ h, t.after.pool.treeLeaves <+: w.pool.treeLeaves)
    (by simp) ?_ es
  intro h w₁ w₂ e ih hstep t ht
  rcases List.mem_append.mp ht with ht | ht
  · exact (ih t ht).trans (step_leaves hstep)
  · rw [List.mem_singleton.mp ht]

/-- A spent word stays spent. -/
theorem step_spent_mono {e : Event L} (h : step env w e = .ok w')
    {n : Word} (hn : w.registry.spent n = true) :
    w'.registry.spent n = true := by
  cases step_ok h with
  | settled hc hadm happ => exact (happ.spent n).mpr (Or.inl hn)
  | registered asset token hnew => exact hn
  | configured a => exact hn
  | registry hreg => exact NullifierRegistry.exec_spent_mono hreg hn
  | tokens ledger => exact hn

end Frame

end Lumix
