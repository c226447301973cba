/-
Which words a spend is remembered by.

The registry remembers a spent note by a 32-byte word. The circuit ties
the note to the field element `Poseidon(nullifier, poolId, chainId)`,
and the pool ties `poolId` and `chainId` to its own only through the
low half of their words. So one note has one word exactly as long as
callers keep to the canonical word of the hash and to domain words
without a high half.

`domain_exact_iff` says when the domain check of an accepted call was
exact. `spent_once` carries it to runs: if every accepted spend keeps to
those words, no nullifier secret and no commitment is consumed twice.
-/
import Lumix.Pool.Testnet

namespace Lumix

open Exec Run ProofVerifier

variable {L : Type} [TokenHost L]

-- ============================================================= domains

theorem Call.domainAt_le (c : Call) : c.domainAt.1 ≤ c.domainAt.2 := by
  cases c <;> simp [Call.domainAt]

/-- The domain the verifier checked is the pool's own exactly when the
two domain words have an empty high half; the pool compares the low
halves only. -/
theorem domain_exact_iff {env : Env} {ctx : Ctx} {w w' : World L}
    {c : Call} (h : exec env ctx w c = .ok w') (hc : c.Settles) :
    ∃ bytes v, c.signalBytes = some bytes ∧ publicFromBytes bytes = .ok v
      ∧ ((v[c.domainAt.1]? = some (w.pool.poolId.toNat : Fr)
          ∧ v[c.domainAt.2]? = some (w.pool.chainId.toNat : Fr))
        ↔ ((c.signal c.domainAt.1).high = 0
          ∧ (c.signal c.domainAt.2).high = 0)) := by
  obtain ⟨hadm, -⟩ := exec_ok h hc
  obtain ⟨bytes, hbytes, hparse⟩ := hadm.decoded
  refine ⟨bytes, _, hbytes, publicFromBytes_of_parse hparse, ?_⟩
  -- both places exist, and the verifier's entry is the pool's, reduced
  have hentry : ∀ i < c.signals.length, ∀ y : Fr,
      (c.signals.map Word.toFr)[i]? = some y
        ↔ Word.toFr (c.signal i) = y := by
    intro i hi y
    rw [List.getElem?_map, List.getElem?_eq_getElem hi]
    unfold Call.signal sigAt
    rw [List.getElem?_eq_getElem hi]
    simp
  have hfirst : c.domainAt.1 < c.signals.length :=
    Nat.lt_of_le_of_lt c.domainAt_le hadm.present
  rw [hentry _ hfirst, hentry _ hadm.present,
    toFr_eq_iff_high_zero w.pool.poolId.toNat_lt hadm.poolId,
    toFr_eq_iff_high_zero w.pool.chainId.toNat_lt hadm.chainId]

section Domain

open Testnet

/-- A deposit into the empty testnet pool under the given pool id. -/
def depositUnder (poolId : Fr) : Call :=
  depositCall usdc 100 0x100 (mint noteU 0x100 1000 100 poolId) []

/-- Both are accepted; the second is proven, for another pool id than
the pool's. -/
theorem depositsUnder_evaluated :
    ((exec env ctx (run (step env) (genesis 100 0) setup)
        (depositUnder 1)).isOk
      ∧ ((depositUnder 1).signal 12).high = 0
      ∧ ((depositUnder 1).signal 13).high = 0)
    ∧ Proven env.poseidon 12 2 (depositUnder (1 + 2 ^ 128))
        (.deposit (mint noteU 0x100 1000 100 (1 + 2 ^ 128)))
      ∧ (run (step env) (genesis 100 0) setup).pool.poolId = 1
      ∧ (exec env ctx (run (step env) (genesis 100 0) setup)
        (depositUnder (1 + 2 ^ 128))).isOk
      ∧ (mint noteU 0x100 1000 100 (1 + 2 ^ 128)).publicSignals[12]?
        ≠ some 1 := by
  decide +kernel

/-- The check is exact for a deposit under the pool's own id. -/
theorem domain_exact_deposit :
    ∃ w', exec env ctx (run (step env) (genesis 100 0) setup)
        (depositUnder 1) = .ok w'
      ∧ ∃ bytes v, (depositUnder 1).signalBytes = some bytes
        ∧ publicFromBytes bytes = .ok v ∧ v[12]? = some 1
        ∧ v[13]? = some 27 := by
  obtain ⟨⟨hok, hhigh⟩, -⟩ := depositsUnder_evaluated
  obtain ⟨w', hw'⟩ := exists_ok_of_isOk hok
  obtain ⟨bytes, v, hbytes, hread, hiff⟩ := domain_exact_iff hw' trivial
  obtain ⟨hpool, hchain⟩ := hiff.mpr hhigh
  exact ⟨w', hw', bytes, v, hbytes, hread, hpool, hchain⟩

/-- A deposit under the pool id `1 + 2^128` is proven and accepted by the
pool with id 1. -/
theorem domain_inexact_deposit :
    (genesis 100 0).Constructed
      ∧ Proven env.poseidon 12 2 (depositUnder (1 + 2 ^ 128))
        (.deposit (mint noteU 0x100 1000 100 (1 + 2 ^ 128)))
      ∧ (run (step env) (genesis 100 0) setup).pool.poolId = 1
      ∧ ∃ w', exec env ctx (run (step env) (genesis 100 0) setup)
          (depositUnder (1 + 2 ^ 128)) = .ok w'
        ∧ ∃ bytes v, (depositUnder (1 + 2 ^ 128)).signalBytes = some bytes
          ∧ publicFromBytes bytes = .ok v ∧ v[12]? ≠ some 1 := by
  obtain ⟨-, hp, hpool, hok, hne⟩ := depositsUnder_evaluated
  obtain ⟨w', hw'⟩ := exists_ok_of_isOk hok
  exact ⟨genesis_constructed 100 0, hp, hpool, w', hw', _, _, rfl,
    hp.signals _ rfl, hne⟩

end Domain

-- ========================================================== nullifiers

/-- Where a call's nullifier words are. -/
def Call.nullifierAt : Call → List ℕ
  | withdraw _ | withdrawCctp _ | rfqSettle _ | rfqSettleAtomicSwap _
  | privateTransferSettle _ => [0]
  | mpcSettle _ | mpcSettlePriced _ => [0, 1]
  | receiveCctpDeposit _ | registerAsset _ _ | admin _ => []

/-- A spend in canonical words: its nullifiers below the order, its
domain words without a high half. -/
def Call.SpendsCanonically (c : Call) : Prop :=
  (∀ i ∈ c.nullifierAt, (c.signal i).Canonical)
    ∧ (c.nullifierAt ≠ [] → (c.signal c.domainAt.1).high = 0
      ∧ (c.signal c.domainAt.2).high = 0)

instance (c : Call) : Decidable c.SpendsCanonically :=
  inferInstanceAs (Decidable (_ ∧ _))

/-- If the event is a call of the pool, it passes canonical
nullifiers. -/
def Event.SpendsCanonically : Event L → Prop
  | pool _ c _ => c.SpendsCanonically
  | registry _ _ | tokens _ _ => True

instance : (e : Event L) → Decidable e.SpendsCanonically
  | .pool _ c _ => inferInstanceAs (Decidable c.SpendsCanonically)
  | .registry _ _ => isTrue trivial
  | .tokens _ _ => isTrue trivial

/-- The word a note is remembered by. -/
def nullifierWord (H : List Fr → Fr) (p : Pool) (n : Note) : Word :=
  Word.ofFr (n.nullifierHash H p.poolId.toNat p.chainId.toNat)

section Words

variable {H : List Fr → Fr} {treeDepth associationDepth : ℕ} {env : Env}
  {p : Pool} {c : Call} {x : Witness}

/-- A canonical spend reveals a note's own word. -/
theorem signal_eq_nullifierWord
    (hp : Proven H treeDepth associationDepth c x)
    (hadm : c.Admitted env p)
    (hpool : (c.signal c.domainAt.1).high = 0)
    (hchain : (c.signal c.domainAt.2).high = 0) {i : ℕ} {n : Note}
    {poolId chainId : Fr} (hcan : (c.signal i).Canonical)
    (hi : x.publicSignals[i]? = some (n.nullifierHash H poolId chainId))
    (hP : x.publicSignals[c.domainAt.1]? = some poolId)
    (hC : x.publicSignals[c.domainAt.2]? = some chainId) :
    c.signal i = nullifierWord H p n := by
  have hpoolId : poolId = (p.poolId.toNat : Fr) := by
    rw [← hp.toFr_signal hadm hP]
    exact (toFr_eq_iff_high_zero p.poolId.toNat_lt hadm.poolId).mpr hpool
  have hchainId : chainId = (p.chainId.toNat : Fr) := by
    rw [← hp.toFr_signal hadm hC]
    exact (toFr_eq_iff_high_zero p.chainId.toNat_lt hadm.chainId).mpr hchain
  apply Word.eq_ofFr_of_canonical hcan
  rw [hp.toFr_signal hadm hi, hpoolId, hchainId]

/-- What a canonical spend enters into the registry: the words of the
notes its assignment consumes, in order. -/
theorem nullifiers_eq (hp : Proven H treeDepth associationDepth c x)
    (hadm : c.Admitted env p) (hcan : c.SpendsCanonically) (ctx : Ctx) :
    (c.effect env ctx p).nullifiers = x.spent.map (nullifierWord H p) := by
  obtain ⟨hwords, hdomain⟩ := hcan
  have hcircuit := hp.circuit
  have hsat := hp.satisfied
  cases c with
  | receiveCctpDeposit a =>
      cases x with
      | deposit y => rfl
      | _ => exact hcircuit.elim
  | registerAsset asset token =>
      cases x with
      | none => rfl
      | _ => exact hcircuit.elim
  | admin a =>
      cases x with
      | none => rfl
      | _ => exact hcircuit.elim
  | withdraw a | withdrawCctp a | rfqSettle a | rfqSettleAtomicSwap a =>
      cases x with
      | withdraw y =>
          obtain ⟨hpool, hchain⟩ := hdomain (List.cons_ne_nil _ _)
          refine congrArg (· :: []) (signal_eq_nullifierWord hp hadm hpool
            hchain (hwords 0 (List.mem_singleton_self 0)) ?_ rfl rfl)
          exact congrArg some hsat.nullifierHash
      | _ => exact hcircuit.elim
  | privateTransferSettle a =>
      cases x with
      | transfer y =>
          obtain ⟨hpool, hchain⟩ := hdomain (List.cons_ne_nil _ _)
          refine congrArg (· :: []) (signal_eq_nullifierWord hp hadm hpool
            hchain (hwords 0 (List.mem_singleton_self 0)) ?_ rfl rfl)
          exact congrArg some hsat.nullifierHash
      | _ => exact hcircuit.elim
  | mpcSettle a =>
      cases x with
      | mpc y =>
          obtain ⟨hpool, hchain⟩ := hdomain (List.cons_ne_nil _ _)
          obtain ⟨h0, h1, -⟩ := hadm.amounts
          refine congrArg₂ (fun m n => [m, n]) ?_ ?_
          · rw [← h0]
            exact signal_eq_nullifierWord hp hadm hpool hchain
              (hwords 0 (by simp [Call.nullifierAt]))
              (congrArg some hsat.nhA) rfl rfl
          · rw [← h1]
            exact signal_eq_nullifierWord hp hadm hpool hchain
              (hwords 1 (by simp [Call.nullifierAt]))
              (congrArg some hsat.nhB) rfl rfl
      | _ => exact hcircuit.elim
  | mpcSettlePriced a =>
      cases x with
      | priced y =>
          obtain ⟨hpool, hchain⟩ := hdomain (List.cons_ne_nil _ _)
          obtain ⟨h0, h1, -⟩ := hadm.amounts
          refine congrArg₂ (fun m n => [m, n]) ?_ ?_
          · rw [← h0]
            exact signal_eq_nullifierWord hp hadm hpool hchain
              (hwords 0 (by simp [Call.nullifierAt]))
              (congrArg some hsat.nhA) rfl rfl
          · rw [← h1]
            exact signal_eq_nullifierWord hp hadm hpool hchain
              (hwords 1 (by simp [Call.nullifierAt]))
              (congrArg some hsat.nhB) rfl rfl
      | _ => exact hcircuit.elim

end Words

-- =============================================================== runs

/-- What a run of canonical spends keeps: the pool's domain is the
constructed one, the consumed secrets are distinct, and each consumed
note's word is in the registry. -/
structure SpendInv (H : List Fr → Fr) (w₀ : World L)
    (h : List (Transition (World L) (Event L))) (w : World L) : Prop where
  poolId : w.pool.poolId = w₀.pool.poolId
  chainId : w.pool.chainId = w₀.pool.chainId
  distinct : ((spentNotes h).map Note.nullifier).Nodup
  entered : ∀ n ∈ spentNotes h,
    w.registry.spent (nullifierWord H w₀.pool n) = true

omit [TokenHost L] in
theorem nullifierWord_congr {H : List Fr → Fr} {p q : Pool}
    (hp : p.poolId = q.poolId) (hc : p.chainId = q.chainId) :
    nullifierWord H p = nullifierWord H q := by
  funext n
  unfold nullifierWord
  rw [hp, hc]

omit [TokenHost L] in
theorem spentNotes_concat (h : List (Transition (World L) (Event L)))
    (t : Transition (World L) (Event L)) :
    spentNotes (h ++ [t]) = spentNotes h ++ t.event.spent := by
  simp [spentNotes]

/-- Equal secrets have equal words, so distinct words come from distinct
secrets. -/
theorem distinct_of_words {H : List Fr → Fr} {p : Pool} {ns : List Note}
    (h : (ns.map (nullifierWord H p)).Nodup) :
    (ns.map Note.nullifier).Nodup := by
  have hfactor : ns.map (nullifierWord H p)
      = (ns.map Note.nullifier).map fun x =>
          Word.ofFr (H [x, p.poolId.toNat, p.chainId.toNat]) := by
    rw [List.map_map]
    rfl
  rw [hfactor] at h
  exact h.of_map

/-- The words of the notes an accepted event consumes are distinct, were
fresh before it, and are entered after it. -/
theorem step_consumes {env : Env} {treeDepth associationDepth : ℕ}
    {w w' : World L} {e : Event L} (hstep : step env w e = .ok w')
    (hproven : e.Proven env.poseidon treeDepth associationDepth)
    (hcan : e.SpendsCanonically) :
    (e.spent.map (nullifierWord env.poseidon w.pool)).Nodup
      ∧ ∀ n ∈ e.spent,
        w.registry.spent (nullifierWord env.poseidon w.pool n) = false
        ∧ w'.registry.spent (nullifierWord env.poseidon w.pool n)
          = true := by
  cases step_ok hstep with
  | @settled ctx c x _ hc hadm happ =>
      have heq := nullifiers_eq hproven hadm hcan ctx
      refine ⟨by rw [Event.spent, ← heq]; exact happ.nodup, ?_⟩
      intro n hn
      have hmem : nullifierWord env.poseidon w.pool n
          ∈ (c.effect env ctx w.pool).nullifiers := by
        rw [heq]
        exact List.mem_map_of_mem hn
      exact ⟨happ.fresh _ hmem, (happ.spent _).mpr (Or.inr hmem)⟩
  | @registered ctx x asset token hnew =>
      cases x with
      | none => simp [Event.spent, Witness.spent]
      | _ => exact hproven.circuit.elim
  | @configured ctx x a =>
      cases x with
      | none => simp [Event.spent, Witness.spent]
      | _ => exact hproven.circuit.elim
  | registry hreg => simp [Event.spent]
  | tokens ledger => simp [Event.spent]

/-- One accepted event keeps the invariant. -/
theorem SpendInv.step {env : Env} {treeDepth associationDepth : ℕ}
    {w₀ w w' : World L} {h : List (Transition (World L) (Event L))}
    {e : Event L} (hinv : SpendInv env.poseidon w₀ h w)
    (hstep : step env w e = .ok w')
    (hproven : e.Proven env.poseidon treeDepth associationDepth)
    (hcan : e.SpendsCanonically) :
    SpendInv env.poseidon w₀ (h ++ [⟨w, e, w'⟩]) w' := by
  obtain ⟨hpool, hchain, -⟩ := step_domain hstep
  have hnew := step_consumes hstep hproven hcan
  rw [nullifierWord_congr (H := env.poseidon) hinv.poolId hinv.chainId]
    at hnew
  obtain ⟨hnodup, hfresh⟩ := hnew
  refine ⟨by rw [hpool, hinv.poolId], by rw [hchain, hinv.chainId], ?_, ?_⟩
  · rw [spentNotes_concat, List.map_append]
    refine List.nodup_append.mpr ⟨hinv.distinct,
      distinct_of_words hnodup, ?_⟩
    -- an old secret among the new would have been entered already
    intro s hs s' hs' heq
    obtain ⟨m, hm, rfl⟩ := List.mem_map.mp hs
    obtain ⟨n, hn, rfl⟩ := List.mem_map.mp hs'
    have hsame : nullifierWord env.poseidon w₀.pool m
        = nullifierWord env.poseidon w₀.pool n := by
      unfold nullifierWord Note.nullifierHash
      rw [heq]
    have hold := hinv.entered m hm
    rw [hsame, (hfresh n hn).1] at hold
    cases hold
  · intro n hn
    rw [spentNotes_concat] at hn
    rcases List.mem_append.mp hn with hn | hn
    · exact step_spent_mono hstep (hinv.entered n hn)
    · exact (hfresh n hn).2

/-- No double spend. In a run whose accepted calls are proven and whose
accepted spends use canonical words, from any starting world, every
nullifier secret is consumed at most once, whichever entrypoints and
circuits consume it; and where the hashed inputs do not collide, so is
every commitment. -/
theorem spent_once {env : Env} {treeDepth associationDepth : ℕ}
    (w₀ : World L) (es : List (Event L))
    (hproven : ∀ t ∈ accepted (step env) w₀ es,
      t.event.Proven env.poseidon treeDepth associationDepth)
    (hcan : ∀ t ∈ accepted (step env) w₀ es, t.event.SpendsCanonically) :
    ((spentNotes (accepted (step env) w₀ es)).map Note.nullifier).Nodup
      ∧ (Set.InjOn env.poseidon (occurring env w₀ es) →
        ((spentNotes (accepted (step env) w₀ es)).map
          (Note.commitment env.poseidon)).Nodup) := by
  have hinv : SpendInv env.poseidon w₀ (accepted (step env) w₀ es)
      (run (step env) w₀ es) := by
    refine history_induction_of
      (fun t => t.event.Proven env.poseidon treeDepth associationDepth
        ∧ t.event.SpendsCanonically)
      (SpendInv env.poseidon w₀) ?_ ?_ es
      fun t ht => ⟨hproven t ht, hcan t ht⟩
    · exact ⟨rfl, rfl, List.nodup_nil, by simp [spentNotes]⟩
    · intro h w w' e hinv hstep _ hC
      exact hinv.step hstep hC.1 hC.2
  refine ⟨hinv.distinct, fun hinj => ?_⟩
  -- distinct secrets are distinct notes, and a commitment pins its note
  refine List.Nodup.map_on ?_ hinv.distinct.of_map
  intro m hm n hn heq
  exact Note.eq_of_commitment_eq hinj (fun y hy => occurring_of_spent hm hy)
    (fun y hy => occurring_of_spent hn hy) heq

section Runs

open Testnet

/-- The withdrawal is in canonical words, and the aliased one repeats
its nullifier secret. -/
theorem spends_evaluated :
    (accepted (step env) (genesis 100 0) withdrawRun).length = 10
      ∧ (∀ t ∈ accepted (step env) (genesis 100 0) withdrawRun,
        t.event.SpendsCanonically)
      ∧ ¬((spentNotes (accepted (step env) (genesis 100 0)
          aliasRun)).map Note.nullifier).Nodup := by
  decide +kernel

/-- A deposit and a withdrawal in canonical words spend one note once. -/
theorem spent_once_withdrawal :
    (accepted (step env) (genesis 100 0) withdrawRun).length = 10
      ∧ ((spentNotes (accepted (step env) (genesis 100 0)
          withdrawRun)).map Note.nullifier).Nodup
      ∧ ((spentNotes (accepted (step env) (genesis 100 0)
          withdrawRun)).map (Note.commitment env.poseidon)).Nodup := by
  have hmem : withdrawRun ∈ [depositRun, withdrawRun, aliasRun] :=
    .tail _ (.head _)
  have hinj : Set.InjOn env.poseidon
      (occurring env (genesis 100 0) withdrawRun) :=
    poseidonFast_injOn.mono (occurring_digests hmem)
  obtain ⟨-, hproven, -, -⟩ := runs_evaluated withdrawRun hmem
  obtain ⟨hlength, hcan, -⟩ := spends_evaluated
  obtain ⟨hsecrets, hcommitments⟩ :=
    spent_once (genesis 100 0) withdrawRun hproven hcan
  exact ⟨hlength, hsecrets, hcommitments hinj⟩

/-- With the order added to the nullifier word, the note is spent again:
the run is proven and nothing hashed in it collides. -/
theorem spent_twice_aliased :
    (genesis 100 0).Constructed
      ∧ (genesis 100 0).registry.authorized env.self = true
      ∧ (∀ t ∈ accepted (step env) (genesis 100 0) aliasRun,
        t.event.Proven env.poseidon 12 2)
      ∧ Set.InjOn env.poseidon (occurring env (genesis 100 0) aliasRun)
      ∧ ¬((spentNotes (accepted (step env) (genesis 100 0)
          aliasRun)).map Note.nullifier).Nodup := by
  have hmem : aliasRun ∈ [depositRun, withdrawRun, aliasRun] :=
    .tail _ (.tail _ (.head _))
  obtain ⟨-, hproven, -, -⟩ := runs_evaluated aliasRun hmem
  obtain ⟨-, -, htwice⟩ := spends_evaluated
  refine ⟨genesis_constructed 100 0, by decide, hproven, ?_, htwice⟩
  exact poseidonFast_injOn.mono (occurring_digests hmem)

end Runs

end Lumix
