/-
The legacy LumixProtocolVault, and the tree it appends to.

The vault takes CCTP deposits, each under a nonce, and appends their
commitments to the CommitmentTree; its settlement entrypoints check that
something was given and hash it. Both contracts can be called by anyone,
in any order, and neither moves a token. What holds of every run is that
a nonce is used once, and that the index a deposit is answered with is
where its commitment stays (`deposits_of_run`).
-/
import Lumix.Contracts.CommitmentTree

namespace Lumix

open Exec Run

/-- The contract's storage. -/
structure LumixProtocolVault where
  admin : Option Address
  paused : Option Bool
  usdcSac : Option Address
  tree : Option Address
  nullifiers : Option Address
  compliance : Option Address
  deposit : Word → Bool

namespace LumixProtocolVault

/-- The arguments of `receive_cctp_deposit`. -/
structure CctpDeposit where
  sourceDomain : UInt32
  cctpNonce : Word
  asset : Address
  amount : I128
  commitment : Word
  encryptedNotePayloadHash : Word
  policyId : Word

/-- The two contracts. -/
structure World where
  vault : LumixProtocolVault
  tree : CommitmentTree

/-- The host's hash, where the tree is, and what the verifier contracts
answer. -/
structure Env where
  sha256 : Bytes → Word
  treeAddress : Address
  verify : Address → Bytes → Bytes → Except Trap Bool

/-- Nothing is stored before `init`. -/
def empty : LumixProtocolVault where
  admin := none
  paused := none
  usdcSac := none
  tree := none
  nullifiers := none
  compliance := none
  deposit _ := false

/-- The stored admin has to sign. -/
def requireAdmin (ctx : Ctx) (v : LumixProtocolVault) :
    Except Trap Unit := do
  let admin ← orPanic .unwrapNone v.admin
  ctx.requireAuth admin

/-- A vault that was never paused is not. -/
def requireNotPaused (v : LumixProtocolVault) : Except Trap Unit :=
  panicIf (v.paused.getD false = true) (.panic "paused")

/-- `initialize`. -/
def init (ctx : Ctx) (admin usdcSac tree nullifiers compliance : Address)
    (v : LumixProtocolVault) : Except Trap LumixProtocolVault := do
  panicIf (v.admin.isSome = true) (.panic "already initialized")
  ctx.requireAuth admin
  pure { v with
    admin := some admin
    paused := some false
    usdcSac := some usdcSac
    tree := some tree
    nullifiers := some nullifiers
    compliance := some compliance }

/-- The call of `append` on the tree the vault was given. -/
def invokeAppend (env : Env) (tree : Address) (commitment : Word)
    (w : World) : Except Trap (World × ℕ × Word) := do
  panicIf (tree ≠ env.treeAddress) .noContract
  let (t, index, root) ← w.tree.append env.sha256 commitment
  pure ({ w with tree := t }, index, root)

/-- The leaf's index is returned. -/
def receiveCctpDeposit (env : Env) (d : CctpDeposit) (w : World) :
    Except Trap (World × ℕ) := do
  w.vault.requireNotPaused
  panicIf (d.amount.toInt ≤ 0) (.panic "amount")
  panicIf (w.vault.deposit d.cctpNonce = true)
    (.panic "duplicate cctp nonce")
  let tree ← orPanic .unwrapNone w.vault.tree
  let (w, index, _) ← invokeAppend env tree d.commitment w
  pure ({ w with vault := { w.vault with
    deposit := Function.update w.vault.deposit d.cctpNonce true } }, index)

/-- `withdraw_public`, `withdraw_cctp`, `rfq_settle` and
`solver_claim_or_credit`, which differ in the events they publish. -/
def hashInputs (env : Env) (proof publicInputs : Bytes)
    (v : LumixProtocolVault) : Except Trap Word := do
  v.requireNotPaused
  panicIf (proof.length = 0 ∨ publicInputs.length = 0)
    (.panic "empty proof")
  pure (env.sha256 publicInputs)

/-- `verify`, which is `private_transfer_settle`. -/
def verify (env : Env) (verifierId : Address) (proof publicInputs : Bytes)
    (v : LumixProtocolVault) : Except Trap Word := do
  v.requireNotPaused
  panicIf (proof.length = 0 ∨ publicInputs.length = 0)
    (.panic "empty proof")
  let ok ← env.verify verifierId proof publicInputs
  panicIf (ok = false) (.panic "proof failed")
  pure (env.sha256 publicInputs)

/-- `pause`, by the admin. -/
def pause (ctx : Ctx) (v : LumixProtocolVault) :
    Except Trap LumixProtocolVault := do
  v.requireAdmin ctx
  pure { v with paused := some true }

/-- `unpause`, by the admin. -/
def unpause (ctx : Ctx) (v : LumixProtocolVault) :
    Except Trap LumixProtocolVault := do
  v.requireAdmin ctx
  pure { v with paused := some false }

/-- The settlement entrypoints that only hash. -/
inductive Hashing
  | withdrawPublic (recipient : Address)
  | withdrawCctp (destinationDomain : UInt32) (destinationRecipient : Word)
  | rfqSettle (quoteHash : Word) (solverId : String)
  | solverClaimOrCredit

/-- The entrypoints that write. -/
inductive Call
  | init (admin usdcSac tree nullifiers compliance : Address)
  | receiveCctpDeposit (d : CctpDeposit)
  | privateTransferSettle (verifierId : Address) (proof publicInputs : Bytes)
  | hashing (entry : Hashing) (proof publicInputs : Bytes)
  | pause (reasonHash : Word)
  | unpause

/-- What a call does. -/
def exec (env : Env) (ctx : Ctx) (w : World) : Call → Except Trap World
  | .init admin usdcSac tree nullifiers compliance => do
      let v ← w.vault.init ctx admin usdcSac tree nullifiers compliance
      pure { w with vault := v }
  | .receiveCctpDeposit d => Prod.fst <$> receiveCctpDeposit env d w
  | .privateTransferSettle verifierId proof publicInputs => do
      let _ ← w.vault.verify env verifierId proof publicInputs
      pure w
  | .hashing _ proof publicInputs => do
      let _ ← w.vault.hashInputs env proof publicInputs
      pure w
  | .pause _ => do
      let v ← w.vault.pause ctx
      pure { w with vault := v }
  | .unpause => do
      let v ← w.vault.unpause ctx
      pure { w with vault := v }

/-- A call of the vault, or of the tree directly. -/
inductive Event
  | vault (ctx : Ctx) (call : Call)
  | tree (e : CommitmentTree.Event)

/-- One event of the vault or of its tree; it changes nothing if it
traps. -/
def step (env : Env) (w : World) : Event → Except Trap World
  | .vault ctx call => exec env ctx w call
  | .tree e => do
      let t ← w.tree.step env.sha256 e
      pure { w with tree := t }

-- ============================================================== specs

/-- What an accepted deposit did, -/
theorem receiveCctpDeposit_ok {env : Env} {d : CctpDeposit} {w w' : World}
    {i : ℕ} (h : receiveCctpDeposit env d w = .ok (w', i)) :
    0 < d.amount.toInt ∧ w.vault.deposit d.cctpNonce = false
      ∧ ∃ t r, w.tree.append env.sha256 d.commitment = .ok (t, i, r)
        ∧ w'.tree = t ∧ w'.vault.deposit
          = Function.update w.vault.deposit d.cctpNonce true := by
  simp only [receiveCctpDeposit, invokeAppend, bind_eq_ok, panicIf_eq_ok,
    pure_eq_ok] at h
  obtain ⟨-, -, -, hamount, -, hfresh, tree, -, ⟨w'', j, r⟩,
    ⟨-, -, ⟨t, k, r'⟩, happend, heq⟩, heq'⟩ := h
  obtain ⟨rfl, rfl, rfl⟩ := by simpa using heq
  obtain ⟨rfl, rfl⟩ := by simpa using heq'
  exact ⟨by simpa using hamount, by simpa using hfresh, t, _, happend,
    rfl, rfl⟩

/-- and when one is accepted. -/
theorem receiveCctpDeposit_iff {env : Env} {d : CctpDeposit} {w : World} :
    (∃ r, receiveCctpDeposit env d w = .ok r)
      ↔ w.vault.paused ≠ some true ∧ 0 < d.amount.toInt
        ∧ w.vault.deposit d.cctpNonce ≠ true
        ∧ w.vault.tree = some env.treeAddress
        ∧ ∃ r, w.tree.append env.sha256 d.commitment = .ok r := by
  simp only [receiveCctpDeposit, invokeAppend, requireNotPaused,
    bind_eq_ok, panicIf_eq_ok, orPanic_eq_ok, pure_eq_ok, not_le]
  constructor
  · rintro ⟨-, -, hgo, -, hamount, -, hfresh, tree, htree, -,
      ⟨-, hhere, r, happend, -⟩, -⟩
    refine ⟨fun h => hgo (by rw [h]; rfl), hamount, hfresh, ?_, r, happend⟩
    rw [htree, not_not.mp hhere]
  · rintro ⟨hpaused, hamount, hfresh, htree, r, happend⟩
    have hgo : ¬w.vault.paused.getD false = true := by
      cases hp : w.vault.paused with
      | none => exact Bool.false_ne_true
      | some p => rw [hp] at hpaused; simpa using hpaused
    exact ⟨_, (), hgo, (), hamount, (), hfresh, _, htree, _,
      ⟨(), not_not.mpr rfl, r, happend, rfl⟩, rfl⟩

/-- Apart from deposits, a call of the vault leaves the nonces and the
tree alone. -/
theorem exec_cases {env : Env} {ctx : Ctx} {w w' : World} {c : Call}
    (h : exec env ctx w c = .ok w') :
    (∃ d i, c = .receiveCctpDeposit d
      ∧ receiveCctpDeposit env d w = .ok (w', i))
    ∨ ((∀ d, c ≠ .receiveCctpDeposit d) ∧ w'.tree = w.tree
      ∧ w'.vault.deposit = w.vault.deposit) := by
  cases c with
  | receiveCctpDeposit d =>
      obtain ⟨⟨w'', i⟩, hreceive, rfl⟩ := map_eq_ok.mp h
      exact .inl ⟨d, i, rfl, hreceive⟩
  | init admin usdcSac tree nullifiers compliance =>
      simp only [exec, LumixProtocolVault.init, bind_eq_ok, pure_eq_ok] at h
      obtain ⟨_, ⟨_, _, _, _, rfl⟩, rfl⟩ := h
      exact .inr ⟨fun d hd => (by cases hd), rfl, rfl⟩
  | privateTransferSettle verifierId proof publicInputs =>
      simp only [exec, bind_eq_ok, pure_eq_ok] at h
      obtain ⟨_, _, rfl⟩ := h
      exact .inr ⟨fun d hd => (by cases hd), rfl, rfl⟩
  | hashing entry proof publicInputs =>
      simp only [exec, bind_eq_ok, pure_eq_ok] at h
      obtain ⟨_, _, rfl⟩ := h
      exact .inr ⟨fun d hd => (by cases hd), rfl, rfl⟩
  | pause reasonHash =>
      simp only [exec, LumixProtocolVault.pause, bind_eq_ok, pure_eq_ok] at h
      obtain ⟨_, ⟨_, _, rfl⟩, rfl⟩ := h
      exact .inr ⟨fun d hd => (by cases hd), rfl, rfl⟩
  | unpause =>
      simp only [exec, LumixProtocolVault.unpause, bind_eq_ok, pure_eq_ok]
        at h
      obtain ⟨_, ⟨_, _, rfl⟩, rfl⟩ := h
      exact .inr ⟨fun d hd => (by cases hd), rfl, rfl⟩

-- ================================================================ runs

/-- The deposit of an accepted call, with the index of its leaf. -/
def depositOf (x : Transition World Event) : Option (ℕ × CctpDeposit) :=
  match x.event with
  | .vault _ (.receiveCctpDeposit d) => some (x.before.tree.getLeafCount, d)
  | _ => none

/-- The deposits of a history, with their leaves. -/
def deposits (h : List (Transition World Event)) :
    List (ℕ × CctpDeposit) :=
  h.filterMap depositOf

/-- Neither contract is initialised. -/
abbrev fresh : World := ⟨.empty, .empty⟩

/-- What is accepted in a run. -/
abbrev history (env : Env) (es : List Event) :
    List (Transition World Event) :=
  accepted (step env) fresh es

/-- Both contracts after the calls. -/
abbrev after (env : Env) (es : List Event) : World :=
  run (step env) fresh es

/-- The contracts after these leaves, of which some are deposits. -/
structure DepositInv (env : Env) (leaves : List Word)
    (ds : List (ℕ × CctpDeposit)) (w : World) : Prop where
  tree : CommitmentTree.TreeInv env.sha256 leaves w.tree
  nonces : (ds.map (·.2.cctpNonce)).Nodup
  recorded : ∀ n, w.vault.deposit n = true ↔ n ∈ ds.map (·.2.cctpNonce)
  amounts : ∀ p ∈ ds, 0 < p.2.amount.toInt
  commitments : ∀ p ∈ ds, leaves[p.1]? = some p.2.commitment
  ordered : ds.Pairwise (·.1 < ·.1)

variable {env : Env} {leaves : List Word} {ds : List (ℕ × CctpDeposit)}
  {w w' : World}

/-- Every deposit has a leaf. -/
theorem DepositInv.lt (h : DepositInv env leaves ds w)
    {p : ℕ × CctpDeposit} (hp : p ∈ ds) : p.1 < leaves.length :=
  (List.getElem?_eq_some_iff.mp (h.commitments p hp)).1

/-- A leaf of somebody else, or none. -/
theorem DepositInv.aside (h : DepositInv env leaves ds w) (more : List Word)
    (htree : CommitmentTree.TreeInv env.sha256 (leaves ++ more) w'.tree)
    (hdeposit : w'.vault.deposit = w.vault.deposit) :
    DepositInv env (leaves ++ more) ds w' := by
  refine ⟨htree, h.nonces, ?_, h.amounts, fun p hp => ?_, h.ordered⟩
  · rw [hdeposit]
    exact h.recorded
  · rw [List.getElem?_append_left (h.lt hp)]
    exact h.commitments p hp

/-- A further deposit gets the next. -/
theorem DepositInv.deposit (h : DepositInv env leaves ds w)
    {d : CctpDeposit} {i : ℕ}
    (hreceive : receiveCctpDeposit env d w = .ok (w', i)) :
    DepositInv env (leaves ++ [d.commitment])
      (ds ++ [(w.tree.getLeafCount, d)]) w' := by
  obtain ⟨hamount, hfresh, t, r, happend, rfl, hdeposit⟩ :=
    receiveCctpDeposit_ok hreceive
  obtain ⟨htree, hi, -⟩ := h.tree.append happend
  have hcount := h.tree.count
  have haside : DepositInv env (leaves ++ [d.commitment]) ds
      ⟨w.vault, w'.tree⟩ := h.aside [d.commitment] htree rfl
  have hnew : d.cctpNonce ∉ ds.map (·.2.cctpNonce) := by
    rw [← h.recorded, hfresh]
    nofun
  refine ⟨htree, ?_, fun n => ?_, ?_, ?_, ?_⟩
  · rw [List.map_append]
    exact List.Nodup.append h.nonces (List.nodup_singleton _)
      (List.disjoint_singleton.mpr hnew)
  · rw [hdeposit, List.map_append, List.mem_append, ← h.recorded]
    by_cases hn : n = d.cctpNonce
    · subst hn
      simp
    · rw [Function.update_of_ne hn]
      simp [hn]
  · exact List.forall_mem_append.mpr
      ⟨h.amounts, List.forall_mem_singleton.mpr hamount⟩
  · refine List.forall_mem_append.mpr
      ⟨haside.commitments, List.forall_mem_singleton.mpr ?_⟩
    rw [hcount, List.getElem?_concat_length]
  · refine List.pairwise_append.mpr
      ⟨h.ordered, List.pairwise_singleton .., fun p hp q hq => ?_⟩
    rw [List.mem_singleton.mp hq]
    exact hcount.symm ▸ h.lt hp

/-- What one accepted call keeps. -/
theorem DepositInv.step (h : DepositInv env leaves ds w) {e : Event}
    (hstep : step env w e = .ok w') :
    ∃ leaves', DepositInv env leaves'
      (ds ++ (depositOf ⟨w, e, w'⟩).toList) w' := by
  cases e with
  | tree e =>
      simp only [LumixProtocolVault.step, bind_eq_ok, pure_eq_ok] at hstep
      obtain ⟨t, ht, rfl⟩ := hstep
      have haside : DepositInv env (leaves ++ e.call.leaf.toList) ds
          ⟨w.vault, t⟩ := h.aside _ (h.tree.step ht) rfl
      exact ⟨_, by simpa [depositOf] using haside⟩
  | vault ctx call =>
      rcases exec_cases hstep with ⟨d, i, rfl, hreceive⟩
        | ⟨hother, htree, hdeposit⟩
      · exact ⟨_, h.deposit hreceive⟩
      · have hnone : depositOf ⟨w, .vault ctx call, w'⟩ = none := by
          unfold depositOf
          split
          · rename_i heq
            injection heq with _ heq
            exact absurd heq (hother _)
          · rfl
        refine ⟨leaves, ?_⟩
        rw [hnone, Option.toList_none, List.append_nil]
        refine ⟨htree ▸ h.tree, h.nonces, ?_, h.amounts, h.commitments,
          h.ordered⟩
        rw [hdeposit]
        exact h.recorded

/-- So in every run. -/
theorem DepositInv.run (env : Env) (es : List Event) :
    ∃ leaves, DepositInv env leaves (deposits (history env es))
      (after env es) := by
  refine history_induction
    (fun h w => ∃ leaves, DepositInv env leaves (deposits h) w) ?_ ?_ es
  · exact ⟨[], .empty, List.nodup_nil, fun n => ⟨nofun, nofun⟩, nofun,
      nofun, .nil⟩
  · intro h w w' e ⟨leaves, hinv⟩ hstep
    rw [show deposits (h ++ [⟨w, e, w'⟩]) = _ from
      CommitmentTree.filterMap_concat depositOf h _]
    exact hinv.step hstep

/-- However the calls of the two contracts interleave: no nonce is
deposited twice, each deposit's commitment stays at its index, later
deposits have higher indices, and exactly a deposit of a positive amount
under a new nonce is taken, while both contracts are set up and not
paused and the tree has room. -/
theorem deposits_of_run (env : Env) (es : List Event) :
    let ds := deposits (history env es)
    let w := after env es
    (ds.map (·.2.cctpNonce)).Nodup
      ∧ ds.Pairwise (·.1 < ·.1)
      ∧ (∀ p ∈ ds, 0 < p.2.amount.toInt
          ∧ w.tree.getLeaf p.1 = .ok p.2.commitment)
      ∧ ∀ d, (∃ r, receiveCctpDeposit env d w = .ok r)
          ↔ w.vault.paused ≠ some true ∧ 0 < d.amount.toInt
            ∧ d.cctpNonce ∉ ds.map (·.2.cctpNonce)
            ∧ w.vault.tree = some env.treeAddress
            ∧ w.tree.paused ≠ some true ∧ w.tree.admin.isSome = true
            ∧ w.tree.getLeafCount + 1 < 2 ^ 32 := by
  intro ds w
  obtain ⟨leaves, h⟩ := DepositInv.run env es
  refine ⟨h.nonces, h.ordered, fun p hp => ⟨h.amounts p hp, ?_⟩,
    fun d => ?_⟩
  · rw [CommitmentTree.getLeaf, h.tree.leaf, h.commitments p hp]
    rfl
  · rw [receiveCctpDeposit_iff, h.tree.append_iff d.commitment,
      h.tree.count, ← h.recorded]

end LumixProtocolVault

end Lumix
