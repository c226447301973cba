/-
What an accepted call does.

An entrypoint is a long list of checks around a short effect: it spends
some nullifier words, appends some leaves, performs some token
invocations in order, moves the note supply of at most one asset and may
burn a deposit nonce. `Call.effect` computes that effect from the call
and the pool's configuration alone, `Applies` says that a world changed
by exactly such an effect, `Call.Admitted` collects what the entrypoint
had checked and `Call.Publishes` names the event it emits.

`exec_ok` is the refinement: every accepted call was admitted and
applied its effect. All results about runs are derived from it, none
unfolds an entrypoint again.
-/
import Lumix.Pool.Entrypoints

namespace Lumix

open Exec Digits

variable {L : Type} [TokenHost L]

-- ============================================================= effects

/-- What a call writes: nullifiers, leaves, the tokens it moves and the
supply it adjusts. -/
structure Effect where
  nullifiers : List Word
  leaves : List Word
  ops : List TokenOp
  /-- the asset whose supply is adjusted, and by how much -/
  supply : Option (Word × ℤ)
  nonce : Option Word

/-- The public signals of a call, as the pool reads them. -/
def Call.signals (c : Call) : List Word :=
  match c.signalBytes with
  | none => []
  | some bytes =>
      match parsePublicSignals bytes with
      | .ok signals => signals
      | .error _ => []

/-- Signal `i` of a call. -/
def Call.signal (c : Call) (i : ℕ) : Word := sigAt c.signals i

/-- A transfer out of the pool, if the asset resolves to a token. -/
def payout (env : Env) (token : Option Address) (dst : Address)
    (amount : ℤ) : List TokenOp :=
  token.toList.map fun t => .transfer t env.self dst amount

@[simp]
theorem payout_some (env : Env) (t dst : Address) (amount : ℤ) :
    payout env (some t) dst amount = [.transfer t env.self dst amount] := rfl

/-- What `withdraw_cctp` approves: the amount and a positive fee. -/
def pullAmount (amount maxFee : ℤ) : ℤ :=
  amount + if maxFee > 0 then maxFee else 0

/-- The burn of a CCTP exit, as the messenger is asked for it. -/
def burnArgs (env : Env) (p : Pool) (a : WithdrawCctpArgs) (amount : ℤ) :
    BurnArgs where
  caller := env.self
  amount := amount
  destinationDomain := a.destinationDomain
  mintRecipient := a.destinationRecipient
  burnToken := p.usdc
  destinationCaller := 0
  maxFee := a.maxFee.toInt
  minFinalityThreshold := a.minFinalityThreshold

/-- The approval and burn of a CCTP exit, if a messenger is set. -/
def burnOut (env : Env) (ctx : Ctx) (p : Pool) (a : WithdrawCctpArgs)
    (amount : ℤ) : List TokenOp :=
  p.messenger.toList.flatMap fun tmm =>
    [.approve p.usdc env.self tmm (pullAmount amount a.maxFee.toInt)
      (ctx.sequence.toNat + 200),
    .depositForBurn tmm (burnArgs env p a amount)]

theorem burnOut_eq (env : Env) (ctx : Ctx) {p : Pool}
    (a : WithdrawCctpArgs) (amount : ℤ) {tmm : Address}
    (h : p.messenger = some tmm) :
    burnOut env ctx p a amount
      = [.approve p.usdc env.self tmm (pullAmount amount a.maxFee.toInt)
          (ctx.sequence.toNat + 200),
        .depositForBurn tmm (burnArgs env p a amount)] := by
  unfold burnOut
  rw [h]
  rfl

/-- The effect of a call on a pool with the given configuration. -/
def Call.effect (env : Env) (ctx : Ctx) (p : Pool) (c : Call) : Effect :=
  match c with
  | .receiveCctpDeposit a =>
      ⟨[], [a.commitment], [], some (c.signal 8, a.amount.toInt),
        some a.cctpNonce⟩
  | .withdraw a =>
      let value := fr32ToI128 (c.signal 2)
      ⟨[c.signal 0], [],
        payout env (p.assetToken (c.signal 17)) a.toAddr
          (value - fr32ToI128 (c.signal 4)),
        some (c.signal 17, -value), none⟩
  | .withdrawCctp a =>
      let amount := fr32ToI128 (c.signal 2)
      ⟨[c.signal 0], [], burnOut env ctx p a amount,
        some (c.signal 17, -amount), none⟩
  | .rfqSettle a =>
      ⟨[c.signal 0], [],
        payout env (some p.usdc) a.toSolver (fr32ToI128 (c.signal 2)),
        none, none⟩
  | .rfqSettleAtomicSwap a =>
      let value := fr32ToI128 (c.signal 2)
      ⟨[c.signal 0], [],
        payout env (p.assetToken a.outputAssetId) a.userXlmRecipient
            a.quotedOutput.toInt
          ++ payout env (p.assetToken (c.signal 17))
            a.solverUsdcRecipient (value - fr32ToI128 (c.signal 4)),
        some (c.signal 17, -value), none⟩
  | .privateTransferSettle _ => ⟨[c.signal 0], [c.signal 1], [], none, none⟩
  | .mpcSettle a | .mpcSettlePriced a =>
      ⟨[a.nullifierA, a.nullifierB],
        [a.outputCommitmentA, a.outputCommitmentB], [], none, none⟩
  | .registerAsset _ _ | .admin _ => ⟨[], [], [], none, none⟩

/-- Perform token invocations in order. -/
def performAll (l : L) : List TokenOp → Except Trap L
  | [] => .ok l
  | op :: ops => do
      let l ← op.perform l
      performAll l ops

/-- The supply half of an effect. An adjustment was of a registered
asset, ended non-negative, and was covered by the balance the call left
behind. -/
def SupplyMoves (env : Env) (w : World L) (w' : World L) :
    Option (Word × ℤ) → Prop
  | none => w'.pool.noteSupply = w.pool.noteSupply
  | some (asset, delta) =>
      (∃ token, w.pool.assetToken asset = some token
        ∧ w.pool.noteSupply asset + delta
          ≤ TokenHost.balance w'.tokens token env.self)
      ∧ 0 ≤ w.pool.noteSupply asset + delta
      ∧ w'.pool.noteSupply = Function.update w.pool.noteSupply asset
          (w.pool.noteSupply asset + delta)

/-- The tree half of an effect. The counter moved with the leaves, there
was room for them, the known roots are the old ones and the root after
each new leaf, and the stored root is the last of these. -/
structure Grows (env : Env) (p p' : Pool) (ls : List Word) : Prop where
  count : p'.leafCount = p.leafCount + ls.length
  room : ls ≠ [] → (p.treeLeaves ++ ls).length
    ≤ LeanIMT.capacityOf p.treeDepth.toNat
  known : ∀ x, p'.knownRoot x = true ↔ p.knownRoot x = true
    ∨ ∃ k, p.treeLeaves.length < k ∧ k ≤ p.treeLeaves.length + ls.length
      ∧ x = Word.ofFr (LeanIMT.plainRoot env.poseidon p.treeDepth.toNat
        ((p.treeLeaves ++ ls).take k))
  stored : p'.treeRoot = if ls = [] then p.treeRoot
    else Word.ofFr (LeanIMT.plainRoot env.poseidon p.treeDepth.toNat
      (p.treeLeaves ++ ls))

/-- A settlement applied effect `e`, and changed nothing else. -/
structure Applies (env : Env) (w : World L) (e : Effect) (w' : World L) :
    Prop where
  fresh : ∀ n ∈ e.nullifiers, w.registry.spent n = false
  nodup : e.nullifiers.Nodup
  spent : ∀ n, w'.registry.spent n = true
    ↔ w.registry.spent n = true ∨ n ∈ e.nullifiers
  registryFrame : w'.registry = { w.registry with
    spent := w'.registry.spent }
  leaves : w'.pool.treeLeaves = w.pool.treeLeaves ++ e.leaves
  /-- a newly known root is the root over some of the leaves -/
  roots : ∀ x, w'.pool.knownRoot x = true → w.pool.knownRoot x = true
    ∨ ∃ k, 0 < k ∧ k ≤ w'.pool.treeLeaves.length
      ∧ x = Word.ofFr (LeanIMT.plainRoot env.poseidon
        w.pool.treeDepth.toNat (w'.pool.treeLeaves.take k))
  tree : Grows env w.pool w'.pool e.leaves
  tokens : performAll w.tokens e.ops = .ok w'.tokens
  trace : w'.trace = w.trace ++ e.ops
  supply : SupplyMoves env w w' e.supply
  unusedNonce : ∀ n, e.nonce = some n → w.pool.deposit n = false
  nonces : ∀ n, w'.pool.deposit n = true
    ↔ w.pool.deposit n = true ∨ e.nonce = some n
  frame : w'.pool = { w.pool with
    treeLeaves := w'.pool.treeLeaves
    treeRoot := w'.pool.treeRoot
    leafCount := w'.pool.leafCount
    knownRoot := w'.pool.knownRoot
    deposit := w'.pool.deposit
    noteSupply := w'.pool.noteSupply }

-- ============================================================== checks

/-- Where a call's `poolId` and `chainId` signals are. -/
def Call.domainAt : Call → ℕ × ℕ
  | receiveCctpDeposit _ => (12, 13)
  | withdraw _ | withdrawCctp _ | rfqSettle _ | rfqSettleAtomicSwap _ =>
      (8, 9)
  | privateTransferSettle _ => (5, 6)
  | mpcSettle _ | mpcSettlePriced _ => (7, 8)
  | registerAsset _ _ | admin _ => (0, 0)

/-- Where a spend's `stateRoot` signal is. -/
def Call.rootAt : Call → Option ℕ
  | withdraw _ | withdrawCctp _ | rfqSettle _ | rfqSettleAtomicSwap _ =>
      some 6
  | privateTransferSettle _ => some 3
  | mpcSettle _ | mpcSettlePriced _ => some 4
  | receiveCctpDeposit _ | registerAsset _ _ | admin _ => none

/-- The amounts a call had checked. -/
def Call.AmountsOk (env : Env) (p : Pool) (c : Call) : Prop :=
  match c with
  | .receiveCctpDeposit a =>
      c.signal 0 = a.commitment ∧ 0 < a.amount.toInt
        ∧ fr32ToI128 (c.signal 7) = a.amount.toInt
        ∧ 0 < fr32ToI128 (c.signal 6)
        ∧ a.amount.toInt ≤ fr32ToI128 (c.signal 6) * 10
  | .withdraw _ | .rfqSettle _ | .rfqSettleAtomicSwap _ =>
      0 < fr32ToI128 (c.signal 2) ∧ 0 ≤ fr32ToI128 (c.signal 4)
        ∧ fr32ToI128 (c.signal 4) ≤ fr32ToI128 (c.signal 2)
  | .withdrawCctp _ =>
      0 < fr32ToI128 (c.signal 2)
        ∧ recipientHash env p.usdc = .ok (c.signal 17)
        ∧ p.messenger.isSome
  | .mpcSettle a | .mpcSettlePriced a =>
      c.signal 0 = a.nullifierA ∧ c.signal 1 = a.nullifierB
        ∧ c.signal 2 = a.outputCommitmentA
        ∧ c.signal 3 = a.outputCommitmentB
  | .privateTransferSettle _ | .registerAsset _ _ | .admin _ => True

/-- The terms a call had checked: its operation code, and whatever a
solver or the committee signed. An RFQ settlement had its quote compared
with the proof's, a swap also its price rule, and both of its tokens
resolved. -/
def Call.TermsOk (env : Env) (p : Pool) (c : Call) : Prop :=
  match c with
  | .withdraw _ => fr32ToI128 (c.signal 1) = opWithdrawPublic
  | .withdrawCctp _ => fr32ToI128 (c.signal 1) = opWithdrawCctp
  | .rfqSettle a =>
      fr32ToI128 (c.signal 1) = opRfqSettlement
        ∧ env.ed25519Verify a.solverPubkey a.quoteHash.toBytes a.solverSig
          = true
        ∧ hashToField a.quoteHash = c.signal 10
  | .rfqSettleAtomicSwap a =>
      fr32ToI128 (c.signal 1) = opRfqAtomicSwap
        ∧ (∃ recipientH, recipientHash env a.userXlmRecipient
            = .ok recipientH
          ∧ env.ed25519Verify a.solverPubkey
            (swapHash env a recipientH).toBytes a.solverSig = true)
        ∧ a.quotedOutput.toInt
          = (fr32ToI128 (c.signal 2) * a.priceScaled.toInt).tdiv priceScale
        ∧ hashToField a.quoteHash = c.signal 10
        ∧ (∃ token, p.assetToken a.outputAssetId = some token)
        ∧ ∃ token, p.assetToken (c.signal 17) = some token
  | .mpcSettle a | .mpcSettlePriced a =>
      verifyCommitteeThreshold env p a.batchHash a.signerPubkeys
        a.signatures = .ok ()
  | .receiveCctpDeposit _ | .privateTransferSettle _ | .registerAsset _ _
  | .admin _ => True

/-- What every settlement had checked: its signals decode, they name
this pool and chain in their low halves, a spend's root is known, and
its amounts and terms are in order. -/
structure Call.Admitted (env : Env) (p : Pool) (c : Call) : Prop where
  decoded : ∃ bytes, c.signalBytes = some bytes
    ∧ parsePublicSignals bytes = .ok c.signals
  present : c.domainAt.2 < c.signals.length
  poolId : fr32ToI128 (c.signal c.domainAt.1) = p.poolId.toNat
  chainId : fr32ToI128 (c.signal c.domainAt.2) = p.chainId.toNat
  root : ∀ i, c.rootAt = some i → p.knownRoot (c.signal i) = true
  amounts : c.AmountsOk env p
  terms : c.TermsOk env p

/-- A call that settles: everything but configuration. -/
def Call.Settles : Call → Prop
  | registerAsset _ _ | admin _ => False
  | _ => True

/-- The calls that pay a note out. -/
def Call.Exits : Call → Prop
  | withdraw _ | withdrawCctp _ | rfqSettle _ | rfqSettleAtomicSwap _ =>
      True
  | _ => False

theorem Call.Exits.settles {c : Call} (hc : c.Exits) : c.Settles := by
  cases c <;> first
    | exact trivial
    | exact hc.elim

/-- The event a settlement publishes, with the data the leaves of the
tree are known by. -/
def Call.Publishes (p : Pool) : Call → PoolEvent → Prop
  | .receiveCctpDeposit a, e => ∃ domain nonce asset amount payload policy
      root, e = .deposit domain nonce asset amount a.commitment payload policy
        p.leafCount root
  | .withdraw _, e => ∃ dst n net fee, e = .withdraw dst n net fee
  | .withdrawCctp _, e => ∃ domain dst n recipient amount,
      e = .cctpout domain dst n recipient amount
  | .rfqSettle _, e => ∃ quote dst n credit, e = .rfq quote dst n credit
  | .rfqSettleAtomicSwap _, e => ∃ quote user solver n output credit,
      e = .rfqswap quote user solver n output credit
  | c@(.privateTransferSettle _), e => ∃ n i root,
      e = .xfer n (c.signal 1) i root
  | .mpcSettle a, e => ∃ batch nA nB root,
      e = .mpc batch nA nB a.outputCommitmentA a.outputCommitmentB root
  | .mpcSettlePriced a, e => ∃ batch nA nB root,
      e = .mpcprice batch nA nB a.outputCommitmentA a.outputCommitmentB root
  | .registerAsset .., _ | .admin _, _ => False

/-- An accepted settlement: it was admitted, applied its effect, and
published one event. -/
structure Call.Settled (c : Call) (env : Env) (ctx : Ctx) (w w' : World L) :
    Prop where
  admitted : c.Admitted env w.pool
  applies : Applies env w (c.effect env ctx w.pool) w'
  published : ∃ e, w'.events = w.events ++ [e] ∧ c.Publishes w.pool e

-- ============================================================= helpers

theorem Call.signals_eq {c : Call} {bytes : Bytes} {signals : List Word}
    (hb : c.signalBytes = some bytes)
    (hp : parsePublicSignals bytes = .ok signals) : c.signals = signals := by
  unfold Call.signals
  rw [hb]
  simp only [hp]

omit [TokenHost L] in
theorem spendNullifier_ok {env : Env} {ctx : Ctx} {w w' : World L}
    {n : Word} (h : spendNullifier env ctx w n = .ok w') :
    w.registry.spent n = false ∧ w' = { w with registry :=
      { w.registry with spent := Function.update w.registry.spent n true } } := by
  simp only [spendNullifier, bind_eq_ok, pure_eq_ok] at h
  obtain ⟨reg, hreg, rfl⟩ := h
  obtain ⟨hfresh, rfl⟩ := NullifierRegistry.spend_ok hreg
  exact ⟨hfresh, rfl⟩

theorem invoke_ok {w w' : World L} {op : TokenOp}
    (h : w.invoke op = .ok w') :
    ∃ l, op.perform w.tokens = .ok l
      ∧ w' = { w with tokens := l, trace := w.trace ++ [op] } := by
  simp only [World.invoke, bind_eq_ok, pure_eq_ok] at h
  obtain ⟨l, hl, rfl⟩ := h
  exact ⟨l, hl, rfl⟩

/-- Two invocations in sequence. -/
theorem performAll_cons {l l' : L} {op : TokenOp} {ops : List TokenOp} :
    performAll l (op :: ops) = .ok l'
      ↔ ∃ l₁, op.perform l = .ok l₁ ∧ performAll l₁ ops = .ok l' := by
  simp only [performAll, bind_eq_ok]

@[simp]
theorem performAll_nil (l : L) : performAll l [] = .ok l := rfl

theorem adjustNoteSupply_ok {env : Env} {w w' : World L} {asset : Word}
    {delta : ℤ} (h : adjustNoteSupply env w asset delta = .ok w') :
    (∃ token, w.pool.assetToken asset = some token
        ∧ w.pool.noteSupply asset + delta
          ≤ TokenHost.balance w.tokens token env.self)
      ∧ 0 ≤ w.pool.noteSupply asset + delta
      ∧ w' = { w with pool := { w.pool with
          noteSupply := Function.update w.pool.noteSupply asset
            (w.pool.noteSupply asset + delta) } } := by
  simp only [adjustNoteSupply, Pool.getAssetToken, bind_eq_ok,
    orPanic_eq_ok, i128_eq_ok, panicIf_eq_ok, pure_eq_ok] at h
  obtain ⟨token, htoken, _, ⟨-, rfl⟩, _, hneg, _, hbal, rfl⟩ := h
  exact ⟨⟨token, htoken, by omega⟩, by omega, rfl⟩

/-- `append_leaf` records the root of the plain tree over the longer
leaf list. -/
theorem appendLeaf_ok {env : Env} {p p' : Pool} {c root : Word}
    (h : p.appendLeaf env c = .ok (root, p')) :
    root = Word.ofFr (LeanIMT.plainRoot env.poseidon p.treeDepth.toNat
        (p.treeLeaves ++ [c]))
      ∧ (p.treeLeaves ++ [c]).length
        ≤ LeanIMT.capacityOf p.treeDepth.toNat
      ∧ p' = { p with
          treeLeaves := p.treeLeaves ++ [c]
          treeRoot := root
          knownRoot := Function.update p.knownRoot root true } := by
  simp only [Pool.appendLeaf, bind_eq_ok, orPanic_eq_ok, pure_eq_ok,
    Prod.mk.injEq] at h
  obtain ⟨t₁, h₁, t₂, h₂, rfl, rfl⟩ := h
  have hall : (LeanIMT.new env.poseidon p.treeDepth.toNat).insertAll
      env.poseidon (p.treeLeaves ++ [c]) = some t₂ := by
    rw [LeanIMT.insertAll_append, h₁]
    simp only [Option.bind_some, LeanIMT.insertAll, h₂]
  exact ⟨LeanIMT.root_of_insertAll_new env.poseidon hall,
    LeanIMT.room_of_insertAll_new env.poseidon hall, rfl⟩

/-- A root is known after an append if it was before, or is the appended
one. -/
theorem knownRoot_update {known : Word → Bool} {root x : Word} :
    Function.update known root true x = true
      ↔ known x = true ∨ x = root := by
  by_cases hr : x = root
  · rw [hr, Function.update_self]
    simp
  · rw [Function.update_of_ne hr]
    simp [hr]

/-- Nothing appended, nothing moved. -/
theorem Grows.none {env : Env} {p p' : Pool}
    (hcount : p'.leafCount = p.leafCount)
    (hknown : p'.knownRoot = p.knownRoot)
    (hstored : p'.treeRoot = p.treeRoot) : Grows env p p' [] where
  stored := hstored
  count := hcount
  room h := absurd rfl h
  known x := by
    rw [hknown]
    refine ⟨Or.inl, ?_⟩
    rintro (hx | ⟨k, hlt, hle, -⟩)
    · exact hx
    · rw [List.length_nil] at hle
      omega

/-- One append, with the counter raised before it. -/
theorem Grows.single {env : Env} {p p₁ p' : Pool} {c root : Word}
    (h : ({ p with leafCount := p.leafCount + 1 }).appendLeaf env c
      = .ok (root, p₁))
    (hcount : p'.leafCount = p₁.leafCount)
    (hknown : p'.knownRoot = p₁.knownRoot)
    (hstored : p'.treeRoot = p₁.treeRoot) : Grows env p p' [c] := by
  obtain ⟨hroot, hroom, rfl⟩ := appendLeaf_ok h
  refine ⟨hcount, fun _ => hroom, ?_, hstored.trans hroot⟩
  intro x
  rw [hknown]
  refine knownRoot_update.trans (or_congr_right ?_)
  rw [hroot]
  constructor
  · rintro rfl
    refine ⟨p.treeLeaves.length + 1, by omega, le_rfl, ?_⟩
    rw [List.take_of_length_le (by simp)]
  · rintro ⟨k, hlt, hle, rfl⟩
    rw [List.length_singleton] at hle
    rw [List.take_of_length_le (by simp; omega)]

/-- Two appends in order; the root between them is recorded too. -/
theorem Grows.pair {env : Env} {p p₁ p₂ : Pool} {a b rootA rootB : Word}
    (hA : ({ p with leafCount := p.leafCount + 2 }).appendLeaf env a
      = .ok (rootA, p₁))
    (hB : p₁.appendLeaf env b = .ok (rootB, p₂)) :
    Grows env p p₂ [a, b] := by
  obtain ⟨hrootA, -, rfl⟩ := appendLeaf_ok hA
  obtain ⟨hrootB, hroom, rfl⟩ := appendLeaf_ok hB
  have happ : p.treeLeaves ++ [a] ++ [b] = p.treeLeaves ++ [a, b] :=
    List.append_assoc _ [a] [b]
  refine ⟨rfl, fun _ => happ ▸ hroom, ?_, hrootB.trans (by rw [happ]; rfl)⟩
  intro x
  refine knownRoot_update.trans ?_
  rw [show (Function.update p.knownRoot rootA true x = true)
    = (p.knownRoot x = true ∨ x = rootA) from propext knownRoot_update,
    or_assoc]
  refine or_congr_right ?_
  rw [hrootA, hrootB]
  have hfirst : (p.treeLeaves ++ [a, b]).take (p.treeLeaves.length + 1)
      = p.treeLeaves ++ [a] := by
    rw [← happ, List.take_append_of_le_length (by simp),
      List.take_of_length_le (by simp)]
  constructor
  · rintro (rfl | rfl)
    · exact ⟨p.treeLeaves.length + 1, by omega, by simp, by rw [hfirst]⟩
    · refine ⟨p.treeLeaves.length + 2, by omega, by simp, ?_⟩
      rw [List.take_of_length_le (by simp), ← happ]
  · rintro ⟨k, hlt, hle, rfl⟩
    rcases (show k = p.treeLeaves.length + 1
      ∨ k = p.treeLeaves.length + 2 by simp at hle; omega) with rfl | rfl
    · exact Or.inl (by rw [hfirst])
    · right
      rw [List.take_of_length_le (by simp), ← happ]

/-- A root known after is known before, or the root over some of the
leaves. -/
theorem Grows.roots {env : Env} {p p' : Pool} {ls : List Word}
    (h : Grows env p p' ls) (hleaves : p'.treeLeaves = p.treeLeaves ++ ls)
    {x : Word} (hx : p'.knownRoot x = true) :
    p.knownRoot x = true ∨ ∃ k, 0 < k ∧ k ≤ p'.treeLeaves.length
      ∧ x = Word.ofFr (LeanIMT.plainRoot env.poseidon p.treeDepth.toNat
        (p'.treeLeaves.take k)) := by
  rcases (h.known x).mp hx with hold | ⟨k, hlt, hle, hroot⟩
  · exact Or.inl hold
  · right
    rw [hleaves, List.length_append]
    exact ⟨k, by omega, hle, hroot⟩

theorem checkDomainCompliance_ok {p : Pool} {signals : List Word} {u : Unit}
    (h : p.checkDomainCompliance signals = .ok u) :
    9 < signals.length ∧ fr32ToI128 (sigAt signals 8) = p.poolId.toNat
      ∧ fr32ToI128 (sigAt signals 9) = p.chainId.toNat := by
  simp only [Pool.checkDomainCompliance, bind_eq_ok, sig_eq_ok,
    panicIf_eq_ok, not_or, not_not] at h
  obtain ⟨_, _, poolIn, ⟨-, rfl⟩, chainIn, ⟨hlen, rfl⟩, _, hdom, -⟩ := h
  exact ⟨hlen, hdom⟩

theorem requireKnownRoot_ok {p : Pool} {root : Word} {u : Unit}
    (h : p.requireKnownRoot root = .ok u) : p.knownRoot root = true := by
  simp only [Pool.requireKnownRoot, panicIf_eq_ok] at h
  simpa using h

-- ======================================================= applied effects

omit [TokenHost L] in
/-- The registry after one spend. -/
theorem spent_update {reg : NullifierRegistry} {n : Word} (m : Word) :
    Function.update reg.spent n true m = true
      ↔ reg.spent m = true ∨ m = n := by
  by_cases hm : m = n
  · subst hm
    simp
  · rw [Function.update_of_ne hm]
    simp [hm]

/-- A public spend: one nullifier, token invocations, a supply move, and
no other change to the pool. -/
theorem Applies.ofSpend {env : Env} {w w' : World L} {n : Word}
    {ops : List TokenOp} {supply : Option (Word × ℤ)}
    (hfresh : w.registry.spent n = false)
    (hreg : w'.registry = { w.registry with
      spent := Function.update w.registry.spent n true })
    (htokens : performAll w.tokens ops = .ok w'.tokens)
    (htrace : w'.trace = w.trace ++ ops)
    (hsupply : SupplyMoves env w w' supply)
    (hpool : w'.pool = { w.pool with noteSupply := w'.pool.noteSupply }) :
    Applies env w ⟨[n], [], ops, supply, none⟩ w' where
  fresh m hm := by rw [List.mem_singleton.mp hm]; exact hfresh
  nodup := List.nodup_singleton n
  spent m := by rw [hreg, spent_update, List.mem_singleton]
  registryFrame := by rw [hreg]
  leaves := by rw [hpool, List.append_nil]
  roots x hx := Or.inl (by rw [hpool] at hx; exact hx)
  tree := Grows.none (by rw [hpool]) (by rw [hpool]) (by rw [hpool])
  tokens := htokens
  trace := htrace
  supply := hsupply
  unusedNonce m hm := by cases hm
  nonces m := by rw [hpool]; simp
  frame := by rw [hpool]

theorem withdraw_ok {env : Env} {ctx : Ctx} {a : WithdrawArgs}
    {w w' : World L} (h : withdraw env ctx a w = .ok w') :
    (Call.withdraw a).Settled env ctx w w' := by
  simp only [withdraw, bind_eq_ok, panicIf_eq_ok, pure_eq_ok, sig_eq_ok,
    exists_and_left, exists_eq_left', exists_const, and_assoc, not_not,
    not_or, Pool.getAssetToken, orPanic_eq_ok] at h
  obtain ⟨_, -, _, -, signals, hparse, -, -, -, -, -, -, -, -, hop, hv,
    hf, hle, -, _, -, -, _, hdom, _, hroot, _, -, w₁, hspend, token, htoken,
    -, w₂, hinv, w₃, hadj, rfl⟩ := h
  obtain rfl := Call.signals_eq (c := .withdraw a) rfl hparse
  obtain ⟨hfresh, rfl⟩ := spendNullifier_ok hspend
  obtain ⟨l, hl, rfl⟩ := invoke_ok hinv
  obtain ⟨hreserve, hnonneg, rfl⟩ := adjustNoteSupply_ok hadj
  obtain ⟨hlen, hpool, hchain⟩ := checkDomainCompliance_ok hdom
  refine ⟨⟨⟨_, rfl, hparse⟩, hlen, hpool, hchain, ?_, ?_, hop⟩, ?_,
    _, rfl, _, _, _, _, rfl⟩
  · rintro i ⟨rfl⟩
    exact requireKnownRoot_ok hroot
  · exact ⟨not_le.mp hv, not_lt.mp hf, not_lt.mp hle⟩
  · have htoken' : w.pool.assetToken ((Call.withdraw a).signal 17)
        = some token := htoken
    simp only [Call.effect, htoken', payout_some]
    exact Applies.ofSpend hfresh rfl (performAll_cons.mpr ⟨l, hl, rfl⟩)
      rfl ⟨hreserve, hnonneg, rfl⟩ rfl

theorem withdrawCctp_ok {env : Env} {ctx : Ctx} {a : WithdrawCctpArgs}
    {w w' : World L} {burned : ℤ}
    (h : withdrawCctp env ctx a w = .ok (burned, w')) :
    (Call.withdrawCctp a).Settled env ctx w w' := by
  simp only [withdrawCctp, bind_eq_ok, panicIf_eq_ok, pure_eq_ok,
    sig_eq_ok, exists_and_left, exists_eq_left', exists_const, and_assoc,
    not_not, orPanic_eq_ok, i128_eq_ok, u32_eq_ok, Prod.mk.injEq] at h
  obtain ⟨_, -, _, -, signals, hparse, -, -, -, -, -, -, hv, hop, id, hid,
    rfl, -, -, -, -, -, -, -, -, -, -, _, hdom, _, hroot, _, -, w₁, hspend,
    tmm, htmm, -, -, w₂, happrove, w₃, hburn, w₄, hadj, -, rfl⟩ := h
  obtain rfl := Call.signals_eq (c := .withdrawCctp a) rfl hparse
  obtain ⟨hfresh, rfl⟩ := spendNullifier_ok hspend
  obtain ⟨l₁, hl₁, rfl⟩ := invoke_ok happrove
  obtain ⟨l₂, hl₂, rfl⟩ := invoke_ok hburn
  obtain ⟨hreserve, hnonneg, rfl⟩ := adjustNoteSupply_ok hadj
  obtain ⟨hlen, hpool, hchain⟩ := checkDomainCompliance_ok hdom
  have htmm' : w.pool.messenger = some tmm := htmm
  refine ⟨⟨⟨_, rfl, hparse⟩, hlen, hpool, hchain, ?_, ?_, hop⟩, ?_,
    _, rfl, _, _, _, _, _, rfl⟩
  · rintro i ⟨rfl⟩
    exact requireKnownRoot_ok hroot
  · exact ⟨not_le.mp hv, hid, by rw [htmm']; rfl⟩
  · have hops := burnOut_eq env ctx a
      (fr32ToI128 ((Call.withdrawCctp a).signal 2)) htmm'
    simp only [Call.effect, hops]
    refine Applies.ofSpend hfresh rfl ?_ ?_ ⟨hreserve, hnonneg, rfl⟩ rfl
    · exact performAll_cons.mpr
        ⟨l₁, hl₁, performAll_cons.mpr ⟨l₂, hl₂, rfl⟩⟩
    · exact List.append_assoc _ [_] [_]

theorem rfqSettle_ok {env : Env} {ctx : Ctx} {a : RfqSettleArgs}
    {w w' : World L} (h : rfqSettle env ctx a w = .ok w') :
    (Call.rfqSettle a).Settled env ctx w w' := by
  simp only [rfqSettle, bind_eq_ok, panicIf_eq_ok, pure_eq_ok, sig_eq_ok,
    exists_and_left, exists_eq_left', exists_const, and_assoc, not_not,
    not_or] at h
  obtain ⟨_, -, -, hsig, signals, hparse, -, -, -, -, -, -, hv, hf, hle, hop,
    -, -, hquote, -, -, -, -, _, hdom, _, hroot, _, -, w₁, hspend, -, w₂,
    hinv, rfl⟩ := h
  obtain rfl := Call.signals_eq (c := .rfqSettle a) rfl hparse
  obtain ⟨hfresh, rfl⟩ := spendNullifier_ok hspend
  obtain ⟨l, hl, rfl⟩ := invoke_ok hinv
  obtain ⟨hlen, hpool, hchain⟩ := checkDomainCompliance_ok hdom
  refine ⟨⟨⟨_, rfl, hparse⟩, hlen, hpool, hchain, ?_, ?_, ?_⟩, ?_,
    _, rfl, _, _, _, _, rfl⟩
  · rintro i ⟨rfl⟩
    exact requireKnownRoot_ok hroot
  · exact ⟨not_le.mp hv, not_lt.mp hf, not_lt.mp hle⟩
  · exact ⟨hop, by simpa using hsig, hquote⟩
  · exact Applies.ofSpend hfresh rfl (performAll_cons.mpr ⟨l, hl, rfl⟩)
      rfl rfl rfl

theorem rfqSettleAtomicSwap_ok {env : Env} {ctx : Ctx}
    {a : AtomicSwapArgs} {w w' : World L}
    (h : rfqSettleAtomicSwap env ctx a w = .ok w') :
    (Call.rfqSettleAtomicSwap a).Settled env ctx w w' := by
  simp only [rfqSettleAtomicSwap, bind_eq_ok, panicIf_eq_ok, pure_eq_ok,
    sig_eq_ok, exists_and_left, exists_eq_left', exists_const, and_assoc,
    not_not, not_or, Pool.getAssetToken, orPanic_eq_ok] at h
  obtain ⟨_, -, -, -, -, -, -, recipientH, hrec, hsig, signals, hparse, -,
    -, -, -, -, -, -, hop, hv, hf, hle, -, -, hprice, -, -, hquote, -, -, -,
    -, _, hdom, _, hroot, _,
    -, w₁, hspend, outToken, hout, -, w₂, hpay, inToken, hin, -, w₃,
    hcredit, w₄, hadj, rfl⟩ := h
  obtain rfl := Call.signals_eq (c := .rfqSettleAtomicSwap a) rfl hparse
  obtain ⟨hfresh, rfl⟩ := spendNullifier_ok hspend
  obtain ⟨l₁, hl₁, rfl⟩ := invoke_ok hpay
  obtain ⟨l₂, hl₂, rfl⟩ := invoke_ok hcredit
  obtain ⟨hreserve, hnonneg, rfl⟩ := adjustNoteSupply_ok hadj
  obtain ⟨hlen, hpool, hchain⟩ := checkDomainCompliance_ok hdom
  refine ⟨⟨⟨_, rfl, hparse⟩, hlen, hpool, hchain, ?_, ?_, ?_⟩, ?_,
    _, rfl, _, _, _, _, _, _, rfl⟩
  · rintro i ⟨rfl⟩
    exact requireKnownRoot_ok hroot
  · exact ⟨not_le.mp hv, not_lt.mp hf, not_lt.mp hle⟩
  · exact ⟨hop, ⟨recipientH, hrec, by simpa using hsig⟩, hprice, hquote,
      ⟨outToken, hout⟩, inToken, hin⟩
  · have hout' : w.pool.assetToken a.outputAssetId = some outToken := hout
    have hin' : w.pool.assetToken
        ((Call.rfqSettleAtomicSwap a).signal 17) = some inToken := hin
    simp only [Call.effect, hout', hin', payout_some, List.cons_append,
      List.nil_append]
    refine Applies.ofSpend hfresh rfl ?_ ?_ ⟨hreserve, hnonneg, rfl⟩ rfl
    · exact performAll_cons.mpr
        ⟨l₁, hl₁, performAll_cons.mpr ⟨l₂, hl₂, rfl⟩⟩
    · exact List.append_assoc _ [_] [_]

theorem receiveCctpDeposit_ok {env : Env} {ctx : Ctx} {a : DepositArgs}
    {w w' : World L} {i : ℕ}
    (h : receiveCctpDeposit env ctx a w = .ok (i, w')) :
    (Call.receiveCctpDeposit a).Settled env ctx w w' := by
  simp only [receiveCctpDeposit, bind_eq_ok, panicIf_eq_ok, pure_eq_ok,
    sig_eq_ok, exists_and_left, exists_eq_left', exists_const, and_assoc,
    not_not, orPanic_eq_ok, i128_eq_ok, u32_eq_ok, Prod.mk.injEq,
    Prod.exists] at h
  obtain ⟨_, -, _, -, hpos, hnonce, signals, hparse, -, h0, -, -, -, -, -,
    h7, -, -, -, -, -, h6, -, h10, -, -, -, -, -, -, _, -, -, -, _, -, -, -,
    -, hpool, hlen, hchain, _, -, _, -, -, root, p, happ, -, -, w₁, hadj, -,
    rfl⟩ := h
  obtain rfl := Call.signals_eq (c := .receiveCctpDeposit a) rfl hparse
  have htree := happ
  obtain ⟨-, -, rfl⟩ := appendLeaf_ok happ
  obtain ⟨hreserve, hnonneg, rfl⟩ := adjustNoteSupply_ok hadj
  refine ⟨⟨⟨_, rfl, hparse⟩, hlen, hpool, hchain, ?_, ?_, trivial⟩, ?_,
    _, rfl, _, _, _, _, _, _, _, rfl⟩
  · intro i hi
    cases hi
  · exact ⟨h0, not_le.mp hpos, h7, not_le.mp h6, not_lt.mp h10⟩
  · refine {
      fresh := by simp [Call.effect]
      nodup := List.nodup_nil
      spent := by simp [Call.effect, World.emit]
      registryFrame := rfl
      leaves := rfl
      roots := fun x hx => (Grows.single htree rfl rfl rfl).roots rfl hx
      tree := Grows.single htree rfl rfl rfl
      tokens := rfl
      trace := (List.append_nil _).symm
      supply := ⟨hreserve, hnonneg, rfl⟩
      unusedNonce := ?_
      nonces := ?_
      frame := rfl }
    · rintro n ⟨rfl⟩
      simpa using hnonce
    · intro n
      show Function.update w.pool.deposit a.cctpNonce true n = true ↔ _
      by_cases hn : n = a.cctpNonce
      · simp [hn, Call.effect]
      · rw [Function.update_of_ne hn]
        simp [Call.effect, Ne.symm hn]

theorem privateTransferSettle_ok {env : Env} {ctx : Ctx}
    {a : TransferArgs} {w w' : World L}
    (h : privateTransferSettle env ctx a w = .ok w') :
    (Call.privateTransferSettle a).Settled env ctx w w' := by
  simp only [privateTransferSettle, bind_eq_ok, panicIf_eq_ok, pure_eq_ok,
    sig_eq_ok, exists_and_left, exists_eq_left', exists_const, and_assoc,
    not_not, not_or, orPanic_eq_ok, u32_eq_ok, Prod.exists] at h
  obtain ⟨_, -, _, -, signals, hparse, -, -, -, -, -, -, hlen, hpool, hchain,
    _, hroot, _, -, _, -, w₁, hspend, -, root, p, happ, -, rfl⟩ := h
  obtain rfl := Call.signals_eq (c := .privateTransferSettle a) rfl hparse
  obtain ⟨hfresh, rfl⟩ := spendNullifier_ok hspend
  have htree := happ
  obtain ⟨-, -, rfl⟩ := appendLeaf_ok happ
  refine ⟨⟨⟨_, rfl, hparse⟩, hlen, hpool, hchain, ?_, trivial,
    trivial⟩, ?_, _, rfl, _, _, _, rfl⟩
  · rintro i ⟨rfl⟩
    exact requireKnownRoot_ok hroot
  · refine {
      fresh := ?_
      nodup := List.nodup_singleton _
      spent := ?_
      registryFrame := rfl
      leaves := rfl
      roots := fun x hx => (Grows.single htree rfl rfl rfl).roots rfl hx
      tree := Grows.single htree rfl rfl rfl
      tokens := rfl
      trace := (List.append_nil _).symm
      supply := rfl
      unusedNonce := by simp [Call.effect]
      nonces := by simp [Call.effect, World.emit]
      frame := rfl }
    · intro n hn
      rw [List.mem_singleton.mp hn]
      exact hfresh
    · intro n
      exact (spent_update n).trans (or_congr_right List.mem_singleton.symm)

-- ================================================ committee settlements

/-- Both committee settlements end alike: two nullifiers spent in order,
two outputs appended in order. -/
theorem Applies.ofOutputs {env : Env} {ctx : Ctx} {a : MpcArgs}
    {w w₁ w₂ : World L} {root : Word} {p : Pool} {e : PoolEvent}
    (hA : spendNullifier env ctx w a.nullifierA = .ok w₁)
    (hB : spendNullifier env ctx w₁ a.nullifierB = .ok w₂)
    (happ : appendOutputs env a w₂.pool = .ok (root, p)) :
    Applies env w ⟨[a.nullifierA, a.nullifierB],
      [a.outputCommitmentA, a.outputCommitmentB], [], none, none⟩
      ({ w₂ with pool := p }.emit e) := by
  obtain ⟨hfreshA, rfl⟩ := spendNullifier_ok hA
  obtain ⟨hfreshB, rfl⟩ := spendNullifier_ok hB
  simp only [appendOutputs, bind_eq_ok, u32_eq_ok, panicIf_eq_ok,
    pure_eq_ok, Prod.exists, Prod.mk.injEq] at happ
  obtain ⟨_, ⟨-, rfl⟩, rootA, pA, happA, rootB, pB, happB, _, -, rfl,
    rfl⟩ := happ
  have htree := Grows.pair happA happB
  obtain ⟨-, -, rfl⟩ := appendLeaf_ok happA
  obtain ⟨-, -, rfl⟩ := appendLeaf_ok happB
  -- the second spend saw the first, so the two words differ
  have hupdate : Function.update w.registry.spent a.nullifierA true
      a.nullifierB = false := hfreshB
  have hne : a.nullifierB ≠ a.nullifierA := by
    intro heq
    rw [heq, Function.update_self] at hupdate
    cases hupdate
  have hfreshB' : w.registry.spent a.nullifierB = false := by
    rw [Function.update_of_ne hne] at hupdate
    exact hupdate
  refine {
    fresh := ?_
    nodup := by simp [hne.symm]
    spent := ?_
    registryFrame := rfl
    leaves := List.append_assoc _ [_] [_]
    roots := fun x hx => htree.roots (List.append_assoc _ [_] [_]) hx
    tree := ⟨htree.count, htree.room, htree.known, htree.stored⟩
    tokens := rfl
    trace := (List.append_nil _).symm
    supply := rfl
    unusedNonce := fun n hn => by cases hn
    nonces := by simp [World.emit]
    frame := rfl }
  · intro n hn
    rcases List.mem_pair.mp hn with rfl | rfl
    · exact hfreshA
    · exact hfreshB'
  · intro n
    refine (spent_update n).trans ?_
    rw [show (n = a.nullifierB) = (n ∈ [a.nullifierB]) by simp,
      show (Function.update w.registry.spent a.nullifierA true n = true)
        = (w.registry.spent n = true ∨ n = a.nullifierA)
        from propext (spent_update n)]
    simp [or_assoc]

omit [TokenHost L] in
theorem events_of_spends {env : Env} {ctx : Ctx} {w w₁ w₂ : World L}
    {nA nB : Word} {p : Pool} {e : PoolEvent}
    (hA : spendNullifier env ctx w nA = .ok w₁)
    (hB : spendNullifier env ctx w₁ nB = .ok w₂) :
    ({ w₂ with pool := p }.emit e).events = w.events ++ [e] := by
  obtain ⟨-, rfl⟩ := spendNullifier_ok hA
  obtain ⟨-, rfl⟩ := spendNullifier_ok hB
  rfl

theorem mpcSettle_ok {env : Env} {ctx : Ctx} {a : MpcArgs}
    {w w' : World L} (h : mpcSettle env ctx a w = .ok w') :
    (Call.mpcSettle a).Settled env ctx w w' := by
  simp only [mpcSettle, bind_eq_ok, panicIf_eq_ok, pure_eq_ok, sig_eq_ok,
    exists_and_left, exists_eq_left', exists_const, and_assoc, not_not,
    not_or, orPanic_eq_ok, Prod.exists] at h
  obtain ⟨_, -, _, hthr, _, -, pb, -, sb, hsb, _, -, signals, hparse, -, h0, -,
    h1, -, h2, -, h3, -, _, hroot, -, _, -, -, -, -, -, hlen, hpool, hchain, -,
    -, w₁, hA, w₂, hB, root, p, happ, rfl⟩ := h
  obtain rfl := Call.signals_eq (c := .mpcSettle a) hsb hparse
  refine ⟨⟨⟨_, hsb, hparse⟩, hlen, hpool, hchain, ?_, ⟨h0, h1, h2, h3⟩,
    hthr⟩, Applies.ofOutputs hA hB happ, _, events_of_spends hA hB,
    _, _, _, _, rfl⟩
  rintro i ⟨rfl⟩
  exact requireKnownRoot_ok hroot

theorem mpcSettlePriced_ok {env : Env} {ctx : Ctx} {a : MpcArgs}
    {w w' : World L} (h : mpcSettlePriced env ctx a w = .ok w') :
    (Call.mpcSettlePriced a).Settled env ctx w w' := by
  simp only [mpcSettlePriced, bind_eq_ok, panicIf_eq_ok, pure_eq_ok,
    sig_eq_ok, exists_and_left, exists_eq_left', exists_const, and_assoc,
    not_not, not_or, orPanic_eq_ok, Prod.exists] at h
  obtain ⟨_, -, _, hthr, _, -, pb, -, sb, hsb, _, -, signals, hparse, -, h0, -,
    h1, -, h2, -, h3, -, _, hroot, -, _, -, -, -, -, -, hpool, hlen, hchain, -,
    -, -, -, -, _, -, _, -, -, -, w₁, hA, w₂, hB, -, -, root, p, happ,
    rfl⟩ := h
  obtain rfl := Call.signals_eq (c := .mpcSettlePriced a) hsb hparse
  refine ⟨⟨⟨_, hsb, hparse⟩, hlen, hpool, hchain, ?_, ⟨h0, h1, h2, h3⟩,
    hthr⟩, Applies.ofOutputs hA hB happ, _, events_of_spends hA hB,
    _, _, _, _, rfl⟩
  rintro i ⟨rfl⟩
  exact requireKnownRoot_ok hroot

-- ========================================================== every call

theorem exec_settled {env : Env} {ctx : Ctx} {w w' : World L} {c : Call}
    (h : exec env ctx w c = .ok w') (hc : c.Settles) :
    c.Settled env ctx w w' := by
  cases c with
  | receiveCctpDeposit a =>
      simp only [exec, bind_eq_ok, pure_eq_ok, Prod.exists] at h
      obtain ⟨_, _, h, rfl⟩ := h
      exact receiveCctpDeposit_ok h
  | withdraw a => exact withdraw_ok h
  | withdrawCctp a =>
      simp only [exec, bind_eq_ok, pure_eq_ok, Prod.exists] at h
      obtain ⟨_, _, h, rfl⟩ := h
      exact withdrawCctp_ok h
  | rfqSettle a => exact rfqSettle_ok h
  | rfqSettleAtomicSwap a => exact rfqSettleAtomicSwap_ok h
  | privateTransferSettle a => exact privateTransferSettle_ok h
  | mpcSettle a => exact mpcSettle_ok h
  | mpcSettlePriced a => exact mpcSettlePriced_ok h
  | registerAsset assetId token => exact hc.elim
  | admin c => exact hc.elim

/-- The refinement: an accepted settlement was admitted and applied its
effect. -/
theorem exec_ok {env : Env} {ctx : Ctx} {w w' : World L} {c : Call}
    (h : exec env ctx w c = .ok w') (hc : c.Settles) :
    c.Admitted env w.pool ∧ Applies env w (c.effect env ctx w.pool) w' :=
  ⟨(exec_settled h hc).admitted, (exec_settled h hc).applies⟩

/-- An accepted configuration call registered a fresh asset, which
starts with no supply, or only wrote configuration. -/
theorem exec_config {env : Env} {ctx : Ctx} {w w' : World L} {c : Call}
    (h : exec env ctx w c = .ok w') (hc : ¬c.Settles) :
    (∃ asset token, c = .registerAsset asset token
      ∧ w.pool.assetToken asset = none
      ∧ w' = { w with
          pool := { w.pool with
            assetToken := Function.update w.pool.assetToken asset
              (some token)
            noteSupply := Function.update w.pool.noteSupply asset 0 }
          events := w.events ++ [.regasset asset token] })
    ∨ ∃ a : AdminCall, c = .admin a
      ∧ w' = { w with pool := a.write w.pool } := by
  cases c with
  | registerAsset asset token =>
      simp only [exec, registerAsset, bind_eq_ok, panicIf_eq_ok,
        pure_eq_ok] at h
      obtain ⟨_, -, _, hnew, rfl⟩ := h
      exact Or.inl ⟨asset, token, rfl, by simpa using hnew, rfl⟩
  | admin a =>
      simp only [exec, administer, bind_eq_ok, pure_eq_ok] at h
      obtain ⟨_, -, rfl⟩ := h
      exact Or.inr ⟨a, rfl, rfl⟩
  | receiveCctpDeposit a => exact absurd trivial hc
  | withdraw a => exact absurd trivial hc
  | withdrawCctp a => exact absurd trivial hc
  | rfqSettle a => exact absurd trivial hc
  | rfqSettleAtomicSwap a => exact absurd trivial hc
  | privateTransferSettle a => exact absurd trivial hc
  | mpcSettle a => exact absurd trivial hc
  | mpcSettlePriced a => exact absurd trivial hc

end Lumix
