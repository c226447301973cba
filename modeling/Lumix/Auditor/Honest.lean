/-
The auditor and the pool it audits.

An accepted call publishes one event, which tells of the commitments the
call inserts; only `deposit` events are read. `PublishedInv` ties the
events of a run to the leaves of the pool's tree. So an audit of an
honest pool passes exactly when every leaf came by a deposit and all
deposits are in the stretch of the log that is read (`Visible`,
`honest_audit`): a transfer, a committee settlement, or a deposit out of
reach makes it fail.
-/
import Lumix.Auditor.Events
import Lumix.Pool.Batches
import Lumix.Pool.Roots

namespace Lumix.Auditor

open Exec Run Text

variable {L : Type} [TokenHost L]

-- ====================================================== what a call tells

/-- The commitments an event tells of, in the order of their leaves. -/
def commitments : PoolEvent → List Word
  | .deposit _ _ _ _ commitment _ _ _ _ => [commitment]
  | .xfer _ outputCommitment _ _ => [outputCommitment]
  | .mpc _ _ _ outputCommitmentA outputCommitmentB _
  | .mpcprice _ _ _ outputCommitmentA outputCommitmentB _ =>
      [outputCommitmentA, outputCommitmentB]
  | .withdraw _ _ _ _ | .cctpout _ _ _ _ _ | .rfq _ _ _ _
  | .rfqswap _ _ _ _ _ _ | .regasset _ _ => []

/-- One event was published, which tells of the commitments `ls`; if it is
a deposit, its leaf is the next. -/
structure Tells (w w' : World L) (ls : List Word) (e : PoolEvent) :
    Prop where
  events : w'.events = w.events ++ [e]
  told : commitments e = ls
  index : ∀ l, deposited e = some l → l.leafIndex = w.pool.leafCount

section Calls

variable {env : Env} {ctx : Ctx} {w w' : World L}

/-- The event of a settlement tells of what the settlement inserts. -/
theorem publishes_tells {p : Pool} {c : Call} {e : PoolEvent}
    (h : c.Publishes p e) : commitments e = c.commitments
      ∧ ∀ l, deposited e = some l → l.leafIndex = p.leafCount := by
  cases c with
  | receiveCctpDeposit a =>
      obtain ⟨_, _, _, _, _, _, _, rfl⟩ := h
      refine ⟨rfl, fun l hl => ?_⟩
      cases hl
      rfl
  | withdraw a | rfqSettle a | mpcSettle a | mpcSettlePriced a =>
      obtain ⟨_, _, _, _, rfl⟩ := h
      exact ⟨rfl, fun _ hl => (by cases hl)⟩
  | withdrawCctp a =>
      obtain ⟨_, _, _, _, _, rfl⟩ := h
      exact ⟨rfl, fun _ hl => (by cases hl)⟩
  | rfqSettleAtomicSwap a =>
      obtain ⟨_, _, _, _, _, _, rfl⟩ := h
      exact ⟨rfl, fun _ hl => (by cases hl)⟩
  | privateTransferSettle a =>
      obtain ⟨_, _, _, rfl⟩ := h
      exact ⟨rfl, fun _ hl => (by cases hl)⟩
  | registerAsset assetId token => exact h.elim
  | admin c => exact h.elim

/-- An accepted settlement tells of what it inserts. -/
theorem exec_tells {c : Call} (h : exec env ctx w c = .ok w')
    (hc : c.Settles) : ∃ e, Tells w w' c.commitments e := by
  obtain ⟨e, hevents, hpublishes⟩ := (exec_settled h hc).published
  obtain ⟨htold, hindex⟩ := publishes_tells hpublishes
  exact ⟨e, hevents, htold, hindex⟩

/-- An accepted event publishes nothing and inserts nothing, or publishes
one event, which tells of what it inserts. -/
theorem step_tells {e : Event L} (h : step env w e = .ok w') :
    (w'.events = w.events ∧ e.commitments = [])
      ∨ ∃ x, Tells w w' e.commitments x := by
  cases e with
  | pool ctx c x =>
      by_cases hc : c.Settles
      · exact .inr (exec_tells h hc)
      · rcases exec_config h hc with ⟨asset, token, rfl, -, rfl⟩ | ⟨a, rfl, rfl⟩
        · exact .inr ⟨_, ⟨rfl, rfl, fun _ hl => (by cases hl)⟩⟩
        · exact .inl ⟨rfl, rfl⟩
  | registry ctx c =>
      simp only [step, bind_eq_ok, pure_eq_ok] at h
      obtain ⟨reg, -, rfl⟩ := h
      exact .inl ⟨rfl, rfl⟩
  | tokens drawer ledger =>
      cases h
      exact .inl ⟨rfl, rfl⟩

end Calls

-- ============================================================== over a run

/-- A deposit tells of its leaf. -/
theorem commitments_of_deposited {e : PoolEvent} {l : DepositLeaf}
    (h : deposited e = some l) :
    ∃ c, commitments e = [c] ∧ l.commitmentDecimal = wordDecimal c := by
  cases e with
  | deposit sourceDomain cctpNonce asset amount commitment payload policyId
      leafIndex root =>
      cases h
      exact ⟨commitment, rfl, rfl⟩
  | withdraw | cctpout | rfq | rfqswap | xfer | mpc | mpcprice | regasset =>
      cases h

/-- The events tell of the leaves of the tree, and the deposits carry
ascending indices of these. -/
structure PublishedInv (w : World L) : Prop where
  leaves : w.events.flatMap commitments = w.pool.treeLeaves
  ascend : (deposits w.events).Pairwise fun a b => a.leafIndex < b.leafIndex
  below : ∀ l ∈ deposits w.events, l.leafIndex < w.pool.treeLeaves.length

theorem PublishedInv.step {env : Env} {w w' : World L} {e : Event L}
    (hinv : PublishedInv w) (hcount : w.pool.leafCount = w.pool.treeLeaves.length)
    (h : Lumix.step env w e = .ok w') : PublishedInv w' := by
  obtain ⟨hleaves, -⟩ := step_tree h
  rcases step_tells h with ⟨hevents, hnone⟩ | ⟨x, htells⟩
  · rw [hnone, List.append_nil] at hleaves
    refine ⟨?_, ?_, ?_⟩
    · rw [hevents, hinv.leaves, hleaves]
    · rw [hevents]
      exact hinv.ascend
    · rw [hevents, hleaves]
      exact hinv.below
  · have hdeposits : deposits w'.events = deposits w.events ++ deposits [x] := by
      rw [htells.events, deposits_append]
    have hnew : ∀ l ∈ deposits [x], l.leafIndex = w.pool.treeLeaves.length
        ∧ e.commitments ≠ [] := by
      intro l hl
      obtain ⟨y, hy, hyl⟩ := List.mem_filterMap.mp hl
      rw [List.mem_singleton.mp hy] at hyl
      obtain ⟨c, hc, -⟩ := commitments_of_deposited hyl
      refine ⟨(htells.index l hyl).trans hcount, ?_⟩
      rw [← htells.told, hc]
      exact List.cons_ne_nil _ _
    refine ⟨?_, ?_, ?_⟩
    · rw [htells.events, List.flatMap_append, hinv.leaves, hleaves,
        List.flatMap_singleton, htells.told]
    · rw [hdeposits, List.pairwise_append]
      refine ⟨hinv.ascend, ?_, ?_⟩
      · exact List.pairwise_filterMap.mpr (List.pairwise_singleton _ x)
      · intro a ha b hb
        rw [(hnew b hb).1]
        exact hinv.below a ha
    · intro l hl
      rw [hdeposits, List.mem_append] at hl
      rw [hleaves, List.length_append]
      rcases hl with hl | hl
      · exact Nat.lt_add_right _ (hinv.below l hl)
      · obtain ⟨hindex, hne⟩ := hnew l hl
        have hpos := List.length_pos_iff.mpr hne
        omega

/-- In every state of a run the events tell of the leaves. -/
theorem PublishedInv.run {env : Env} {w₀ : World L} (h₀ : w₀.Constructed)
    (hevents : w₀.events = []) (es : List (Event L)) :
    PublishedInv (Run.run (Lumix.step env) w₀ es) := by
  have hinv := history_induction
    (fun (h : List (Transition (World L) (Event L))) w =>
      RootInv env w₀.pool.treeDepth.toNat h w ∧ PublishedInv w)
    ⟨RootInv.init h₀, ?_⟩
    (fun _ _ _ _ hinv hstep => ⟨hinv.1.step hstep,
      hinv.2.step hinv.1.count hstep⟩) es
  · exact hinv.2
  · have hleaves := (@RootInv.init L env w₀ h₀).leaves
    refine ⟨?_, ?_, ?_⟩
    · rw [hevents, hleaves]
      rfl
    · rw [hevents]
      exact List.Pairwise.nil
    · rw [hevents]
      exact fun l hl => (by cases hl)

-- ================================================================ visible

/-- Every event that tells of a leaf is a deposit, and is read. -/
def Visible (events read : List PoolEvent) : Prop :=
  ∀ e ∈ events, commitments e ≠ [] → (deposited e).isSome ∧ e ∈ read

/-- The commitments of the deposits among some events. -/
def words (es : List PoolEvent) : List Word :=
  (es.filter fun e => (deposited e).isSome).flatMap commitments

theorem decimals_deposits (es : List PoolEvent) :
    decimals (deposits es) = (words es).map wordDecimal := by
  induction es with
  | nil => rfl
  | cons e es ih =>
      unfold deposits words decimals at *
      cases he : deposited e with
      | none =>
          rw [List.filterMap_cons, he, List.filter_cons, he, if_neg (by simp)]
          exact ih
      | some l =>
          obtain ⟨c, hc, hl⟩ := commitments_of_deposited he
          rw [List.filterMap_cons, he, List.filter_cons, he,
            if_pos (Option.isSome_some),
            List.flatMap_cons, hc, List.map_cons, ih, hl]
          rfl

theorem decimals_latest (es : List PoolEvent) :
    decimals (latest (deposits es))
      = (words es).getLast?.toList.map wordDecimal := by
  have hlast : (decimals (deposits es)).getLast?
      = ((words es).map wordDecimal).getLast? := by rw [decimals_deposits]
  unfold decimals latest at *
  rw [List.getLast?_map, List.getLast?_map] at hlast
  cases hd : (deposits es).getLast? with
  | none =>
      rw [hd] at hlast
      cases hw : (words es).getLast? with
      | none => rfl
      | some c =>
          rw [hw] at hlast
          cases hlast
  | some l =>
      rw [hd] at hlast
      cases hw : (words es).getLast? with
      | none =>
          rw [hw] at hlast
          cases hlast
      | some c =>
          rw [hw] at hlast
          exact congrArg (fun x => [x]) (Option.some.inj hlast)

theorem length_words (es : List PoolEvent) :
    (words es).length = (es.filter fun e => (deposited e).isSome).length := by
  unfold words
  induction es with
  | nil => rfl
  | cons e es ih =>
      rw [List.filter_cons]
      split
      · obtain ⟨l, hl⟩ := Option.isSome_iff_exists.mp ‹_›
        obtain ⟨c, hc, -⟩ := commitments_of_deposited hl
        rw [List.flatMap_cons, hc, List.length_append, ih]
        exact Nat.add_comm 1 _
      · exact ih

/-- The events that tell of leaves. -/
def telling (es : List PoolEvent) : List PoolEvent :=
  es.filter fun e => commitments e ≠ []

theorem flatMap_telling (es : List PoolEvent) :
    (telling es).flatMap commitments = es.flatMap commitments := by
  unfold telling
  induction es with
  | nil => rfl
  | cons e es ih =>
      rw [List.filter_cons]
      split
      · rw [List.flatMap_cons, List.flatMap_cons, ih]
      · rename_i htells
        have hnone : commitments e = [] := by simpa using htells
        rw [List.flatMap_cons, ih, hnone]
        rfl

theorem length_telling_le (es : List PoolEvent) :
    (telling es).length ≤ (es.flatMap commitments).length := by
  unfold telling
  induction es with
  | nil => exact le_rfl
  | cons e es ih =>
      rw [List.filter_cons, List.flatMap_cons, List.length_append]
      split
      · have hpos : 0 < (commitments e).length :=
          List.length_pos_iff.mpr (of_decide_eq_true ‹_›)
        rw [List.length_cons]
        omega
      · omega

section Read

variable {events read : List PoolEvent}

/-- The deposits that are read are among the events that tell. -/
theorem deposits_sublist (hread : read.Sublist events) :
    (read.filter fun e => (deposited e).isSome).Sublist (telling events) := by
  refine (hread.filter _).trans (List.monotone_filter_right _ ?_)
  intro e he
  obtain ⟨l, hl⟩ := Option.isSome_iff_exists.mp he
  obtain ⟨c, hc, -⟩ := commitments_of_deposited hl
  rw [hc]
  rfl

theorem telling_eq_of_visible (hread : read.Sublist events)
    (hascend : (deposits events).Pairwise fun a b =>
      a.leafIndex < b.leafIndex) (h : Visible events read) :
    (read.filter fun e => (deposited e).isSome) = telling events := by
  have hmem : ∀ e ∈ telling events, (deposited e).isSome ∧ e ∈ read := by
    intro e he
    obtain ⟨hevent, hne⟩ := List.mem_filter.mp he
    exact h e hevent (of_decide_eq_true hne)
  -- two deposits with one index would be one, so none is told of twice
  have hnodup : (telling events).Nodup := by
    refine ((List.pairwise_filterMap.mp hascend).sublist
      List.filter_sublist).imp_of_mem ?_
    rintro e e' he - hlt rfl
    obtain ⟨l, hl⟩ := Option.isSome_iff_exists.mp (hmem e he).1
    exact Nat.lt_irrefl _ (hlt l hl l hl)
  refine (deposits_sublist hread).eq_of_length_le
    (List.Subperm.length_le (List.subperm_of_subset hnodup ?_))
  intro e he
  exact List.mem_filter.mpr ⟨(hmem e he).2, (hmem e he).1⟩

theorem visible_of_length_le (hread : read.Sublist events)
    (h : (events.flatMap commitments).length ≤ (words read).length) :
    Visible events read := by
  have hsame := (deposits_sublist hread).eq_of_length_le (by
    rw [← length_words]
    exact (length_telling_le events).trans h)
  intro e he hne
  have htelling : e ∈ telling events :=
    List.mem_filter.mpr ⟨he, decide_eq_true hne⟩
  rw [← hsame] at htelling
  obtain ⟨hmem, hdeposit⟩ := List.mem_filter.mp htelling
  exact ⟨hdeposit, hmem⟩

theorem words_of_visible (hread : read.Sublist events)
    (hascend : (deposits events).Pairwise fun a b =>
      a.leafIndex < b.leafIndex) (h : Visible events read) :
    words read = events.flatMap commitments := by
  unfold words
  rw [telling_eq_of_visible hread hascend h, flatMap_telling]

end Read

theorem window_sublist (log : List (ℕ × PoolEvent)) (latest : ℕ)
    (lookbacks : List ℕ) :
    (window log latest lookbacks).Sublist (log.map Prod.snd) := by
  induction lookbacks with
  | nil => exact List.nil_sublist _
  | cons back lookbacks ih =>
      unfold window
      split
      · exact ih
      · exact ((List.take_sublist ..).trans (List.drop_sublist ..)).map _

-- ============================================================ the audit

theorem length_getLast?_le {α : Type} (l : List α) :
    l.getLast?.toList.length ≤ l.length := by
  cases h : l.getLast? with
  | none => exact Nat.zero_le _
  | some x => exact List.length_pos_of_mem (List.mem_of_getLast? h)

/-- The pool's stored root is the root over its leaves, or zero. -/
theorem getRoot_eq {env : Env} {w₀ : World L} (h₀ : w₀.Constructed)
    (es : List (Event L)) :
    let p := (Run.run (Lumix.step env) w₀ es).pool
    p.getRoot = rootOrZero (treeRoot env.poseidon w₀.pool.treeDepth.toNat)
      p.treeLeaves := by
  intro p
  have hinv : RootInv env w₀.pool.treeDepth.toNat
      (accepted (Lumix.step env) w₀ es) (Run.run (Lumix.step env) w₀ es) :=
    RootInv.run h₀ es
  unfold Pool.getRoot rootOrZero treeRoot
  rw [hinv.stored, root_inserts_new env.poseidon hinv.room]

/-- What an audit of the pool's events finds. -/
theorem audit_eq_ok {env : Env} {w₀ : World L} (h₀ : w₀.Constructed)
    (hevents : w₀.events = []) (es : List (Event L)) {rpc : Rpc}
    {latestLedger : ℕ} {log : List (ℕ × PoolEvent)} {cursor : ℕ → String}
    {coinutils : Coinutils} {lookbacks : List ℕ}
    (hlog : log.map Prod.snd = (Run.run (Lumix.step env) w₀ es).events)
    (hserves : Serves rpc latestLedger log cursor)
    {rootOf : List Word → Word} (hcomputes : Computes coinutils rootOf)
    (poolContract : String) :
    let w := Run.run (Lumix.step env) w₀ es
    let read := window log latestLedger lookbacks
    ∃ result, readDepositLeavesFromEvents rpc lookbacks = .ok (deposits read)
      ∧ compareRoots coinutils poolContract (deposits read)
        (wordHex w.pool.getRoot) .events = .ok result
      ∧ (result.status = .OK ↔ w.pool.getRoot = rootOrZero rootOf (words read)
        ∨ w.pool.getRoot = rootOrZero rootOf (words read).getLast?.toList) := by
  intro w read
  have hinv : PublishedInv w := PublishedInv.run h₀ hevents es
  have hread : read.Sublist w.events :=
    hlog ▸ window_sublist log latestLedger lookbacks
  have hascend : (deposits read).Pairwise
      fun a b => a.leafIndex < b.leafIndex :=
    hinv.ascend.sublist (hread.filterMap deposited)
  have horder := inOrder_eq (.refl _) hascend
  obtain ⟨result, hresult⟩ := compareRoots_returns hcomputes
    ((congrArg decimals horder).trans (decimals_deposits _)) poolContract
    (wordHex w.pool.getRoot) .events
  refine ⟨result, readDepositLeaves_eq hserves hascend, hresult, ?_⟩
  rw [compareRoots_eq_ok hresult, horder, decimals_deposits, decimals_latest,
    isRootOf_words hcomputes, isRootOf_words hcomputes]

/-- The audit of an honest pool, with a server that has every event and
tools that compute the pool's root: it returns; it passes if every leaf
came by a deposit that is read; and unless roots collide, it passes only
then. -/
theorem honest_audit :
    ∀ {L : Type} [TokenHost L] (env : Env) (w₀ : World L)
      (es : List (Event L)) (rpc : Rpc) (latestLedger : ℕ)
      (log : List (ℕ × PoolEvent)) (cursor : ℕ → String)
      (coinutils : Coinutils) (lookbacks : List ℕ) (poolContract : String),
    w₀.Constructed → w₀.events = [] →
    log.map Prod.snd = (Run.run (Lumix.step env) w₀ es).events →
    Serves rpc latestLedger log cursor →
    Computes coinutils (treeRoot env.poseidon w₀.pool.treeDepth.toNat) →
    let w := Run.run (Lumix.step env) w₀ es
    ∃ leaves result, readDepositLeavesFromEvents rpc lookbacks = .ok leaves
      ∧ compareRoots coinutils poolContract leaves (wordHex w.pool.getRoot)
        .events = .ok result
      ∧ (Visible w.events (window log latestLedger lookbacks) →
        result.status = .OK)
      ∧ (NoCollision coinutils (w.pool.treeLeaves.map wordDecimal)
          (decimals leaves) →
        NoCollision coinutils (w.pool.treeLeaves.map wordDecimal)
          (decimals (latest leaves)) →
        result.status = .OK →
        Visible w.events (window log latestLedger lookbacks)) := by
  intro L _ env w₀ es rpc latestLedger log cursor coinutils lookbacks
    poolContract h₀ hevents hlog hserves hcomputes w
  have hinv : PublishedInv w := PublishedInv.run h₀ hevents es
  have hread : (window log latestLedger lookbacks).Sublist w.events :=
    hlog ▸ window_sublist log latestLedger lookbacks
  have hroot : w.pool.getRoot = _ := getRoot_eq h₀ es
  obtain ⟨result, hleaves, hresult, hstatus⟩ := @audit_eq_ok L _ env w₀ h₀
    hevents es rpc latestLedger log cursor coinutils lookbacks hlog hserves
    _ hcomputes poolContract
  refine ⟨_, result, hleaves, hresult, ?_, ?_⟩
  · intro hvisible
    rw [hstatus, words_of_visible hread hinv.ascend hvisible, hinv.leaves]
    exact .inl hroot
  · intro hall hlatest hok
    rw [decimals_deposits] at hall
    rw [decimals_latest] at hlatest
    have hown := (isRootOf_words hcomputes).mpr hroot
    apply visible_of_length_le hread
    rw [hinv.leaves]
    rcases hstatus.mp hok with hcumulative | honly
    · have hsame := congrArg List.length
        (hall _ hown ((isRootOf_words hcomputes).mpr hcumulative))
      rw [List.length_map, List.length_map] at hsame
      exact hsame.le
    · have hsame := congrArg List.length
        (hlatest _ hown ((isRootOf_words hcomputes).mpr honly))
      rw [List.length_map, List.length_map] at hsame
      exact hsame.le.trans (length_getLast?_le _)

-- ============================================================= an archive

/-- A server that has the whole log; its cursors are positions. -/
def archive (latestLedger : ℕ) (log : List (ℕ × PoolEvent)) : Rpc where
  getLatestLedger := .ok latestLedger
  getEvents req limit :=
    match req with
    | .fromLedger startLedger =>
        .ok (page toString log limit (before log startLedger))
    | .after cursor => do
        let k ← orPanic "invalid cursor" (bigInt cursor)
        pure (page toString log limit k.toNat)

theorem archive_serves {latestLedger : ℕ} (h : 1 ≤ latestLedger)
    (log : List (ℕ × PoolEvent)) :
    Serves (archive latestLedger log) latestLedger log toString where
  ledger := rfl
  positive := h
  cursor_ne _ := Nat.repr_ne_empty
  first _ _ _ _ := rfl
  next k limit := by
    show (do
      let k ← orPanic "invalid cursor" (bigInt (toString k))
      pure (page toString log limit k.toNat)) = _
    rw [bigInt_toString]
    rfl

/-- A log that fits in the pages of the first window is read whole, if
there is a deposit in it. -/
theorem window_eq {log : List (ℕ × PoolEvent)} {latestLedger back : ℕ}
    {lookbacks : List ℕ} (hback : latestLedger ≤ back + 1)
    (hledgers : ∀ e ∈ log, 1 ≤ e.1) (hshort : log.length ≤ 50 * pageLimit)
    (hdeposit : deposits (log.map Prod.snd) ≠ []) :
    window log latestLedger (back :: lookbacks) = log.map Prod.snd := by
  have hfirst : max 1 (latestLedger - back) = 1 := by omega
  have hbefore : before log 1 = 0 := by
    cases log with
    | nil => rfl
    | cons e log =>
        unfold before
        rw [List.takeWhile_cons_of_neg]
        · rfl
        · have hledger := hledgers e List.mem_cons_self
          simp only [decide_eq_true_eq]
          omega
  have hseen : seen log latestLedger back = log.map Prod.snd := by
    unfold seen
    rw [hfirst, hbefore, List.drop_zero, List.take_of_length_le hshort]
  unfold window
  rw [hseen, if_neg hdeposit]

section Runs

open Testnet

/-- The log of a pool whose events are all of ledger 10. -/
def logOf (events : List PoolEvent) : List (ℕ × PoolEvent) :=
  events.map fun e => (10, e)

theorem snd_logOf (events : List PoolEvent) :
    (logOf events).map Prod.snd = events := by
  unfold logOf
  rw [List.map_map]
  exact List.map_id _

theorem window_logOf {events : List PoolEvent}
    (hshort : events.length ≤ 50 * pageLimit) (hdeposit : deposits events ≠ []) :
    window (logOf events) 10 defaultLookbacks = events := by
  refine (window_eq (by decide) ?_ ?_ ?_).trans (snd_logOf events)
  · intro e he
    obtain ⟨_, -, rfl⟩ := List.mem_map.mp he
    exact (by decide : 1 ≤ 10)
  · unfold logOf
    rwa [List.length_map]
  · rwa [snd_logOf]

/-- Two deposits, and no crossing. -/
def bothDeposits : List (Event SacLedger) := setup ++ [depositU, depositX]

/-- The world after the two deposits of the demo. -/
abbrev bothDeposited : World SacLedger :=
  run (step Batch.env) (genesis 100 2500) bothDeposits

/-- The events after the two deposits: both leaves came by one. -/
theorem deposited_evaluated :
    bothDeposited.events.length ≤ 50 * pageLimit
      ∧ deposits bothDeposited.events ≠ []
      ∧ bothDeposited.pool.treeLeaves.length = 2
      ∧ ∀ e ∈ bothDeposited.events,
        commitments e ≠ [] → (deposited e).isSome := by
  decide +kernel

/-- The pool with the two notes deposited passes. -/
theorem honest_audit_deposits :
    bothDeposited.pool.treeLeaves.length = 2
      ∧ ∃ leaves result, readDepositLeavesFromEvents
          (archive 10 (logOf bothDeposited.events)) defaultLookbacks
            = .ok leaves
        ∧ compareRoots (treeCoinutils Batch.env.poseidon 12) "pool" leaves
          (wordHex bothDeposited.pool.getRoot) .events = .ok result
        ∧ result.status = .OK := by
  obtain ⟨hshort, hdeposit, htwo, hall⟩ := deposited_evaluated
  obtain ⟨leaves, result, hleaves, hresult, hok, -⟩ := honest_audit
    Batch.env (genesis 100 2500) bothDeposits
    (archive 10 (logOf bothDeposited.events)) 10
    (logOf bothDeposited.events) toString
    (treeCoinutils Batch.env.poseidon 12)
    defaultLookbacks "pool" (genesis_constructed 100 2500) rfl
    (snd_logOf bothDeposited.events) (archive_serves (by decide) _)
    (treeCoinutils_computes Batch.env.poseidon 12)
  refine ⟨htwo, leaves, result, hleaves, hresult, hok ?_⟩
  rw [window_logOf hshort hdeposit]
  exact fun e he hne => ⟨hall e he hne, he⟩

/-- The events after both deposits and the crossing: the two leaves that
deposits tell of do not have the pool's root. -/
theorem crossed_evaluated :
    let w := run (step Batch.env) (genesis 100 2500) Batch.signedRun
    w.events.length ≤ 50 * pageLimit ∧ deposits w.events ≠ []
      ∧ (∀ t ∈ accepted (step Batch.env) (genesis 100 2500) Batch.signedRun,
        t.event.Proven Batch.env.poseidon 12 2)
      ∧ w.pool.getRoot ≠ rootOrZero (treeRoot Batch.env.poseidon 12)
        (words w.events)
      ∧ w.pool.getRoot ≠ rootOrZero (treeRoot Batch.env.poseidon 12)
        (words w.events).getLast?.toList := by
  decide +kernel

/-- Two notes are deposited and crossed, by proven calls. The server has
every event and the tools compute the pool's root, but the audit fails. -/
theorem crossed_pool_accused :
    let w := run (step Batch.env) (genesis 100 2500) Batch.signedRun
    let log := logOf w.events
    let coinutils := treeCoinutils Batch.env.poseidon 12
    (genesis 100 2500).Constructed ∧ (genesis 100 2500).events = []
      ∧ Batch.env.poseidon = poseidon255
      ∧ (∀ t ∈ accepted (step Batch.env) (genesis 100 2500) Batch.signedRun,
        t.event.Proven Batch.env.poseidon 12 2)
      ∧ log.map Prod.snd = w.events
      ∧ Serves (archive 10 log) 10 log toString
      ∧ Computes coinutils (treeRoot Batch.env.poseidon 12)
      ∧ ∃ leaves result, readDepositLeavesFromEvents (archive 10 log)
          defaultLookbacks = .ok leaves
        ∧ compareRoots coinutils "pool" leaves (wordHex w.pool.getRoot)
          .events = .ok result
        ∧ result.status = .ROOT_MISMATCH_CRITICAL := by
  intro w log coinutils
  obtain ⟨hshort, hdeposit, hproven, hall, hlatest⟩ := crossed_evaluated
  have hserves := @archive_serves 10 (by decide) log
  have hcomputes := treeCoinutils_computes Batch.env.poseidon 12
  obtain ⟨result, hleaves, hresult, hstatus⟩ := audit_eq_ok
    (genesis_constructed 100 2500) rfl Batch.signedRun (snd_logOf w.events)
    hserves hcomputes "pool"
  refine ⟨genesis_constructed 100 2500, rfl, Batch.env_poseidon, hproven,
    snd_logOf w.events, hserves, hcomputes, _, result, hleaves, hresult, ?_⟩
  rw [window_logOf hshort hdeposit] at hstatus
  cases hcase : result.status with
  | ROOT_MISMATCH_CRITICAL => rfl
  | OK => exact absurd (hstatus.mp hcase) (not_or.mpr ⟨hall, hlatest⟩)

end Runs

end Lumix.Auditor
