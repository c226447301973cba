/-
The events the root auditor reads.

The contract publishes its events as topics and a value; the RPC serves
them page by page. The auditor keeps the `deposit` events, by their leaf
index, from the first window in which it finds any, of which it reads up
to fifty pages. `readDepositLeaves_eq` says what it has read then: the
deposits of that part of the log (`window`), in order.
-/
import Lumix.Auditor.Audit
import Lumix.Lib.OrderedMap

namespace Lumix.Auditor

open Exec Text

-- ========================================================= what is published

/-- The kinds of contract values that pool events are made of. -/
inductive ScVal
  | symbol (s : String)
  | u32 (n : ℕ)
  | i128 (n : ℤ)
  | bytes (bs : Bytes)
  | address (a : Address)
  | vec (items : List ScVal)

/-- An event as the RPC serves it. -/
structure ContractEvent where
  topic : List ScVal
  value : ScVal

/-- An event as the contract publishes it. -/
def published : PoolEvent → ContractEvent
  | .deposit sourceDomain cctpNonce asset amount commitment
      encryptedNotePayloadHash policyId leafIndex root =>
      ⟨[.symbol "deposit", .u32 sourceDomain.toNat],
        .vec [.bytes cctpNonce.toBytes, .address asset, .i128 amount,
          .bytes commitment.toBytes, .bytes encryptedNotePayloadHash.toBytes,
          .bytes policyId.toBytes, .u32 leafIndex, .bytes root.toBytes]⟩
  | .withdraw toAddr nullifierHash net relayerFee =>
      ⟨[.symbol "withdraw"],
        .vec [.address toAddr, .bytes nullifierHash.toBytes, .i128 net,
          .i128 relayerFee]⟩
  | .cctpout destinationDomain toAddr nullifierHash destinationRecipient
      amount =>
      ⟨[.symbol "cctpout", .u32 destinationDomain.toNat],
        .vec [.address toAddr, .bytes nullifierHash.toBytes,
          .bytes destinationRecipient.toBytes, .i128 amount]⟩
  | .rfq quoteHash toSolver nullifierHash credit =>
      ⟨[.symbol "rfq", .bytes quoteHash.toBytes],
        .vec [.address toSolver, .bytes nullifierHash.toBytes, .i128 credit]⟩
  | .rfqswap quoteHash user solver nullifierHash quotedOutput credit =>
      ⟨[.symbol "rfqswap", .bytes quoteHash.toBytes],
        .vec [.address user, .address solver, .bytes nullifierHash.toBytes,
          .i128 quotedOutput, .i128 credit]⟩
  | .xfer nullifierHash outputCommitment leafIndex root =>
      ⟨[.symbol "xfer"],
        .vec [.bytes nullifierHash.toBytes, .bytes outputCommitment.toBytes,
          .u32 leafIndex, .bytes root.toBytes]⟩
  | .mpc batchHash nullifierA nullifierB outputCommitmentA outputCommitmentB
      root =>
      ⟨[.symbol "mpc", .bytes batchHash.toBytes],
        .vec [.bytes nullifierA.toBytes, .bytes nullifierB.toBytes,
          .bytes outputCommitmentA.toBytes, .bytes outputCommitmentB.toBytes,
          .bytes root.toBytes]⟩
  | .mpcprice batchHash nullifierA nullifierB outputCommitmentA
      outputCommitmentB root =>
      ⟨[.symbol "mpcprice", .bytes batchHash.toBytes],
        .vec [.bytes nullifierA.toBytes, .bytes nullifierB.toBytes,
          .bytes outputCommitmentA.toBytes, .bytes outputCommitmentB.toBytes,
          .bytes root.toBytes]⟩
  | .regasset assetId token =>
      ⟨[.symbol "regasset", .bytes assetId.toBytes], .address token⟩

/-- The leaf a `deposit` event tells of. -/
def deposited : PoolEvent → Option DepositLeaf
  | .deposit _ _ _ _ commitment _ _ leafIndex _ =>
      some (leafOf leafIndex commitment)
  | _ => none

-- ================================================================= reading

/-- The first topic of a deposit event. -/
def SYM_DEPOSIT : String := "deposit"

/-- The leaf of an event, unless it is skipped. The first topic is a
symbol. -/
def readDeposit (ev : ContractEvent) : Except String (Option DepositLeaf) :=
  match ev.topic, ev.value with
  | .symbol t0 :: _, .vec data =>
      if t0 ≠ SYM_DEPOSIT ∨ data.length < 7 then .ok none
      else
        match data[3]?, data[6]? with
        | some (ScVal.bytes commitment), some (ScVal.u32 leafIndex) => do
            let commitmentHex := "0x" ++ bytesHex commitment
            let n ← orPanic ("Cannot convert " ++ commitmentHex
              ++ " to a BigInt") (bigInt commitmentHex)
            pure (some ⟨leafIndex, toString n, commitmentHex⟩)
        | _, _ => .error "not a deposit"
  | _, _ => .ok none

/-- One page of `getEvents`, with the cursor after it. -/
structure EventPage where
  events : List ContractEvent
  cursor : Option String

/-- The two ways a page is asked for. -/
inductive EventRequest
  | fromLedger (startLedger : ℕ)
  | after (cursor : String)

/-- The server, asked for the events of the pool's contract. -/
structure Rpc where
  getLatestLedger : Except String ℕ
  getEvents : EventRequest → (limit : ℕ) → Except String EventPage

/-- The leaves that were read, and how many in the present window. -/
structure Reading where
  byIndex : OrderedMap ℕ DepositLeaf
  got : ℕ

/-- The leaf is kept under its index, and counted. -/
def Reading.record (s : Reading) (l : DepositLeaf) : Reading :=
  ⟨s.byIndex.set l.leafIndex l, s.got + 1⟩

/-- The events of a page, until one throws. -/
def readEvents : List ContractEvent → Reading → Reading × Bool
  | [], s => (s, true)
  | ev :: events, s =>
      match readDeposit ev with
      | .error _ => (s, false)
      | .ok none => readEvents events s
      | .ok (some l) => readEvents events (s.record l)

/-- The limit each page is asked with. -/
def pageLimit : ℕ := 100

/-- The pages of a window, at most `pages` of them, until a request or an
event throws. -/
def readPages (rpc : Rpc) : (pages : ℕ) → EventRequest → Reading →
    Reading × Bool
  | 0, _, s => (s, true)
  | pages + 1, req, s =>
      match rpc.getEvents req pageLimit with
      | .error _ => (s, false)
      | .ok resp =>
          match readEvents resp.events s with
          | (s, false) => (s, false)
          | (s, true) =>
              match resp.cursor with
              | none => (s, true)
              | some cursor =>
                  if cursor = "" ∨ resp.events.length = 0 then (s, true)
                  else readPages rpc pages (.after cursor) s

/-- The windows in turn; one that throws is left for the next. -/
def readWindows (rpc : Rpc) (latest : ℕ) :
    (lookbacks : List ℕ) → OrderedMap ℕ DepositLeaf →
    OrderedMap ℕ DepositLeaf
  | [], byIndex => byIndex
  | back :: lookbacks, byIndex =>
      match readPages rpc 50 (.fromLedger (max 1 (latest - back)))
        ⟨byIndex, 0⟩ with
      | (s, true) =>
          if 0 < s.got then s.byIndex else readWindows rpc latest lookbacks
            s.byIndex
      | (s, false) => readWindows rpc latest lookbacks s.byIndex

/-- `ROOT_AUDIT_LOOKBACKS`, unless it is set. -/
def defaultLookbacks : List ℕ := [9000, 4000, 2000]

/-- `readDepositLeavesFromEvents`: the leaves of every window, in the
order of their indices. -/
def readDepositLeavesFromEvents (rpc : Rpc) (lookbacks : List ℕ) :
    Except String (List DepositLeaf) := do
  let latest ← rpc.getLatestLedger
  pure (inOrder (readWindows rpc latest lookbacks .empty).values)

-- ============================================================ one event

theorem bigInt_wordHex (w : Word) :
    bigInt (wordHex w) = some (w.toNat : ℤ) := by
  have hne : w.toBytes ≠ [] := by
    intro hnil
    have hlength := w.length_toBytes
    rw [hnil] at hlength
    cases hlength
  unfold wordHex bytesHex
  rw [bigInt_hex (readBytes_flatMap w.toBytes) hne]
  unfold Word.toBytes
  rw [Digits.beVal_beBytes w.isLt]

theorem readDeposit_published (e : PoolEvent) :
    readDeposit (published e) = .ok (deposited e) := by
  cases e with
  | deposit sourceDomain cctpNonce asset amount commitment payload policyId
      leafIndex root =>
      show (do
        let n ← orPanic ("Cannot convert " ++ wordHex commitment
          ++ " to a BigInt") (bigInt (wordHex commitment))
        pure (some ⟨leafIndex, toString n, wordHex commitment⟩))
        = Except.ok (some (leafOf leafIndex commitment))
      rw [bigInt_wordHex]
      rfl
  | withdraw | cctpout | rfq | rfqswap | xfer | mpc | mpcprice | regasset =>
      rfl

-- ================================================================= serving

/-- The leaves that some events tell of. -/
def deposits (es : List PoolEvent) : List DepositLeaf :=
  es.filterMap deposited

/-- The first `limit` events from position `k` on, and the cursor behind
them. -/
def page (cursor : ℕ → String) (log : List (ℕ × PoolEvent))
    (limit k : ℕ) : EventPage :=
  let events := (log.drop k).take limit
  ⟨events.map fun e => published e.2, some (cursor (k + events.length))⟩

/-- How many events there are before a ledger. -/
def before (log : List (ℕ × PoolEvent)) (startLedger : ℕ) : ℕ :=
  (log.takeWhile fun e => e.1 < startLedger).length

/-- The server has every event of the pool's log, by ledger, and serves
them from any ledger on. -/
structure Serves (rpc : Rpc) (latest : ℕ) (log : List (ℕ × PoolEvent))
    (cursor : ℕ → String) : Prop where
  ledger : rpc.getLatestLedger = .ok latest
  positive : 1 ≤ latest
  cursor_ne : ∀ k, cursor k ≠ ""
  first : ∀ startLedger limit, 1 ≤ startLedger → startLedger ≤ latest →
    rpc.getEvents (.fromLedger startLedger) limit
      = .ok (page cursor log limit (before log startLedger))
  next : ∀ k limit, rpc.getEvents (.after (cursor k)) limit
    = .ok (page cursor log limit k)

/-- What is read of a window: fifty pages. -/
def seen (log : List (ℕ × PoolEvent)) (latest back : ℕ) :
    List PoolEvent :=
  ((log.drop (before log (max 1 (latest - back)))).take
    (50 * pageLimit)).map Prod.snd

/-- What is read of the first window in which a deposit is found. -/
def window (log : List (ℕ × PoolEvent)) (latest : ℕ) :
    (lookbacks : List ℕ) → List PoolEvent
  | [] => []
  | back :: lookbacks =>
      if deposits (seen log latest back) = [] then
        window log latest lookbacks
      else seen log latest back

theorem deposits_append (es es' : List PoolEvent) :
    deposits (es ++ es') = deposits es ++ deposits es' :=
  List.filterMap_append

theorem readEvents_published (es : List PoolEvent) (s : Reading) :
    readEvents (es.map published) s
      = ((deposits es).foldl Reading.record s, true) := by
  induction es generalizing s with
  | nil => rfl
  | cons e es ih =>
      unfold deposits
      rw [List.map_cons, readEvents, readDeposit_published,
        List.filterMap_cons]
      cases deposited e with
      | none => exact ih s
      | some l => exact ih (s.record l)

theorem drop_length_take {α : Type} (l : List α) (m : ℕ) :
    l.drop (l.take m).length = l.drop m := by
  rw [List.length_take]
  by_cases h : m ≤ l.length
  · rw [Nat.min_eq_left h]
  · rw [Nat.min_eq_right (by omega), List.drop_length,
      List.drop_of_length_le (by omega)]

/-- Pages in sequence are the events of a stretch of the log. -/
theorem readPages_serves {rpc : Rpc} {latest : ℕ}
    {log : List (ℕ × PoolEvent)} {cursor : ℕ → String}
    (h : Serves rpc latest log cursor) {pages k : ℕ} {req : EventRequest}
    (hreq : rpc.getEvents req pageLimit = .ok (page cursor log pageLimit k))
    (s : Reading) :
    readPages rpc pages req s
      = ((deposits (((log.drop k).take (pages * pageLimit)).map
        Prod.snd)).foldl Reading.record s, true) := by
  induction pages generalizing req k s with
  | zero => simp [readPages, deposits]
  | succ pages ih =>
      have hevents : (page cursor log pageLimit k).events
          = (((log.drop k).take pageLimit).map Prod.snd).map published := by
        rw [List.map_map]
        rfl
      unfold readPages
      rw [hreq]
      dsimp only
      rw [hevents, readEvents_published]
      dsimp only [page]
      by_cases hempty : (log.drop k).take pageLimit = []
      · have hrest : log.drop k = [] :=
          (List.take_eq_nil_iff.mp hempty).resolve_left (by decide)
        rw [if_pos (.inr (by rw [hempty]; rfl)), hrest, List.take_nil,
          List.take_nil]
      · have hlength : ((((log.drop k).take pageLimit).map Prod.snd).map
            published).length ≠ 0 := by
          rw [List.length_map, List.length_map]
          exact fun hzero => hempty (List.length_eq_zero_iff.mp hzero)
        have hmore : ¬(cursor (k + ((log.drop k).take pageLimit).length) = ""
            ∨ ((((log.drop k).take pageLimit).map Prod.snd).map
              published).length = 0) :=
          not_or.mpr ⟨h.cursor_ne _, hlength⟩
        rw [if_neg hmore, ih (h.next _ _), ← List.drop_drop,
          drop_length_take, ← List.foldl_append, ← deposits_append,
          ← List.map_append, ← List.take_add, Nat.succ_mul,
          Nat.add_comm pageLimit]

theorem got_foldl_record (ls : List DepositLeaf) (s : Reading) :
    (ls.foldl Reading.record s).got = s.got + ls.length := by
  induction ls generalizing s with
  | nil => rfl
  | cons l ls ih =>
      rw [List.foldl_cons, ih, List.length_cons]
      show s.got + 1 + ls.length = s.got + (ls.length + 1)
      omega

/-- What every window in turn leaves. -/
theorem readWindows_serves {rpc : Rpc} {latest : ℕ}
    {log : List (ℕ × PoolEvent)} {cursor : ℕ → String}
    (h : Serves rpc latest log cursor) (lookbacks : List ℕ)
    (byIndex : OrderedMap ℕ DepositLeaf) :
    readWindows rpc latest lookbacks byIndex
      = ((deposits (window log latest lookbacks)).foldl Reading.record
        ⟨byIndex, 0⟩).byIndex := by
  induction lookbacks with
  | nil => rfl
  | cons back lookbacks ih =>
      have hpositive := h.positive
      have hpages : readPages rpc 50 (.fromLedger (max 1 (latest - back)))
            ⟨byIndex, 0⟩
          = ((deposits (seen log latest back)).foldl Reading.record
            ⟨byIndex, 0⟩, true) :=
        readPages_serves h (h.first _ pageLimit (by omega) (by omega)) _
      unfold readWindows window
      rw [hpages]
      dsimp only
      rw [got_foldl_record]
      by_cases hnone : deposits (seen log latest back) = []
      · have hzero : ¬0 < (⟨byIndex, 0⟩ : Reading).got
            + (deposits (seen log latest back)).length := by
          rw [hnone]
          exact Nat.lt_irrefl 0
        rw [if_neg hzero, if_pos hnone, hnone]
        exact ih
      · rw [if_neg hnone, if_pos]
        exact Nat.lt_add_left 0 (List.length_pos_iff.mpr hnone)

/-- Leaves whose indices ascend are kept in their order. -/
theorem values_foldl_record {ls : List DepositLeaf} {s : Reading}
    (hascend : (s.byIndex.values ++ ls).Pairwise fun a b =>
      a.leafIndex < b.leafIndex)
    (hkeys : s.byIndex.entries
      = s.byIndex.values.map fun l => (l.leafIndex, l)) :
    (ls.foldl Reading.record s).byIndex.values = s.byIndex.values ++ ls := by
  induction ls generalizing s with
  | nil => exact (List.append_nil _).symm
  | cons l ls ih =>
      have hfresh : l.leafIndex ∉ s.byIndex.entries.map Prod.fst := by
        rw [hkeys, List.map_map]
        intro hmem
        obtain ⟨l', hl', heq⟩ := List.mem_map.mp hmem
        have hlt := (List.pairwise_append.mp hascend).2.2 l' hl' l
          List.mem_cons_self
        exact absurd heq (Nat.ne_of_lt hlt)
      have hentries : (s.record l).byIndex.entries
          = s.byIndex.entries ++ [(l.leafIndex, l)] :=
        Entries.place_of_notMem hfresh
      have hvalues : (s.record l).byIndex.values = s.byIndex.values ++ [l] := by
        show (s.record l).byIndex.entries.map Prod.snd = _
        rw [hentries, List.map_append]
        rfl
      rw [List.foldl_cons, ih, hvalues, List.append_assoc]
      · rfl
      · rw [hvalues, List.append_assoc]
        exact hascend
      · rw [hvalues, hentries, hkeys, List.map_append]
        rfl

/-- The leaves that are read are those of the window, in order. -/
theorem readDepositLeaves_eq {rpc : Rpc} {latest : ℕ}
    {log : List (ℕ × PoolEvent)} {cursor : ℕ → String}
    (h : Serves rpc latest log cursor) {lookbacks : List ℕ}
    (hascend : (deposits (window log latest lookbacks)).Pairwise fun a b =>
      a.leafIndex < b.leafIndex) :
    readDepositLeavesFromEvents rpc lookbacks
      = .ok (deposits (window log latest lookbacks)) := by
  have hvalues : ((deposits (window log latest lookbacks)).foldl
      Reading.record ⟨.empty, 0⟩).byIndex.values
        = deposits (window log latest lookbacks) :=
    @values_foldl_record _ ⟨.empty, 0⟩ hascend rfl
  unfold readDepositLeavesFromEvents
  simp only [bind_eq_ok, pure_eq_ok]
  refine ⟨latest, h.ledger, ?_⟩
  rw [readWindows_serves h, hvalues]
  exact inOrder_eq (.refl _) hascend

end Lumix.Auditor
