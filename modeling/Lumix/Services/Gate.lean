/-
When a settlement goes in.

A settle request reassembles the lifecycle of its intent from several
tables, and inserts its row some statements later. What cannot be taken
back still holds at the insertion: intent, quote, acceptance and an
executed fill. A newer fill, a proof that is no longer ready or a spent
nullifier can have come in between (`settled_after_spend`), and an
intent without an owner is anybody's. `settlement_gated` says what is
left, for every run.
-/
import Lumix.Services.Acceptances

namespace Lumix.Services.Rfq

variable {t t' : Tables} {w w' : World} {pid : ℕ} {q : Call}
  {hashes : Hashes}

-- ================================================================= the row

/-- A row of `settlements` with a new id comes from an insertion. -/
theorem Effect.settlements (h : Effect t q t') {row : SettlementRow}
    (hrow : row ∈ t'.settlements.rows)
    (hnew : ∀ r ∈ t.settlements.rows,
      r.settlement_id ≠ row.settlement_id) :
    ∃ requester settlementId body,
      q = .insertSettlement requester settlementId body
        ∧ row = settlementRow settlementId body := by
  cases h with
  | @settlement requester settlementId body settlements h =>
      rcases insertGeneric_cases h with ⟨rfl, -⟩ | ⟨-, -, hrows⟩
      · exact absurd rfl (hnew row hrow)
      · rw [hrows] at hrow
        rcases List.mem_append.mp hrow with hrow | hrow
        · exact absurd rfl (hnew row hrow)
        · exact ⟨requester, settlementId, body, rfl,
            List.mem_singleton.mp hrow⟩
  | owned settlementId userId =>
      obtain ⟨r, hr, rfl⟩ := List.mem_map.mp hrow
      exact absurd (setUser_id settlementId userId r).symm (hnew r hr)
  | _ => exact absurd rfl (hnew row hrow)

-- ============================================================ the request

/-- Only a request to settle inserts a settlement: its own, under its
own id, and in the name of its user. -/
def MadeBy (hashes : Hashes) : Request → Call → Prop
  | .settle user body, .insertSettlement requester id body' =>
      user = some requester ∧ id = settlementId hashes body ∧ body' = body
  | _, .insertSettlement _ _ _ => False
  | _, _ => True

/-- A statement that records no settlement is anybody's. -/
theorem madeBy_of_plain {request : Request} {q : Call} (h : Plain q) :
    MadeBy hashes request q := by
  cases q with
  | insertSettlement requester settlementId body => exact h.elim
  | _ => cases request <;> trivial

/-- So code without one is. -/
theorem uses_plain {α : Type} {request : Request} {p : Route α}
    (h : p.Uses Plain) : p.Uses (MadeBy hashes request) :=
  h.mono fun _ => madeBy_of_plain

/-- Accepting records no settlement, -/
theorem uses_accept (user : Option String) (quoteId : String)
    (body : AcceptBody) {request : Request} :
    (accept hashes user quoteId body).Uses (MadeBy hashes request) := by
  have hinsert (row : AcceptanceRow) :
      MadeBy hashes request (.insertAcceptance row) := by
    cases request <;> trivial
  have hrecord : MadeBy hashes request .record := by cases request <;> trivial
  unfold accept
  refine (Prog.uses_ofExcept _).bind fun userId => ?_
  refine (uses_plain (uses_requireOwnedIntent _ _)).bind fun _ => ?_
  refine (uses_plain (uses_rfqLifecycle _ _)).bind fun lc => ?_
  refine (Prog.uses_ofExcept _).bind fun _ => ?_
  refine (Prog.uses_query (hinsert _)).bind fun _ => ?_
  exact (Prog.uses_query hrecord).bind fun _ => trivial

/-- settling records its own, -/
theorem uses_settle (user : Option String) (body : SettleBody) :
    (settle hashes user body).Uses (MadeBy hashes (.settle user body)) := by
  unfold settle
  refine Prog.uses_ofExcept_bind fun userId huser => ?_
  have huser : user = some userId := found_eq_ok.mp huser
  refine (uses_plain uses_assertRootHealthy).bind fun _ => ?_
  refine (uses_plain (uses_rfqLifecycle _ _)).bind fun lc => ?_
  refine (Prog.uses_ofExcept _).bind fun _ => ?_
  refine (Prog.uses_query trivial).bind fun proof => ?_
  refine (Prog.uses_ofExcept _).bind fun _ => ?_
  refine (Prog.Uses.handle (Prog.uses_query trivial)
    fun _ => Prog.uses_pure _).bind fun spent => ?_
  refine (Prog.uses_ofExcept _).bind fun _ => ?_
  refine (Prog.uses_query trivial).bind fun intentRow => ?_
  refine (uses_plain (uses_requireMatch _ _)).bind fun _ => ?_
  refine (Prog.uses_query ⟨huser, rfl, rfl⟩).bind fun _ => ?_
  refine (Prog.uses_query trivial).bind fun _ => ?_
  refine (Prog.uses_query trivial).bind fun _ => ?_
  exact (Prog.uses_query trivial).bind fun _ => trivial

/-- and every request makes its own statements only. -/
theorem uses_code (hashes : Hashes) (request : Request) :
    (request.code hashes).Uses (MadeBy hashes request) := by
  cases request with
  | createIntent user body idempotencyKey =>
      exact uses_plain (uses_createIntent hashes user body _)
  | requestQuotes user intentHash solverUrl =>
      exact uses_plain (uses_requestQuotes user intentHash solverUrl)
  | solverQuote body => exact uses_plain (uses_solverQuote hashes body)
  | accept user quoteId body => exact uses_accept user quoteId body
  | lock quoteId => exact uses_plain (uses_lock quoteId)
  | createFill body => exact uses_plain (uses_createFill hashes body)
  | executeFill fillId destinationTxHash =>
      exact uses_plain (uses_executeFill fillId destinationTxHash)
  | settle user body => exact uses_settle user body

-- ============================================================== theorem

/-- In every run a settlement goes in by a request to settle, with its
gate open. -/
theorem settlement_gated (hashes : Hashes) (t : Tables)
    (ht : Consistent t) (es : List DeskEvent)
    (tr : Run.Transition Desk DeskEvent)
    (htr : tr ∈ Run.accepted (rfq hashes).step (idle t) es)
    (row : SettlementRow)
    (hrow : row ∈ tr.after.shared.tables.settlements.rows)
    (hnew : ∀ r ∈ tr.before.shared.tables.settlements.rows,
      r.settlement_id ≠ row.settlement_id) :
    ∃ pid c userId body,
      tr.event = .run pid c
      ∧ (∃ k, tr.before.procs[pid]? = some ⟨.settle (some userId) body,
          some (.call (.insertSettlement userId
            (settlementId hashes body) body) k)⟩)
      ∧ row = settlementRow (settlementId hashes body) body
      ∧ Gate pid userId body tr.before.shared := by
  have hguarded := guarded_before hashes ht htr
  have huses : System.AllUse (MadeBy hashes) tr.before := by
    obtain ⟨x, y, hsplit⟩ := List.mem_iff_append.mp htr
    obtain ⟨es', -, hrun, -⟩ := Run.accepted_split hsplit
    refine hrun ▸ System.uses_run (uses_code hashes) ?_ es'
    exact fun i request c hi => by cases hi
  have hs := Run.step_of_mem_accepted htr
  obtain ⟨p, e, p'⟩ := tr
  have hmoved : (rfq hashes).Moved p e p' := System.step_cases hs
  cases hmoved with
  | started request => exact absurd rfl (hnew row hrow)
  | killed hi => exact absurd rfl (hnew row hrow)
  | @happened e _ _ he =>
      injection he with he
      injection he with hworld
      subst hworld
      have hsame : (p.shared.tables.happen e).settlements
          = p.shared.tables.settlements := by cases e <;> rfl
      have hrow : row ∈ (p.shared.tables.happen e).settlements.rows := hrow
      rw [hsame] at hrow
      exact absurd rfl (hnew row hrow)
  | @ran pid c request q k hi =>
      obtain ⟨requester, settlementId, body, rfl, hbody⟩ :=
        (effect_exec pid q c p.shared).settlements hrow hnew
      have hmade := (huses pid request _ hi).1
      have hgate := hguarded.pre desk_lawful hi
      cases request with
      | settle user body' =>
          obtain ⟨rfl, rfl, rfl⟩ := hmade
          exact ⟨pid, c, requester, body, rfl, ⟨k, hi⟩, hbody, hgate⟩
      | _ => exact hmade.elim

-- ============================================================== two runs

/-- The first quote is accepted and filled, and a proof is ready. -/
def executed (owner : Option String) : Tables where
  __ := quoted
  intents := ⟨[⟨"intent", "key", 100, owner, none⟩],
    List.pairwise_singleton ..⟩
  acceptances := ⟨[acceptanceRow spelled "alice" "quote 1" ⟨"intent", "a"⟩],
    List.pairwise_singleton ..⟩
  fills := ⟨[⟨deterministicId id "fill" ["quote 1", "receipt"], "quote 1",
    "receipt", some "tx", .EXECUTED, 0⟩], List.pairwise_singleton ..⟩
  proofJobs := [⟨"job", some "alice", .ready⟩]

/-- The market with its fill is consistent. -/
theorem consistent_executed (owner : Option String) :
    Consistent (executed owner) := by
  intro row hrow
  obtain rfl := List.mem_singleton.mp hrow
  exact ⟨quoteRow "quote 1", List.mem_cons_self, rfl, rfl⟩

/-- A settlement of the quote by the proof job. -/
def settleBody : SettleBody :=
  ⟨"intent", "quote 1", none, none, "job", "nullifier"⟩

/-- The row it records. -/
def settled : SettlementRow :=
  settlementRow (settlementId spelled settleBody) settleBody

/-- A request to settle, up to its insertion. -/
def settleChecks (user : String) : List DeskEvent :=
  [.start (.settle (some user) settleBody),
   go 0, go 0, go 0, go 0, go 0, go 0, go 0, go 0]

/-- The nullifier is spent, and a second fill of the quote comes. -/
def meanwhile : List DeskEvent :=
  [.outside (.spend "nullifier"),
   .start (.createFill ⟨"quote 1", "other", none⟩),
   .run 1 (.go { nowhere with now := 1 })]

/-- In this run one settlement is recorded, through its gate. -/
theorem settlement_gated_alone :
    ∃ pid userId body,
      settlementRow (settlementId spelled body) body = settled
      ∧ Gate pid userId body (Run.run (rfq spelled).step
        (idle (executed (some "alice"))) (settleChecks "alice")).shared := by
  have hstep : (rfq spelled).step (Run.run (rfq spelled).step
      (idle (executed (some "alice"))) (settleChecks "alice")) (go 0)
      = .ok (Run.run (rfq spelled).step (idle (executed (some "alice")))
        (settleChecks "alice" ++ [go 0])) := rfl
  have htr := Run.accepted_concat_ok hstep
  obtain ⟨pid, c, userId, body, -, -, hrow, hgate⟩ :=
    settlement_gated spelled (executed (some "alice"))
      (consistent_executed _) (settleChecks "alice" ++ [go 0])
      ⟨_, go 0, _⟩ (htr ▸ List.mem_concat_self) settled
      List.mem_cons_self (fun r hr => by cases hr)
  exact ⟨pid, userId, body, hrow.symm, hgate⟩

/-- A settlement goes in for an intent without an owner, with its
nullifier spent and the newest fill of its quote not executed. -/
theorem settled_after_spend :
    let before := (Run.run (rfq spelled).step (idle (executed none))
      (settleChecks "bob" ++ meanwhile)).shared.tables
    let after := (Run.run (rfq spelled).step (idle (executed none))
      (settleChecks "bob" ++ meanwhile ++ [go 0])).shared.tables
    before.settlements.rows = []
      ∧ after.settlements.rows = [settled]
      ∧ (∀ r ∈ before.intents.rows, r.user_id ≠ some "bob")
      ∧ settleBody.nullifier ∈ before.nullifierSpends
      ∧ ∀ f ∈ newestFills before settleBody.quote_id,
          f.state ≠ .EXECUTED := by
  refine ⟨rfl, rfl, ?_, List.mem_cons_self, ?_⟩
  · intro r hr
    obtain rfl := List.mem_singleton.mp hr
    decide
  · decide

end Lumix.Services.Rfq
