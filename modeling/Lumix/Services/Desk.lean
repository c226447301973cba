/-
What the statements of the RFQ routes keep, and what a request knows
when it makes its two important ones.

No row of these tables is deleted, and the columns a route relies on are
written once: an intent keeps its owner, a quote its intent, an executed
fill stays executed (`Kept`). An acceptance is inserted for the intent
of its quote (`Consistent`). A settlement is inserted by a request that
has seen what `Gate` lists; part of it holds still when the row goes in,
and part of it is as old as the request's own look at it.
-/
import Lumix.Services.Rfq

namespace Lumix.Services.Rfq

variable {t t' : Tables} {w w' : World} {pid : ℕ} {q : Call}

-- =========================================================== what is kept

/-- No row is lost: intents keep their owners, quotes and acceptances
stay as they are, fills stay executed. -/
structure Tables.Kept (t t' : Tables) : Prop where
  intents : ∀ r ∈ t.intents.rows, ∃ r' ∈ t'.intents.rows,
    r'.intent_hash = r.intent_hash ∧ r'.user_id = r.user_id
  quotes : ∀ r ∈ t.quotes.rows, r ∈ t'.quotes.rows
  acceptances : ∀ r ∈ t.acceptances.rows, r ∈ t'.acceptances.rows
  fills : ∀ r ∈ t.fills.rows, ∃ r' ∈ t'.fills.rows,
    r'.fill_id = r.fill_id ∧ r'.quote_id = r.quote_id
      ∧ (r.state = .EXECUTED → r'.state = .EXECUTED)

namespace Tables.Kept

/-- Tables nobody touched. -/
theorem refl (t : Tables) : t.Kept t where
  intents r hr := ⟨r, hr, rfl, rfl⟩
  quotes _ hr := hr
  acceptances _ hr := hr
  fills r hr := ⟨r, hr, rfl, rfl, id⟩

/-- Kept over two stretches, kept over both. -/
theorem trans {t₁ t₂ t₃ : Tables} (h : t₁.Kept t₂) (h' : t₂.Kept t₃) :
    t₁.Kept t₃ where
  intents r hr := by
    obtain ⟨r₂, hr₂, hhash, howner⟩ := h.intents r hr
    obtain ⟨r₃, hr₃, hhash', howner'⟩ := h'.intents r₂ hr₂
    exact ⟨r₃, hr₃, hhash'.trans hhash, howner'.trans howner⟩
  quotes r hr := h'.quotes r (h.quotes r hr)
  acceptances r hr := h'.acceptances r (h.acceptances r hr)
  fills r hr := by
    obtain ⟨r₂, hr₂, hid, hquote, hstate⟩ := h.fills r hr
    obtain ⟨r₃, hr₃, hid', hquote', hstate'⟩ := h'.fills r₂ hr₂
    exact ⟨r₃, hr₃, hid'.trans hid, hquote'.trans hquote,
      fun hexecuted => hstate' (hstate hexecuted)⟩

end Tables.Kept

/-- An insertion leaves the rows as they were, or adds its own. -/
theorem insertGeneric_cases {α : Type} {Clash : α → α → Prop}
    [DecidableRel Clash] {t t' : Table α Clash} {row : α} {refs : Prop}
    [Decidable refs] (h : insertGeneric t row refs = .ok t') :
    (t' = t ∧ ∃ r ∈ t.rows, Clash r row)
      ∨ (refs ∧ (∀ r ∈ t.rows, ¬Clash r row)
        ∧ t'.rows = t.rows ++ [row]) := by
  unfold insertGeneric at h
  split at h
  · rename_i hnone
    injection h with h
    exact .inl ⟨h.symm, Table.insert_eq_none.mp hnone⟩
  · rename_i t₁ hsome
    obtain ⟨hnew, hrows⟩ := Table.insert_eq_some hsome
    split at h
    · rename_i hrefs
      injection h with h
      exact .inr ⟨hrefs, hnew, h ▸ hrows⟩
    · cases h

/-- A row stays when another is inserted. -/
theorem mem_insertGeneric {α : Type} {Clash : α → α → Prop}
    [DecidableRel Clash] {t t' : Table α Clash} {row r : α} {refs : Prop}
    [Decidable refs] (h : insertGeneric t row refs = .ok t')
    (hr : r ∈ t.rows) : r ∈ t'.rows := by
  rcases insertGeneric_cases h with ⟨rfl, -⟩ | ⟨-, -, hrows⟩
  · exact hr
  · rw [hrows]
    exact List.mem_append_left _ hr

/-- Everything a statement can do to the tables. -/
inductive Effect (t : Tables) : Call → Tables → Prop
  | same {q : Call} : Effect t q t
  | intent {row : IntentRow} {intents : Table IntentRow IntentRow.Clash}
      (h : insertGeneric t.intents row True = .ok intents) :
      Effect t (.insertIntent row) { t with intents }
  | quote {row : QuoteRow} {quotes : Table QuoteRow QuoteRow.Clash}
      (h : insertGeneric t.quotes row (t.hasIntent row.intent_hash)
        = .ok quotes) :
      Effect t (.insertQuote row) { t with quotes }
  | acceptance {row : AcceptanceRow}
      {acceptances : Table AcceptanceRow AcceptanceRow.Clash}
      (h : insertGeneric t.acceptances row
          (t.hasQuote row.quote_id ∧ t.hasIntent row.intent_hash)
        = .ok acceptances) :
      Effect t (.insertAcceptance row) { t with acceptances }
  | fill {fillId : String} {body : FillBody} {row : FillRow}
      {fills : Table FillRow FillRow.Clash}
      (h : insertGeneric t.fills row (t.hasQuote body.quote_id)
        = .ok fills) :
      Effect t (.insertFill fillId body) { t with fills }
  | executed (fillId : String) (destinationTxHash : String) :
      Effect t (.executeFill fillId destinationTxHash)
        (t.executeFill fillId destinationTxHash)
  | settlement {requester settlementId : String} {body : SettleBody}
      {settlements : Table SettlementRow SettlementRow.Clash}
      (h : insertGeneric t.settlements (settlementRow settlementId body)
        (SettleRefs t body) = .ok settlements) :
      Effect t (.insertSettlement requester settlementId body)
        { t with settlements }
  | owned (settlementId : String) (userId : String) :
      Effect t (.setRowUser settlementId userId)
        (t.setRowUser settlementId userId)
  | session (sessionId : String) :
      Effect t (.ensureSession sessionId)
        { t with mpcSessions := sessionId :: t.mpcSessions }
  | routed (intentHash sessionId : String) :
      Effect t (.upsertMpcIntent intentHash sessionId)
        (t.upsertMpcIntent intentHash sessionId)
  | linked (sessionId : Option String) (intentHash : String) :
      Effect t (.linkIntent sessionId intentHash)
        (t.linkIntent sessionId intentHash)

/-- A statement that runs has the effect of its kind. -/
theorem effect_perform (draw : Draw) (t : Tables) (q : Call) :
    Effect t q (perform draw t q).1 := by
  cases q with
  | insertIntent row =>
      simp only [perform]
      split
      · exact .intent ‹_›
      · exact .same
  | insertQuote row =>
      simp only [perform]
      split
      · exact .quote ‹_›
      · exact .same
  | insertAcceptance row =>
      simp only [perform]
      split
      · exact .acceptance ‹_›
      · exact .same
  | insertLock quoteId =>
      simp only [perform]
      split <;> exact .same
  | insertFill fillId body =>
      simp only [perform]
      split
      · exact .fill ‹_›
      · exact .same
  | executeFill fillId destinationTxHash => exact .executed _ _
  | insertSettlement requester settlementId body =>
      simp only [perform]
      split
      · exact .same
      · split
        · exact .settlement ‹_›
        · exact .same
  | setRowUser settlementId userId => exact .owned _ _
  | ensureSession sessionId => exact .session _
  | upsertMpcIntent intentHash sessionId =>
      simp only [perform]
      split
      · exact .routed _ _
      · exact .same
  | insertShare intentHash nodeId =>
      simp only [perform]
      split <;> exact .same
  | linkIntent sessionId intentHash =>
      simp only [perform]
      split
      · exact .linked _ _
      · exact .same
  | _ => exact .same

/-- A statement has the effect of its kind, or none. -/
theorem effect_exec (pid : ℕ) (q : Call) (c : Choice) (w : World) :
    Effect w.tables q (exec pid q c w).1.tables := by
  cases c with
  | go draw => exact effect_perform draw w.tables q
  | fail => exact .same
  | lose draw => exact effect_perform draw w.tables q

/-- No statement loses a row. -/
theorem Effect.kept (h : Effect t q t') : t.Kept t' := by
  have hsame := Tables.Kept.refl t
  cases h with
  | intent h =>
      exact { hsame with
        intents := fun r hr => ⟨r, mem_insertGeneric h hr, rfl, rfl⟩ }
  | quote h =>
      exact { hsame with quotes := fun r hr => mem_insertGeneric h hr }
  | acceptance h =>
      exact { hsame with acceptances := fun r hr => mem_insertGeneric h hr }
  | fill h =>
      exact { hsame with
        fills := fun r hr => ⟨r, mem_insertGeneric h hr, rfl, rfl, id⟩ }
  | executed fillId destinationTxHash =>
      exact { hsame with
        fills := fun r hr =>
          ⟨_, List.mem_map_of_mem hr, markExecuted_keys _ _ r⟩ }
  | linked sessionId intentHash =>
      exact { hsame with
        intents := fun r hr =>
          ⟨_, List.mem_map_of_mem hr, (setSession_keys _ _ r).1,
            (setSession_keys _ _ r).2.2⟩ }
  | _ => exact { hsame with }

/-- Nor does what happens outside. -/
theorem kept_happen (t : Tables) (e : Outside) : t.Kept (t.happen e) := by
  have hsame := Tables.Kept.refl t
  cases e <;> exact { hsame with }

/-- Rows are kept, and what is logged stays so. -/
structure Kept (w w' : World) : Prop where
  tables : w.tables.Kept w'.tables
  log : ∀ look ∈ w.log, look ∈ w'.log

/-- A moment in which nothing happened. -/
theorem Kept.refl (w : World) : Kept w w :=
  ⟨.refl _, fun _ h => h⟩

/-- Kept over two stretches, kept over both. -/
theorem Kept.trans {w₁ w₂ w₃ : World} (h : Kept w₁ w₂)
    (h' : Kept w₂ w₃) : Kept w₁ w₃ :=
  ⟨h.tables.trans h'.tables, fun look hlook => h'.log look (h.log look hlook)⟩

/-- Every statement keeps the rows and the book. -/
theorem kept_exec (pid : ℕ) (q : Call) (c : Choice) (w : World) :
    Kept w (exec pid q c w).1 := by
  refine ⟨(effect_exec pid q c w).kept, fun look hlook => ?_⟩
  cases c <;> exact List.mem_append_left _ hlook

/-- A statement is logged with the tables it found. -/
theorem look_exec (pid : ℕ) (q : Call) (c : Choice) (w : World) :
    (⟨pid, q, w.tables, (exec pid q c w).2.isOk⟩ : Look)
      ∈ (exec pid q c w).1.log := by
  cases c <;> exact List.mem_append_right _ (List.mem_singleton_self _)

/-- A statement that was answered ran. -/
theorem exec_answered {c : Choice} {a : q.Answer}
    (h : (exec pid q c w).2 = .ok a) :
    ∃ draw, c = .go draw ∧ (perform draw w.tables q).2 = .ok a
      ∧ (exec pid q c w).1.tables = (perform draw w.tables q).1 := by
  cases c with
  | go draw => exact ⟨draw, rfl, h, rfl⟩
  | fail => cases h
  | lose draw => cases h

-- ====================================================== acceptances

/-- An acceptance is of a quote, for its intent. -/
def Tables.Accepts (t : Tables) (row : AcceptanceRow) : Prop :=
  ∃ quote ∈ t.quotes.rows, quote.quote_id = row.quote_id
    ∧ quote.intent_hash = row.intent_hash

/-- Every acceptance is one the settle route may record. -/
def Consistent (t : Tables) : Prop :=
  ∀ row ∈ t.acceptances.rows, t.Accepts row

/-- What may be recorded now may be recorded later. -/
theorem Tables.Accepts.later {row : AcceptanceRow} (h : t.Accepts row)
    (ht : t.Kept t') : t'.Accepts row := by
  obtain ⟨quote, hquote, hid, hintent⟩ := h
  exact ⟨quote, ht.quotes quote hquote, hid, hintent⟩

/-- A row of `quote_acceptances` after a statement. -/
theorem Effect.acceptances (h : Effect t q t') {row : AcceptanceRow}
    (hrow : row ∈ t'.acceptances.rows) :
    row ∈ t.acceptances.rows
      ∨ (q = .insertAcceptance row
        ∧ ∀ r ∈ t.acceptances.rows, ¬AcceptanceRow.Clash r row) := by
  cases h with
  | acceptance h =>
      rcases insertGeneric_cases h with ⟨rfl, -⟩ | ⟨-, hnew, hrows⟩
      · exact .inl hrow
      · rw [hrows] at hrow
        rcases List.mem_append.mp hrow with hrow | hrow
        · exact .inl hrow
        · rw [List.mem_singleton] at hrow
          subst hrow
          exact .inr ⟨rfl, hnew⟩
  | _ => exact .inl hrow

/-- Of one quote there is one row, so its acceptance is for its intent. -/
theorem Consistent.intent (h : Consistent t) {row : AcceptanceRow}
    {quote : QuoteRow} (hrow : row ∈ t.acceptances.rows)
    (hquote : quote ∈ t.quotes.rows) (hid : quote.quote_id = row.quote_id) :
    row.intent_hash = quote.intent_hash := by
  obtain ⟨quote', hquote', hid', hintent⟩ := h row hrow
  have hsame := t.quotes.eq_of_clash hquote' hquote
    (.inl (hid'.trans hid.symm))
  rw [← hintent, hsame]

-- ============================================================== the gate

/-- A statement that the request itself has made, and the tables it
found. -/
def Seen (pid : ℕ) (q : Call) (P : Tables → Prop) (w : World) : Prop :=
  ∃ look ∈ w.log, look.pid = pid ∧ look.call = q ∧ look.answered = true
    ∧ P look.tables

/-- What a request for a settlement has established when its row goes
in. Intent, quote and acceptance are there now, and so is an executed
fill; that it was the newest, that the proof was ready and that the
nullifier was free are as old as the look at them. -/
structure Gate (pid : ℕ) (userId : String) (body : SettleBody)
    (w : World) : Prop where
  intent : ∃ r ∈ w.tables.intents.rows, r.intent_hash = body.intent_hash
    ∧ (r.user_id = none ∨ r.user_id = some userId)
  quote : ∃ r ∈ w.tables.quotes.rows, r.quote_id = body.quote_id
    ∧ r.intent_hash = body.intent_hash
  accepted : ∃ r ∈ w.tables.acceptances.rows, r.quote_id = body.quote_id
    ∧ r.intent_hash = body.intent_hash
  fill : ∃ r ∈ w.tables.fills.rows, r.quote_id = body.quote_id
    ∧ r.state = .EXECUTED
    ∧ Seen pid (.latestFill body.quote_id)
      (fun t => ∃ f ∈ newestFills t body.quote_id, f.fill_id = r.fill_id
        ∧ f.state = .EXECUTED) w
  proof : Seen pid (.selectProofJob body.proof_job_id)
    (fun t => ∃ job ∈ t.proofJobs, job.proof_job_id = body.proof_job_id
      ∧ job.status = .ready) w
  nullifier : Seen pid (.selectSpend body.nullifier)
      (fun t => body.nullifier ∉ t.nullifierSpends) w
    ∨ ∃ look ∈ w.log, look.pid = pid
      ∧ look.call = .selectSpend body.nullifier ∧ look.answered = false

/-- What was seen was seen. -/
theorem Seen.later {P : Tables → Prop} (h : Seen pid q P w)
    (hw : Kept w w') : Seen pid q P w' := by
  obtain ⟨look, hlook, hrest⟩ := h
  exact ⟨look, hw.log look hlook, hrest⟩

/-- A statement that has been answered has been seen. -/
theorem seen_exec {c : Choice} {a : q.Answer} {P : Tables → Prop}
    (h : (exec pid q c w).2 = .ok a) (hP : P w.tables) :
    Seen pid q P (exec pid q c w).1 :=
  ⟨_, look_exec pid q c w, rfl, rfl, by rw [h]; rfl, hP⟩

-- ======================================================= the discipline

/-- What a request knows when it makes the statement. -/
def Warranted (pid : ℕ) : Call → World → Prop
  | .insertAcceptance row, w => w.tables.Accepts row
  | .insertSettlement userId _ body, w => Gate pid userId body w
  | _, _ => True

/-- What the routes promise each other: acceptances are consistent, and
no row is lost. -/
def desk : Discipline Call World Choice where
  Inv w := Consistent w.tables
  Rely _ := Kept
  Pre := Warranted
  Allow _ _ _ _ := True

/-- The statements keep it. -/
theorem desk_lawful : desk.Lawful exec where
  refl _ := .refl
  trans _ _ _ _ := .trans
  keeps pid q c w hw hpre _ := by
    have hkept := kept_exec pid q c w
    refine ⟨fun row hrow => ?_, fun _ _ => hkept⟩
    rcases (effect_exec pid q c w).acceptances hrow with
      hrow | ⟨rfl, -⟩
    · exact (hw row hrow).later hkept.tables
    · exact Tables.Accepts.later hpre hkept.tables

/-- In every outcome alike. -/
theorem desk_uniform : desk.Uniform exec :=
  fun _ pid q c w _ _ _ => kept_exec pid q c w

/-- What an accept request that has succeeded has done. -/
def Done (hashes : Hashes) : Request → Reply → World → Prop
  | .accept user quoteId body, .accepted id, w =>
      ∃ userId pid, user = some userId
        ∧ id = (acceptanceRow hashes userId quoteId body).acceptance_id
        ∧ Seen pid
          (.insertAcceptance (acceptanceRow hashes userId quoteId body))
          (fun _ => True) w
  | _, _, _ => True

/-- Statements that need no knowledge. -/
def Plain : Call → Prop
  | .insertAcceptance _ => False
  | .insertSettlement _ _ _ => False
  | _ => True

/-- A statement that records no acceptance needs no warrant. -/
theorem warranted_of_plain {q : Call} (h : Plain q) :
    Warranted pid q w := by
  cases q with
  | insertAcceptance row => exact h.elim
  | insertSettlement userId settlementId body => exact h.elim
  | _ => trivial

/-- A route of plain statements keeps what the request knows. -/
theorem safe_plain {α : Type} {p : Route α} (h : p.Uses Plain)
    {I : World → Prop} (hI : ∀ w w', I w → Kept w w' → I w') (hw : I w) :
    desk.Safe exec pid (fun r w' => ∀ a, r = .ok a → I w') p w :=
  (Discipline.Safe.frame desk_uniform hI
    (.of_uses (fun _ _ _ => warranted_of_plain) h) hw).mono
    fun _ _ _ hpost _ _ => hpost.2

/-- Reading an intent's owner records no acceptance. -/
theorem uses_requireOwnedIntent (userId intentHash : String) :
    (requireOwnedIntent userId intentHash).Uses Plain :=
  (Prog.uses_query trivial).bind fun _ => Prog.uses_ofExcept _

/-- Nor does reading the auditor's findings, -/
theorem uses_assertRootHealthy : assertRootHealthy.Uses Plain :=
  (Prog.Uses.handle (Prog.uses_query trivial)
    fun _ => Prog.uses_pure _).bind fun _ => Prog.uses_ofExcept _

/-- recording a session, -/
theorem uses_recordSession (intentHash : String) (shares : List String)
    (mpcSessionId : Option String) :
    (recordSession intentHash shares mpcSessionId).Uses Plain := by
  have hrest : (do
      ask (.upsertMpcIntent intentHash (mpcSessionId.getD "unknown"))
      shares.forM fun nodeId => ask (.insertShare intentHash nodeId)
      ask (.linkIntent mpcSessionId intentHash)
      ask .record).Uses Plain :=
    (Prog.uses_query trivial).bind fun _ =>
      (Prog.Uses.forM fun _ _ => Prog.uses_query trivial).bind fun _ =>
        (Prog.uses_query trivial).bind fun _ => Prog.uses_query trivial
  unfold recordSession
  cases mpcSessionId with
  | none => exact hrest
  | some sessionId => exact (Prog.uses_query trivial).bind fun _ => hrest

/-- routing to the committee, -/
theorem uses_routeToCommittee (intentHash : String)
    (shares : List String) :
    (routeToCommittee intentHash shares).Uses Plain := by
  unfold routeToCommittee
  refine (Prog.Uses.handle (Prog.uses_query trivial)
    fun _ => Prog.uses_pure _).bind fun answer => ?_
  cases answer with
  | none => trivial
  | some mpcSessionId =>
      exact (Prog.Uses.handle (uses_recordSession _ _ _)
        fun _ => Prog.uses_pure _).bind fun _ => Prog.uses_pure _

/-- creating an intent, -/
theorem uses_createIntent (hashes : Hashes) (user : Option String)
    (body : IntentBody) (idempotencyKey : String) :
    (createIntent hashes user body idempotencyKey).Uses Plain := by
  unfold createIntent
  refine (Prog.uses_ofExcept _).bind fun userId => ?_
  refine (Prog.uses_query trivial).bind fun _ => ?_
  refine (Prog.uses_query trivial).bind fun _ => ?_
  refine (Prog.uses_query trivial).bind fun _ => ?_
  split
  · exact (uses_routeToCommittee _ _).bind fun _ => trivial
  · trivial

/-- requesting quotes, -/
theorem uses_requestQuotes (user : Option String) (intentHash : String)
    (solverUrl : Bool) :
    (requestQuotes user intentHash solverUrl).Uses Plain := by
  unfold requestQuotes
  refine (Prog.uses_ofExcept _).bind fun userId => ?_
  refine (uses_requireOwnedIntent _ _).bind fun _ => ?_
  split
  · exact (Prog.uses_query trivial).bind fun _ =>
      (Prog.uses_query trivial).bind fun _ => trivial
  · exact (Prog.uses_query trivial).bind fun _ => trivial

/-- recording a quote, -/
theorem uses_solverQuote (hashes : Hashes) (body : QuoteBody) :
    (solverQuote hashes body).Uses Plain :=
  (Prog.uses_query trivial).bind fun _ =>
    (Prog.uses_query trivial).bind fun _ => trivial

/-- a lock, -/
theorem uses_lock (quoteId : String) : (lock quoteId).Uses Plain :=
  (Prog.uses_query trivial).bind fun _ =>
    (Prog.uses_query trivial).bind fun _ => trivial

/-- creating a fill, -/
theorem uses_createFill (hashes : Hashes) (body : FillBody) :
    (createFill hashes body).Uses Plain :=
  (Prog.uses_query trivial).bind fun _ =>
    (Prog.uses_query trivial).bind fun _ => trivial

/-- executing it, -/
theorem uses_executeFill (fillId : String)
    (destinationTxHash : Option String) :
    (executeFill fillId destinationTxHash).Uses Plain :=
  (Prog.uses_ofExcept _).bind fun _ =>
    (Prog.uses_query trivial).bind fun _ =>
      (Prog.uses_ofExcept _).bind fun _ =>
        (Prog.uses_query trivial).bind fun _ => trivial

/-- reading a lifecycle -/
theorem uses_rfqLifecycle (intentHash quoteId : String) :
    (rfqLifecycle intentHash quoteId).Uses Plain :=
  (Prog.uses_query trivial).bind fun _ =>
    (Prog.uses_query trivial).bind fun _ =>
      (Prog.uses_query trivial).bind fun _ =>
        (Prog.uses_query trivial).bind fun _ => trivial

/-- or a match. -/
theorem uses_requireMatch (intentHash : String)
    (intentRow : Option IntentRow) :
    (requireMatch intentHash intentRow).Uses Plain := by
  unfold requireMatch
  split
  · trivial
  · exact (Prog.uses_query trivial).bind fun _ => Prog.uses_ofExcept _

-- ============================================================ the requests

/-- What a request knows once it has read the lifecycle. -/
structure Read (pid : ℕ) (intentHash quoteId : String) (lc : Lifecycle)
    (w : World) : Prop where
  intent : ∀ r, lc.intent = some r → r.intent_hash = intentHash
    ∧ ∃ r' ∈ w.tables.intents.rows, r'.intent_hash = r.intent_hash
      ∧ r'.user_id = r.user_id
  quote : ∀ r, lc.quote = some r →
    r.quote_id = quoteId ∧ r ∈ w.tables.quotes.rows
  accepted : lc.accepted = true →
    ∃ r ∈ w.tables.acceptances.rows, r.quote_id = quoteId
  fill : ∀ f, lc.fill = some f → f.quote_id = quoteId
    ∧ (∃ r ∈ w.tables.fills.rows, r.fill_id = f.fill_id
      ∧ r.quote_id = f.quote_id
      ∧ (f.state = .EXECUTED → r.state = .EXECUTED))
    ∧ Seen pid (.latestFill quoteId) (fun t => f ∈ newestFills t quoteId) w

/-- A lifecycle that was read was read. -/
theorem Read.later {intentHash quoteId : String} {lc : Lifecycle}
    (h : Read pid intentHash quoteId lc w) (hw : Kept w w') :
    Read pid intentHash quoteId lc w' where
  intent r hr := by
    obtain ⟨hhash, r', hr', hsame, howner⟩ := h.intent r hr
    obtain ⟨r'', hr'', hsame', howner'⟩ := hw.tables.intents r' hr'
    exact ⟨hhash, r'', hr'', hsame'.trans hsame, howner'.trans howner⟩
  quote r hr :=
    ⟨(h.quote r hr).1, hw.tables.quotes r (h.quote r hr).2⟩
  accepted haccepted := by
    obtain ⟨r, hr, hid⟩ := h.accepted haccepted
    exact ⟨r, hw.tables.acceptances r hr, hid⟩
  fill f hf := by
    obtain ⟨hquote, ⟨r, hr, hid, hsame, hstate⟩, hseen⟩ := h.fill f hf
    obtain ⟨r', hr', hid', hsame', hstate'⟩ := hw.tables.fills r hr
    exact ⟨hquote, ⟨r', hr', hid'.trans hid, hsame'.trans hsame,
      fun hexecuted => hstate' (hstate hexecuted)⟩, hseen.later hw⟩

/-- The newest fills of a quote are fills of the quote. -/
theorem mem_newestFills {quoteId : String} {f : FillRow}
    (h : f ∈ newestFills t quoteId) :
    f ∈ t.fills.rows ∧ f.quote_id = quoteId := by
  have hrow := (List.mem_filter.mp h).1
  exact ⟨(List.mem_filter.mp hrow).1,
    of_decide_eq_true (List.mem_filter.mp hrow).2⟩

/-- What is found is there, and is what was looked for. -/
theorem mem_of_find? {α : Type} {p : α → Prop} [DecidablePred p]
    {rows : List α} {r : α} (h : rows.find? (fun a => p a) = some r) :
    r ∈ rows ∧ p r := by
  have hfound := List.find?_some h
  exact ⟨List.mem_of_find?_eq_some h, of_decide_eq_true hfound⟩

/-- The lifecycle that is returned was read. -/
theorem safe_rfqLifecycle (intentHash quoteId : String) :
    desk.Safe exec pid
      (fun r w' => ∀ lc, r = .ok lc → Read pid intentHash quoteId lc w')
      (rfqLifecycle intentHash quoteId) w := by
  unfold rfqLifecycle
  refine .query_then fun w₁ _ =>
    ⟨trivial, fun c₁ _ intent hintent => ?_⟩
  refine .query_then fun w₂ hw₂ =>
    ⟨trivial, fun c₂ _ quote hquote => ?_⟩
  refine .query_then fun w₃ hw₃ =>
    ⟨trivial, fun c₃ _ accepted haccepted => ?_⟩
  refine .query_then fun w₄ hw₄ => ⟨trivial, fun c₄ _ fill hfill => ?_⟩
  intro w₅ hw₅ lc hlc
  injection hlc with hlc
  have hkept₄ : Kept w₄ w₅ := (kept_exec pid _ c₄ w₄).trans hw₅.1
  have hkept₃ : Kept w₃ w₅ :=
    (kept_exec pid _ c₃ w₃).trans (hw₄.1.trans hkept₄)
  have hkept₂ : Kept w₂ w₅ :=
    (kept_exec pid _ c₂ w₂).trans (hw₃.1.trans hkept₃)
  have hkept₁ : Kept w₁ w₅ :=
    (kept_exec pid _ c₁ w₁).trans (hw₂.1.trans hkept₂)
  subst hlc
  constructor
  · intro r hr
    obtain ⟨draw, -, hread, -⟩ := exec_answered hintent
    obtain ⟨hmem, hhash⟩ :=
      mem_of_find? ((Except.ok.inj hread).trans hr)
    exact ⟨hhash, hkept₁.tables.intents r hmem⟩
  · intro r hr
    obtain ⟨draw, -, hread, -⟩ := exec_answered hquote
    obtain ⟨hmem, hid⟩ := mem_of_find? ((Except.ok.inj hread).trans hr)
    exact ⟨hid, hkept₂.tables.quotes r hmem⟩
  · intro htrue
    obtain ⟨draw, -, hread, -⟩ := exec_answered haccepted
    obtain ⟨r, hr, hid⟩ :=
      List.any_eq_true.mp ((Except.ok.inj hread).trans htrue)
    exact ⟨r, hkept₃.tables.acceptances r hr, of_decide_eq_true hid⟩
  · intro f hf
    have hseen := exec_answered hfill
    obtain ⟨draw, -, hread, -⟩ := hseen
    have hmem : f ∈ newestFills w₄.tables quoteId :=
      List.mem_of_getElem? ((Except.ok.inj hread).trans hf)
    obtain ⟨hrow, hquote⟩ := mem_newestFills hmem
    exact ⟨hquote, hkept₄.tables.fills f hrow,
      (seen_exec hfill hmem).later hw₅.1⟩

/-- The acceptance an accept request inserts is for its quote's intent. -/
theorem safe_accept (hashes : Hashes) (user : Option String)
    (quoteId : String) (body : AcceptBody) (hw : Consistent w.tables) :
    desk.Safe exec pid
      (fun r w' => ∀ reply, r = .ok reply →
        Done hashes (.accept user quoteId body) reply w')
      (accept hashes user quoteId body) w := by
  unfold accept
  refine .ofExcept_then fun userId huser => ?_
  have huser : user = some userId := found_eq_ok.mp huser
  refine .bind_then desk_lawful (safe_plain (I := fun _ => True)
    (uses_requireOwnedIntent _ _) (fun _ _ h _ => h) trivial) hw fun _ w₁ hw₁ _ => ?_
  refine .bind_then desk_lawful (safe_rfqLifecycle _ _) hw₁
    fun lc w₂ hw₂ hread => ?_
  refine .ofExcept_then fun _ hcheck => ?_
  simp only [checkQuote, Exec.bind_eq_ok, found_eq_ok, reject_eq_ok,
    not_not] at hcheck
  obtain ⟨quote, hquote, -, hintent, -⟩ := hcheck
  obtain ⟨hid, hmem⟩ := hread.quote quote hquote
  refine .query_then fun w₃ hw₃ => ⟨⟨quote,
    hw₃.1.tables.quotes quote hmem, hid, hintent⟩,
    fun c _ a hinsert => ?_⟩
  refine .query_then fun w₄ hw₄ => ⟨trivial, fun c' _ _ _ => ?_⟩
  intro w₅ hw₅ reply hreply
  injection hreply with hreply
  subst hreply
  have hkept : Kept (exec pid (.insertAcceptance
      (acceptanceRow hashes userId quoteId body)) c w₃).1 w₅ :=
    hw₄.1.trans ((kept_exec pid _ c' w₄).trans hw₅.1)
  exact ⟨userId, pid, huser, rfl,
    (seen_exec hinsert trivial).later hkept⟩

/-- The look at a nullifier that lets a settlement pass. -/
def FreeNullifier (pid : ℕ) (nullifier : String) (w : World) : Prop :=
  Seen pid (.selectSpend nullifier)
      (fun t => nullifier ∉ t.nullifierSpends) w
    ∨ ∃ look ∈ w.log, look.pid = pid ∧ look.call = .selectSpend nullifier
      ∧ look.answered = false

/-- A nullifier that was free was free. -/
theorem FreeNullifier.later {nullifier : String}
    (h : FreeNullifier pid nullifier w) (hw : Kept w w') :
    FreeNullifier pid nullifier w' := by
  rcases h with hseen | ⟨look, hlook, hrest⟩
  · exact .inl (hseen.later hw)
  · exact .inr ⟨look, hw.log look hlook, hrest⟩

/-- A look at a nullifier, or a failed one. -/
theorem safe_isNullifierSpent (nullifier : String)
    (hw : Consistent w.tables) :
    desk.Safe exec pid
      (fun r w' => ∀ spent, r = .ok spent → ¬spent = true →
        FreeNullifier pid nullifier w')
      (isNullifierSpent nullifier) w := by
  unfold isNullifierSpent
  refine Discipline.Safe.handle desk_lawful
    (fun r w' => ∃ look ∈ w'.log, look.pid = pid
      ∧ look.call = .selectSpend nullifier ∧ look.answered = r.isOk
      ∧ ∀ b, r = .ok b → b = decide (nullifier ∈ look.tables.nullifierSpends))
    (.query fun w₁ _ => ⟨trivial, fun c _ w₂ hw₂ => ?_⟩) hw ?_ ?_
  · refine ⟨_, hw₂.1.log _ (look_exec pid _ c w₁), rfl, rfl, rfl, ?_⟩
    intro b hb
    obtain ⟨draw, -, hread, -⟩ := exec_answered hb
    exact (Except.ok.inj hread).symm
  · intro b w' _ hlook spent hspent hfree
    injection hspent with hspent
    obtain ⟨look, hmem, hpid, hcall, hanswered, hread⟩ := hlook
    refine .inl ⟨look, hmem, hpid, hcall, hanswered, ?_⟩
    rw [← hspent, hread b rfl, decide_eq_true_eq] at hfree
    exact hfree
  · intro e w' _ hlook w'' hw'' spent _ _
    obtain ⟨look, hmem, hpid, hcall, hanswered, -⟩ := hlook
    exact .inr ⟨look, hw''.1.log look hmem, hpid, hcall, hanswered⟩

/-- The proof job is there and ready. -/
def ReadyProof (t : Tables) (proofJobId : String) : Prop :=
  ∃ job ∈ t.proofJobs, job.proof_job_id = proofJobId ∧ job.status = .ready

/-- The checks, on what was read, open the gate. -/
theorem gate_of_checks {userId : String} {body : SettleBody}
    {lc : Lifecycle} {u : Unit} (hw : Consistent w.tables)
    (hread : Read pid body.intent_hash body.quote_id lc w)
    (hcheck : checkLifecycle userId body lc = .ok u)
    (hproof : Seen pid (.selectProofJob body.proof_job_id)
      (fun t => ReadyProof t body.proof_job_id) w)
    (hnullifier : FreeNullifier pid body.nullifier w) :
    Gate pid userId body w := by
  simp only [checkLifecycle, Exec.bind_eq_ok, found_eq_ok, reject_eq_ok,
    not_not, Bool.not_eq_false] at hcheck
  obtain ⟨intent, hintent, -, howner, quote, hquote, -, hsame, -, haccepted,
    fill, hfill, -, hexecuted, -⟩ := hcheck
  obtain ⟨hhash, r, hr, hrhash, hrowner⟩ := hread.intent intent hintent
  obtain ⟨hid, hmem⟩ := hread.quote quote hquote
  obtain ⟨row, hrow, hrowid⟩ := hread.accepted haccepted
  obtain ⟨hfquote, ⟨f, hf, hfid, hfsame, hstate⟩, hseen⟩ :=
    hread.fill fill hfill
  constructor
  · refine ⟨r, hr, hrhash.trans hhash, ?_⟩
    rw [hrowner]
    cases hcase : intent.user_id with
    | none => exact .inl rfl
    | some owner =>
        refine .inr (congrArg some ?_)
        by_contra hne
        exact howner ⟨owner, hcase, hne⟩
  · exact ⟨quote, hmem, hid, hsame⟩
  · refine ⟨row, hrow, hrowid, ?_⟩
    exact (hw.intent hrow hmem (hid.trans hrowid.symm)).trans hsame
  · refine ⟨f, hf, hfsame.trans hfquote, hstate hexecuted, ?_⟩
    obtain ⟨look, hlook, hpid, hcall, hanswered, hnewest⟩ := hseen
    exact ⟨look, hlook, hpid, hcall, hanswered,
      fill, hnewest, hfid.symm, hexecuted⟩
  · exact hproof
  · exact hnullifier

/-- A settle request that returns an acceptance did what it says. -/
theorem safe_settle (hashes : Hashes) (user : Option String)
    (body : SettleBody) (hw : Consistent w.tables) :
    desk.Safe exec pid
      (fun r w' => ∀ reply, r = .ok reply →
        Done hashes (.settle user body) reply w')
      (settle hashes user body) w := by
  unfold settle
  refine .ofExcept_then fun userId _ => ?_
  refine .bind_then desk_lawful (safe_plain (I := fun _ => True)
    uses_assertRootHealthy (fun _ _ h _ => h) trivial) hw
    fun _ w₁ hw₁ _ => ?_
  refine .bind_then desk_lawful (safe_rfqLifecycle _ _) hw₁
    fun lc w₂ hw₂ hread => ?_
  refine .ofExcept_then fun u hcheck => ?_
  refine .query_then fun w₃ hw₃ => ⟨trivial, fun c _ proof hselect => ?_⟩
  refine .ofExcept_then fun _ hready => ?_
  rw [reject_eq_ok, not_not] at hready
  obtain ⟨job, hjob, hstatus⟩ := hready
  -- what is known from here on, and stays so
  have hproof : Seen pid (.selectProofJob body.proof_job_id)
      (fun t => ReadyProof t body.proof_job_id)
      (exec pid (.selectProofJob body.proof_job_id) c w₃).1 := by
    obtain ⟨draw, -, hfind, -⟩ := exec_answered hselect
    obtain ⟨hmem, hid⟩ := mem_of_find? ((Except.ok.inj hfind).trans hjob)
    exact seen_exec hselect ⟨job, hmem, hid, hstatus⟩
  have hkept := kept_exec pid (.selectProofJob body.proof_job_id) c w₃
  have hread := hread.later (hw₃.1.trans hkept)
  generalize hw₄ : (exec pid (.selectProofJob body.proof_job_id) c w₃).1
    = w₄ at hproof hkept hread
  have hinv : Consistent w₄.tables := by
    rw [← hw₄]
    exact (desk_lawful.keeps pid (.selectProofJob body.proof_job_id) c
      w₃ hw₃.2 trivial trivial).1
  let I (w : World) : Prop :=
    Read pid body.intent_hash body.quote_id lc w
      ∧ Seen pid (.selectProofJob body.proof_job_id)
        (fun t => ReadyProof t body.proof_job_id) w
  have hI : ∀ w w', I w → Kept w w' → I w' := fun w w' h hw =>
    ⟨h.1.later hw, h.2.later hw⟩
  refine .bind_then (M := fun spent w' => (¬spent = true →
      FreeNullifier pid body.nullifier w') ∧ I w') desk_lawful
    (((safe_isNullifierSpent body.nullifier hinv).frame desk_uniform hI
      ⟨hread, hproof⟩).mono fun _ _ _ h spent hspent =>
        ⟨h.1 spent hspent, h.2⟩) hinv
    fun spent w₅ hw₅ hknown => ?_
  refine .ofExcept_then fun _ hfree => ?_
  have hfree := hknown.1 (reject_eq_ok.mp hfree)
  refine .query_then fun w₆ hw₆ => ⟨trivial, fun c₆ _ intentRow _ => ?_⟩
  have hkept₆ := hw₆.1.trans
    (kept_exec pid (.selectIntent body.intent_hash) c₆ w₆)
  let J (w : World) : Prop := FreeNullifier pid body.nullifier w ∧ I w
  have hJ : ∀ w w', J w → Kept w w' → J w' := fun w w' h hw =>
    ⟨h.1.later hw, hI w w' h.2 hw⟩
  refine .bind_then desk_lawful (safe_plain (I := J) (uses_requireMatch _ _)
    hJ (hJ _ _ ⟨hfree, hknown.2⟩ hkept₆))
    (desk_lawful.keeps pid (.selectIntent body.intent_hash) c₆ w₆ hw₆.2
      trivial trivial).1
    fun _ w₇ hw₇ hJ₇ => ?_
  refine .query_then fun w₈ hw₈ => ⟨?_, fun c₈ _ _ _ => ?_⟩
  · obtain ⟨hfree, hread, hproof⟩ := hJ _ _ hJ₇ hw₈.1
    exact gate_of_checks hw₈.2 hread hcheck hproof hfree
  refine .query_then fun w₉ _ => ⟨trivial, fun c₉ _ _ _ => ?_⟩
  refine .query_then fun w₁₀ _ => ⟨trivial, fun c₁₀ _ _ _ => ?_⟩
  refine .query_then fun w₁₁ _ => ⟨trivial, fun c₁₁ _ _ _ => ?_⟩
  intro w₁₂ _ reply _
  trivial

/-- A route of plain statements has nothing to show. -/
theorem safe_of_uses {hashes : Hashes} {request : Request} {p : Route Reply}
    (h : p.Uses Plain) (hdone : ∀ reply w, Done hashes request reply w) :
    desk.Safe exec pid
      (fun r w' => ∀ reply, r = .ok reply → Done hashes request reply w') p w :=
  (safe_plain (I := fun _ => True) h (fun _ _ h _ => h) trivial).mono
    fun _ _ _ _ reply _ => hdone reply _

/-- So every request. -/
theorem safe_code (hashes : Hashes) (request : Request)
    (hw : Consistent w.tables) :
    desk.Safe exec pid
      (fun r w' => ∀ reply, r = .ok reply → Done hashes request reply w')
      (request.code hashes) w := by
  cases request with
  | createIntent user body idempotencyKey =>
      exact safe_of_uses (uses_createIntent hashes user body _)
        fun _ _ => trivial
  | requestQuotes user intentHash solverUrl =>
      exact safe_of_uses (uses_requestQuotes user intentHash solverUrl)
        fun _ _ => trivial
  | solverQuote body =>
      exact safe_of_uses (uses_solverQuote hashes body) fun _ _ => trivial
  | accept user quoteId body => exact safe_accept hashes user quoteId body hw
  | lock quoteId =>
      exact safe_of_uses (uses_lock quoteId) fun _ _ => trivial
  | createFill body =>
      exact safe_of_uses (uses_createFill hashes body) fun _ _ => trivial
  | executeFill fillId destinationTxHash =>
      exact safe_of_uses (uses_executeFill fillId destinationTxHash)
        fun _ _ => trivial
  | settle user body => exact safe_settle hashes user body hw

/-- No requests are running, and nothing is logged. -/
def idle (t : Tables) : Desk := ⟨⟨t, []⟩, []⟩

/-- Whatever the requests and their order, each makes its statements
with what it has to know. -/
theorem guarded_desk (hashes : Hashes) {t : Tables}
    (ht : Consistent t) (es : List DeskEvent) :
    System.Guarded (rfq hashes) desk
      (fun request r w => ∀ reply, r = .ok reply → Done hashes request reply w)
      (Run.run (rfq hashes).step (idle t) es) := by
  have hmeets : ∀ tr ∈ Run.accepted (rfq hashes).step (idle t) es,
      System.Meets (fun _ => True) desk.Allow tr := by
    intro tr _
    unfold System.Meets
    split
    · trivial
    · exact fun _ _ => trivial
    · trivial
    · trivial
  refine System.guarded_run desk_lawful
    (fun request _ i w hw => safe_code hashes request hw) ?_
    ⟨ht, fun i task c hi => by cases hi⟩ hmeets
  intro e w w' ts hw hout
  injection hout with hout
  injection hout with hworld hts
  subst hworld hts
  have hkept : Kept w { w with tables := w.tables.happen e } :=
    ⟨kept_happen w.tables e, fun _ h => h⟩
  refine ⟨fun row hrow => ?_, fun _ => hkept, fun task htask => ?_⟩
  · have hrow : row ∈ w.tables.acceptances.rows := by
      cases e <;> exact hrow
    exact (hw row hrow).later hkept.tables
  · cases htask

end Lumix.Services.Rfq
