/-
One accepted quote for an intent.

An accept request looks for an acceptance of its own quote, and inserts
its row some statements later. Another quote of the intent is not looked
at, and a row that came in between makes the insertion do nothing, after
which the request succeeds all the same. So the intent has one
acceptance, and an acceptance that was returned is the one that is
stored, in the runs in which every row goes in before any other of its
intent (`one_acceptance`), and in other runs neither holds
(`accepted_again`).
-/
import Lumix.Services.Desk

namespace Lumix.Services.Rfq

variable {t t' : Tables} {w w' : World} {pid : ℕ} {q : Call}

-- ========================================================= what is asked

/-- No two acceptances are for one intent. -/
def Single (t : Tables) : Prop :=
  ∀ r ∈ t.acceptances.rows, ∀ r' ∈ t.acceptances.rows,
    r.intent_hash = r'.intent_hash → r = r'

/-- The acceptance is stored: of this quote, and for this intent. -/
def Stored (t : Tables) (id quoteId intentHash : String) : Prop :=
  ∃ r ∈ t.acceptances.rows, r.acceptance_id = id ∧ r.quote_id = quoteId
    ∧ r.intent_hash = intentHash

/-- An acceptance that goes in finds none of its intent, unless it is
there already. -/
def FirstOfIntent : Call → Choice → World → Prop
  | .insertAcceptance _, .fail, _ => True
  | .insertAcceptance row, _, w => ∀ r ∈ w.tables.acceptances.rows,
      r.intent_hash = row.intent_hash → r.acceptance_id = row.acceptance_id
  | _, _, _ => True

/-- If the event executes an insertion of an acceptance, it is the first
for its intent. -/
def Uncontested (tr : Run.Transition Desk DeskEvent) : Prop :=
  System.Meets (fun _ => True) (fun _ => FirstOfIntent) tr

/-- No acceptance of another quote has the id of one that goes in. -/
def IdApart : Call → Choice → World → Prop
  | .insertAcceptance _, .fail, _ => True
  | .insertAcceptance row, _, w => ∀ r ∈ w.tables.acceptances.rows,
      r.acceptance_id = row.acceptance_id → r.quote_id = row.quote_id
  | _, _, _ => True

/-- The digests of the ids do not collide. -/
def NoCollision (tr : Run.Transition Desk DeskEvent) : Prop :=
  System.Meets (fun _ => True) (fun _ => IdApart) tr

instance (q : Call) (c : Choice) (w : World) :
    Decidable (FirstOfIntent q c w) := by
  unfold FirstOfIntent
  split <;> infer_instance

instance (q : Call) (c : Choice) (w : World) :
    Decidable (IdApart q c w) := by
  unfold IdApart
  split <;> infer_instance

instance : DecidablePred Uncontested := fun tr =>
  inferInstanceAs (Decidable (System.Meets (fun _ => True)
    (fun _ => FirstOfIntent) tr))

instance : DecidablePred NoCollision := fun tr =>
  inferInstanceAs (Decidable (System.Meets (fun _ => True)
    (fun _ => IdApart) tr))

-- ========================================================= one statement

/-- Every insertion that was answered has its row stored. -/
def Recorded (w : World) : Prop :=
  ∀ look ∈ w.log, look.answered = true →
    ∀ row, look.call = .insertAcceptance row →
      Stored w.tables row.acceptance_id row.quote_id row.intent_hash

/-- An acceptance stays in the table. -/
theorem Stored.later {id quoteId intentHash : String}
    (h : Stored t id quoteId intentHash) (ht : t.Kept t') :
    Stored t' id quoteId intentHash := by
  obtain ⟨r, hr, hrest⟩ := h
  exact ⟨r, ht.acceptances r hr, hrest⟩

/-- A statement logs itself and nothing else. -/
theorem log_exec {c : Choice} {look : Look}
    (h : look ∈ (exec pid q c w).1.log) :
    look ∈ w.log ∨ look = ⟨pid, q, w.tables, (exec pid q c w).2.isOk⟩ := by
  cases c <;>
    exact (List.mem_append.mp h).imp id List.eq_of_mem_singleton

/-- The row that went in is the first of its intent. -/
theorem single_exec {c : Choice} (hfirst : FirstOfIntent q c w)
    (h : Single w.tables) : Single (exec pid q c w).1.tables := by
  have hnew : ∀ row ∈ (exec pid q c w).1.tables.acceptances.rows,
      row ∉ w.tables.acceptances.rows →
      ∀ r ∈ w.tables.acceptances.rows,
        r.intent_hash ≠ row.intent_hash := by
    intro row hrow hout r hr hintent
    rcases (effect_exec pid q c w).acceptances hrow with hin | ⟨hq, hapart⟩
    · exact hout hin
    · subst hq
      cases c with
      | fail => exact hout hrow
      | go draw => exact hapart r hr (.inl (hfirst r hr hintent))
      | lose draw => exact hapart r hr (.inl (hfirst r hr hintent))
  intro r hr r' hr' hintent
  by_cases hin : r ∈ w.tables.acceptances.rows
  · by_cases hin' : r' ∈ w.tables.acceptances.rows
    · exact h r hin r' hin' hintent
    · exact absurd hintent (hnew r' hr' hin' r hin)
  · by_cases hin' : r' ∈ w.tables.acceptances.rows
    · exact absurd hintent.symm (hnew r hr hin r' hin')
    · rcases (effect_exec pid q c w).acceptances hr with h | ⟨hq, -⟩
      · exact absurd h hin
      · rcases (effect_exec pid q c w).acceptances hr' with h' | ⟨hq', -⟩
        · exact absurd h' hin'
        · have hcall := hq.symm.trans hq'
          injection hcall

/-- An insertion that is answered has put its row in, or found it. -/
theorem stored_insert {row : AcceptanceRow} {c : Choice} {a : Unit}
    (hw : Consistent w.tables) (hrow : w.tables.Accepts row)
    (hfirst : FirstOfIntent (.insertAcceptance row) c w)
    (hapart : IdApart (.insertAcceptance row) c w)
    (h : (exec pid (.insertAcceptance row) c w).2 = .ok a) :
    Stored (exec pid (.insertAcceptance row) c w).1.tables
      row.acceptance_id row.quote_id row.intent_hash := by
  obtain ⟨draw, rfl, hperform, htables⟩ := exec_answered h
  rw [htables]
  simp only [perform] at hperform ⊢
  split at hperform
  · rename_i acceptances hinsert
    rcases insertGeneric_cases hinsert with
      ⟨rfl, r, hr, hclash⟩ | ⟨-, -, hrows⟩
    · -- the quote has an acceptance: it is for the same intent
      have hid : r.acceptance_id = row.acceptance_id := by
        rcases hclash with hid | hquote
        · exact hid
        · obtain ⟨quote, hmem, hqid, hintent⟩ := hrow
          have hsame := hw.intent hr hmem (hqid.trans hquote.symm)
          exact hfirst r hr (hsame.trans hintent)
      have hquote : r.quote_id = row.quote_id := hapart r hr hid
      obtain ⟨quote, hmem, hqid, hintent⟩ := hrow
      have hsame := hw.intent hr hmem (hqid.trans hquote.symm)
      exact ⟨r, hr, hid, hquote, hsame.trans hintent⟩
    · refine ⟨row, ?_, rfl, rfl, rfl⟩
      rw [hrows]
      exact List.mem_concat_self
  · cases hperform

/-- An acceptance that is answered is in the table, as long as no other
intent's id is the same. -/
theorem recorded_exec {c : Choice} (hw : Consistent w.tables)
    (hpre : Warranted pid q w) (hfirst : FirstOfIntent q c w)
    (hapart : IdApart q c w) (h : Recorded w) : Recorded (exec pid q c w).1 := by
  intro look hlook hanswered row hcall
  rcases log_exec hlook with hlook | rfl
  · exact (h look hlook hanswered row hcall).later
      (kept_exec pid q c w).tables
  · obtain rfl : q = .insertAcceptance row := hcall
    cases hr : (exec pid (.insertAcceptance row) c w).2 with
    | error e =>
        rw [hr] at hanswered
        cases hanswered
    | ok a => exact stored_insert hw hpre hfirst hapart hr

-- =============================================================== the runs

/-- The requests that are running know what they have to, before each
step too. -/
theorem guarded_before (hashes : Hashes) {t : Tables}
    (ht : Consistent t) {es : List DeskEvent}
    {tr : Run.Transition Desk DeskEvent}
    (htr : tr ∈ Run.accepted (rfq hashes).step (idle t) es) :
    System.Guarded (rfq hashes) desk
      (fun request r w => ∀ reply, r = .ok reply → Done hashes request reply w)
      tr.before := by
  obtain ⟨x, y, hsplit⟩ := List.mem_iff_append.mp htr
  obtain ⟨es', -, hrun, -⟩ := Run.accepted_split hsplit
  exact hrun ▸ guarded_desk hashes ht es'

/-- An uncontested event leaves each intent with one acceptance at
most. -/
theorem single_next {hashes : Hashes} {p p' : Desk} {e : DeskEvent}
    (hguarded : System.Guarded (rfq hashes) desk
      (fun request r w => ∀ reply, r = .ok reply → Done hashes request reply w) p)
    (hfirst : Uncontested ⟨p, e, p'⟩) (hapart : NoCollision ⟨p, e, p'⟩)
    (hmoved : (rfq hashes).Moved p e p')
    (h : Single p.shared.tables ∧ Recorded p.shared) :
    Single p'.shared.tables ∧ Recorded p'.shared := by
  cases hmoved with
  | started request => exact h
  | ran hi =>
      have hcall := hfirst _ (Machine.next_pending hi)
      exact ⟨single_exec hcall h.1, recorded_exec hguarded.inv
        (hguarded.pre desk_lawful hi) hcall
        (hapart _ (Machine.next_pending hi)) h.2⟩
  | killed hi => exact h
  | @happened e _ _ he =>
      injection he with he
      injection he with hworld
      subst hworld
      refine ⟨?_, fun look hlook hanswered row hcall => ?_⟩
      · have hsame : (p.shared.tables.happen e).acceptances
            = p.shared.tables.acceptances := by cases e <;> rfl
        unfold Single
        rw [hsame]
        exact h.1
      · exact (h.2 look hlook hanswered row hcall).later (kept_happen _ e)

/-- Where every acceptance goes in before any other of its intent, and
ids do not collide, an intent has one acceptance, and a request that has
accepted a quote has returned the one its intent has, from then on. -/
theorem one_acceptance (hashes : Hashes) (t : Tables)
    (ht : Consistent t) (hsingle : Single t) (es : List DeskEvent)
    (hids : ∀ tr ∈ Run.accepted (rfq hashes).step (idle t) es,
      NoCollision tr)
    (hes : ∀ tr ∈ Run.accepted (rfq hashes).step (idle t) es,
      Uncontested tr) :
    Single (Run.run (rfq hashes).step (idle t) es).shared.tables
      ∧ ∀ (i : ℕ) (user : Option String) (quoteId : String)
          (body : AcceptBody) (id : String),
        (Run.run (rfq hashes).step (idle t) es).procs[i]?
          = some ⟨.accept user quoteId body,
            some (.pure (.accepted id))⟩ →
        Stored (Run.run (rfq hashes).step (idle t) es).shared.tables id
          quoteId body.intent_hash := by
  have hrun : Single (Run.run (rfq hashes).step (idle t) es).shared.tables
      ∧ Recorded (Run.run (rfq hashes).step (idle t) es).shared := by
    refine Run.history_induction_of
      (fun tr => (Uncontested tr ∧ NoCollision tr)
        ∧ System.Guarded (rfq hashes) desk
          (fun request r w => ∀ reply, r = .ok reply →
            Done hashes request reply w)
          tr.before)
      (fun _ p => Single p.shared.tables ∧ Recorded p.shared)
      ⟨hsingle, fun look hlook => by cases hlook⟩
      (fun _ p p' e h hs _ htr =>
        single_next htr.2 htr.1.1 htr.1.2 (System.step_cases hs) h)
      es fun tr htr =>
        ⟨⟨hes tr htr, hids tr htr⟩, guarded_before hashes ht htr⟩
  refine ⟨hrun.1, fun i user quoteId body id hi => ?_⟩
  have hdone := (guarded_desk hashes ht es).finished desk_lawful hi _ rfl
  obtain ⟨userId, pid, -, rfl, look, hlook, -, hcall, hanswered, -⟩ := hdone
  exact hrun.2 look hlook hanswered _ hcall

-- ============================================================== two runs

/-- The clock stands at zero, and no other service answers. -/
def nowhere : Draw where
  now := 0
  pick := 0
  solver := ⟨"", "", "", 0⟩
  committee := none

/-- A quote for the one intent. -/
def quoteRow (quoteId : String) : QuoteRow :=
  ⟨quoteId, "intent", quoteId, "solver", 100⟩

/-- An intent with two quotes. -/
def quoted : Tables where
  intents := ⟨[⟨"intent", "key", 100, some "alice", none⟩], by decide⟩
  quotes := ⟨[quoteRow "quote 1", quoteRow "quote 2"], by decide⟩
  acceptances := .empty
  fills := .empty
  settlements := .empty
  mpcIntents := .empty
  mpcSessions := []
  proofJobs := []
  nullifierSpends := []
  rootMismatches := 0
  ledger := 0

/-- A digest that spells its text. -/
def spelled : Hashes := ⟨fun _ => "", fun _ => "", id⟩

/-- Alice accepts a quote. -/
def acceptBy (quoteId signature : String) : Request :=
  .accept (some "alice") quoteId ⟨"intent", signature⟩

/-- The request goes on. -/
def go (pid : ℕ) : DeskEvent := .run pid (.go nowhere)

/-- Another intent, with a quote of its own. -/
def market : Tables where
  __ := quoted
  intents := ⟨[⟨"intent", "key", 100, some "alice", none⟩,
    ⟨"intent 2", "key 2", 100, some "bob", none⟩], by decide⟩
  quotes := ⟨[quoteRow "quote 1", quoteRow "quote 2",
    ⟨"quote 3", "intent 2", "quote 3", "solver", 100⟩], by decide⟩

/-- There are no acceptances to begin with, -/
theorem consistent_market : Consistent market :=
  fun _ hrow => absurd hrow List.not_mem_nil

/-- so no intent has two. -/
theorem single_market : Single market :=
  fun _ hr => absurd hr List.not_mem_nil

/-- One request comes in twice, side by side, and another accepts the
quote of the other intent in between. -/
def acceptApart : List DeskEvent :=
  [.start (acceptBy "quote 1" "a"), .start (acceptBy "quote 1" "a"),
   .start (.accept (some "bob") "quote 3" ⟨"intent 2", "b"⟩),
   go 0, go 0, go 0, go 0, go 0, go 1, go 1, go 1, go 1, go 1,
   go 0, go 0, go 2, go 2, go 2, go 2, go 2, go 2, go 2, go 1, go 1]

/-- Two requests accept one quote side by side, and once they are done a
third accepts the other quote. -/
def acceptTogether : List DeskEvent :=
  [.start (acceptBy "quote 1" "a"), .start (acceptBy "quote 1" "b"),
   go 0, go 0, go 0, go 0, go 0, go 1, go 1, go 1, go 1, go 1,
   go 0, go 0, go 1, go 1,
   .start (acceptBy "quote 2" "c"),
   go 2, go 2, go 2, go 2, go 2, go 2, go 2]

/-- Three requests, two intents: each has the acceptance that was
returned. -/
theorem one_acceptance_apart :
    ∃ p, Run.run (rfq spelled).step (idle market) acceptApart = p
      ∧ p.shared.tables.acceptances.rows.length = 2
      ∧ Single p.shared.tables
      ∧ (∀ i < 2, p.procs[i]? = some ⟨acceptBy "quote 1" "a",
        some (.pure (.accepted (acceptanceId spelled "quote 1" "a")))⟩)
      ∧ Stored p.shared.tables (acceptanceId spelled "quote 1" "a")
        "quote 1" "intent"
      ∧ Stored p.shared.tables (acceptanceId spelled "quote 3" "b")
        "quote 3" "intent 2" := by
  have hids : ∀ tr ∈ Run.accepted (rfq spelled).step (idle market)
      acceptApart, NoCollision tr := by
    decide +kernel
  have hall : ∀ tr ∈ Run.accepted (rfq spelled).step (idle market)
      acceptApart, Uncontested tr := by
    decide +kernel
  obtain ⟨hsingle, hstored⟩ := one_acceptance spelled market
    consistent_market single_market acceptApart hids hall
  refine ⟨_, rfl, rfl, hsingle, ?_, ?_, ?_⟩
  · intro i hi
    match i with
    | 0 => rfl
    | 1 => rfl
    | i + 2 => omega
  · exact hstored 1 (some "alice") "quote 1" ⟨"intent", "a"⟩
      (acceptanceId spelled "quote 1" "a") rfl
  · exact hstored 2 (some "bob") "quote 3" ⟨"intent 2", "b"⟩
      (acceptanceId spelled "quote 3" "b") rfl

/-- The intent has two acceptances, and one that was returned is not
stored. -/
theorem accepted_again :
    ∃ r ∈ (Run.run (rfq spelled).step (idle quoted)
        acceptTogether).shared.tables.acceptances.rows,
      ∃ r' ∈ (Run.run (rfq spelled).step (idle quoted)
          acceptTogether).shared.tables.acceptances.rows,
        r.intent_hash = r'.intent_hash ∧ r.quote_id ≠ r'.quote_id
        ∧ (Run.run (rfq spelled).step (idle quoted)
            acceptTogether).procs[1]?
          = some ⟨acceptBy "quote 1" "b",
            some (.pure (.accepted (acceptanceId spelled "quote 1" "b")))⟩
        ∧ ¬Stored (Run.run (rfq spelled).step (idle quoted)
            acceptTogether).shared.tables
          (acceptanceId spelled "quote 1" "b") "quote 1" "intent" := by
  have hrows : (Run.run (rfq spelled).step (idle quoted)
      acceptTogether).shared.tables.acceptances.rows
      = [acceptanceRow spelled "alice" "quote 1" ⟨"intent", "a"⟩,
        acceptanceRow spelled "alice" "quote 2" ⟨"intent", "c"⟩] := rfl
  refine ⟨acceptanceRow spelled "alice" "quote 1" ⟨"intent", "a"⟩, ?_,
    acceptanceRow spelled "alice" "quote 2" ⟨"intent", "c"⟩, ?_, rfl, ?_, rfl, ?_⟩
  · rw [hrows]
    exact List.mem_cons_self
  · rw [hrows]
    exact List.mem_cons_of_mem _ List.mem_cons_self
  · decide
  · unfold Stored
    rw [hrows]
    decide

end Lumix.Services.Rfq
