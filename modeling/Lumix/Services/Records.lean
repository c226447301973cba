/-
What the settler can know of a matched intent.

The API forwards an intent first and inserts its row afterwards. If the
committee matches it in between, marking it touches no row, the insert
then stores "pending", and a settler that comes by in the meantime puts
nulls into the job. Where every mark and every read of a note finds its
row, what has been marked stays marked, and each job carries what the
rows of its two intents say.
-/
import Lumix.Services.Settler

namespace Lumix.Services

open Discipline (Returns)
open Committee (MatchResult SignedMatchBatch)

variable {Key Plain : Type} {cfg : Committee.Config Key Plain} {pid : ℕ}
  {s s' : Shared Plain}

-- ====================================================== the statement

/-- The intent a finished submission has brought to the committee. -/
def submitted (p : Proc Call.Answer Fault Reply Task) : Option String :=
  match p.task, p.code with
  | .submitMpc _ body, some (.pure (.mpc (.accepted _))) =>
      some body.intentId
  | .submitRfq _ _, some (.pure (.rfq reply)) =>
      reply.mpcSessionId.map fun _ => reply.intentHash
  | _, _ => none

/-- The batch a finished call of `persistSignedBatch` was for. -/
def persisted (p : Proc Call.Answer Fault Reply Task) :
    Option SignedMatchBatch :=
  match p.task, p.code with
  | .persist _ batch, some (.pure _) => some batch
  | _, _ => none

/-- A process that persisted a batch is one that was to. -/
theorem persisted_eq_some {p : Proc Call.Answer Fault Reply Task}
    {batch : SignedMatchBatch} (h : persisted p = some batch) :
    ∃ sessionId r, p = ⟨.persist sessionId batch, some (.pure r)⟩ := by
  obtain ⟨task, code⟩ := p
  unfold persisted at h
  split at h
  · rename_i sessionId batch' r htask hcode
    injection h with hbatch
    subst hbatch
    exact ⟨sessionId, r, by rw [← htask, ← hcode]⟩
  · cases h

/-- The intent is marked as matched. -/
def Matched (intentId : String) (s : Shared Plain) : Prop :=
  ∃ row, s.mpcIntents.get intentId = some row ∧ row.status = .matched

/-- A note's nullifier and output commitment are those of the intent's
row. -/
def NoteOf (intentId : String) (nullifier outputCommitment : Option String)
    (s : Shared Plain) : Prop :=
  ∃ row, s.mpcIntents.get intentId = some row
    ∧ nullifier = some row.noteNullifier
    ∧ outputCommitment = some row.recipientCommitment

/-- The job's four words are those of the two intents' rows. -/
def Carries (p : SettlePayload) (s : Shared Plain) : Prop :=
  NoteOf p.intentAId p.nullifierA p.outputCommitmentA s
    ∧ NoteOf p.intentBId p.nullifierB p.outputCommitmentB s

/-- Every match that was persisted and submitted is marked, and every
settlement job carries its notes. -/
structure MatchesRecorded (m : Estate Plain) : Prop where
  matched : ∀ p ∈ m.procs, ∀ p' ∈ m.procs, ∀ intentId ∈ submitted p,
    ∀ batch ∈ persisted p',
    intentId ∈ batch.matchResults.flatMap MatchResult.ids →
    Matched intentId m.shared
  carried : ∀ (n : ℕ) job p, m.shared.jobs[n]? = some job →
    job.payload = .mpcSettle p → Carries p m.shared

/-- Whoever marks an intent, or reads its note, finds its row. -/
def RowFound (q : Call) (s : Shared Plain) : Prop :=
  match q with
  | .markMatched intentId _ => (s.mpcIntents.get intentId).isSome
  | .fetchIntentNote intentId => (s.mpcIntents.get intentId).isSome
  | _ => True

/-- `RowFound`, computed. -/
def findsRow (q : Call) (s : Shared Plain) : Bool :=
  match q with
  | .markMatched intentId _ => (s.mpcIntents.get intentId).isSome
  | .fetchIntentNote intentId => (s.mpcIntents.get intentId).isSome
  | _ => true

/-- It computes it. -/
theorem findsRow_iff (q : Call) (s : Shared Plain) :
    findsRow q s ↔ RowFound q s := by
  unfold findsRow RowFound
  split <;> simp

instance (q : Call) (s : Shared Plain) : Decidable (RowFound q s) :=
  decidable_of_bool (findsRow q s) (findsRow_iff q s)

-- ====================================================== the discipline

/-- A matched intent stays matched. -/
theorem Matched.later {intentId : String} (h : Matched intentId s)
    (hs : NotesKept s s') : Matched intentId s' := by
  obtain ⟨a, ha, hstatus⟩ := h
  obtain ⟨b, hb, hsame⟩ := hs intentId a ha
  exact ⟨b, hb, hsame.matched hstatus⟩

/-- A note stays an intent's. -/
theorem NoteOf.later {intentId : String}
    {nullifier outputCommitment : Option String}
    (h : NoteOf intentId nullifier outputCommitment s)
    (hs : NotesKept s s') : NoteOf intentId nullifier outputCommitment s' := by
  obtain ⟨a, ha, hn, hc⟩ := h
  obtain ⟨b, hb, hsame⟩ := hs intentId a ha
  exact ⟨b, hb, hsame.noteNullifier ▸ hn, hsame.recipientCommitment ▸ hc⟩

/-- So a job's words stay those of its intents. -/
theorem Carries.later {p : SettlePayload} (h : Carries p s)
    (hs : NotesKept s s') : Carries p s' :=
  ⟨h.1.later hs, h.2.later hs⟩

/-- Every settlement job in the queue carries its notes. -/
def JobsCarry (s : Shared Plain) : Prop :=
  ∀ (n : ℕ) job p, s.jobs[n]? = some job → job.payload = .mpcSettle p →
    Carries p s

/-- An inserted job carries what the rows say. -/
def CarriesOn (q : Call) (s : Shared Plain) : Prop :=
  match q with
  | .insertJob job => ∀ p, job.payload = .mpcSettle p → Carries p s
  | _ => True

/-- What the statements owe each other: settlement jobs carry their
notes, as long as every statement runs and finds its row. -/
def recording : Discipline Call (Shared Plain) Choice where
  Inv := JobsCarry
  Rely := fun _ => NotesKept
  Pre := fun _ => CarriesOn
  Allow := fun _ q c s => c.goes ∧ RowFound q s

/-- A job is inserted with the notes it was made of. -/
theorem jobsCarry_exec (q : Call) (c : Choice) (hs : JobsCarry s)
    (hpre : CarriesOn q s) : JobsCarry (exec cfg pid q c s).1 := by
  have heffect := effect_exec cfg pid q c s
  intro n job p hn hp
  rcases heffect.jobs.origin hn with ⟨a, ha, hsame⟩ | ⟨rfl, -, -⟩
  · exact (hs n a p ha (hsame.payload ▸ hp)).later heffect.notesKept
  · exact (hpre p hp).later heffect.notesKept

/-- The statements keep it. -/
theorem recording_lawful (cfg : Committee.Config Key Plain) :
    recording.Lawful (exec cfg) where
  refl := fun _ => NotesKept.refl
  trans := fun _ _ _ _ => NotesKept.trans
  keeps := fun pid q c s hs hpre _ =>
    ⟨jobsCarry_exec q c hs hpre, fun _ _ =>
      (effect_exec cfg pid q c s).notesKept⟩

/-- In every outcome alike. -/
theorem recording_uniform (cfg : Committee.Config Key Plain) :
    recording.Uniform (exec cfg) :=
  fun _ pid q c s _ _ _ => (effect_exec cfg pid q c s).notesKept

-- ========================================================== persisting

/-- A mark that finds its row marks it. -/
theorem safe_markMatched (intentId other : String) :
    recording.Safe (exec cfg) pid
      (fun r s' => ∀ a, r = .ok a → Matched intentId s')
      (query (.markMatched intentId other)) s := by
  refine Discipline.Safe.query fun s₁ _ =>
    ⟨trivial, fun c hc s₂ hs₂ a ha => ?_⟩
  obtain ⟨d, rfl, hok⟩ := exec_answered ha
  suffices h : Matched intentId
      (exec cfg pid (.markMatched intentId other) (.go d) s₁).1 from
    h.later hs₂.1
  obtain ⟨row, hrow⟩ := Option.isSome_iff_exists.mp hc.2
  simp only [perform, hrow] at hok
  by_cases hother : (s₁.mpcIntents.get other).isNone
  · simp [hother] at hok
  · refine ⟨{ row with status := .matched, matchedWith := some other },
      ?_, rfl⟩
    simp [exec, perform, hrow, hother, OrderedMap.get_modify]

/-- Both sides of a match are marked. -/
def BothMatched (m : MatchResult) (s : Shared Plain) : Prop :=
  Matched m.intentAId s ∧ Matched m.intentBId s

/-- Both intents of a match are marked. -/
theorem safe_markBoth (m : MatchResult) (hs : JobsCarry s) :
    recording.Safe (exec cfg) pid
      (fun r s' => ∀ a, r = .ok a → BothMatched m s') (markBoth m) s := by
  have L := recording_lawful cfg
  have U := recording_uniform cfg
  refine (safe_markMatched m.intentAId m.intentBId).bind L _ hs ?_
    fun e s' _ _ a ha => by cases ha
  intro _ s₁ _ hA
  refine ((safe_markMatched m.intentBId m.intentAId).frame U
    (I := Matched m.intentAId) (fun _ _ h hrely => h.later hrely)
    (hA () rfl)).mono ?_
  intro r s₂ _ ⟨hB, hA⟩ a ha
  exact ⟨hA, hB a ha⟩

/-- Persisting a batch marks the intents of all its matches. -/
theorem safe_persist_matched (sessionId : String)
    (batch : SignedMatchBatch) (hs : JobsCarry s) :
    recording.Safe (exec cfg) pid
      (fun r s' => ∀ a, r = .ok a →
        ∀ m ∈ batch.matchResults, BothMatched m s')
      (persistSignedBatch sessionId batch) s := by
  have L := recording_lawful cfg
  have hany : ∀ {α : Type} (p : Service α) (s₁ : Shared Plain),
      p.Uses (Persists sessionId batch) →
      recording.Safe (exec cfg) pid (fun _ _ => True) p s₁ :=
    fun p s₁ h => .of_uses (fun _ q _ hq => by cases q <;> trivial) h
  unfold persistSignedBatch
  refine Discipline.Safe.bind L (fun _ _ => True) (hany _ _ ?_) hs ?_
    fun e s' _ _ a ha => by cases ha
  · exact Prog.uses_query ⟨rfl, rfl⟩
  intro _ s₁ hs₁ _
  refine Discipline.Safe.bind L (fun _ _ => True) (hany _ _ ?_) hs₁ ?_
    fun e s' _ _ a ha => by cases ha
  · exact .forM fun _ _ => Prog.uses_query trivial
  intro _ s₂ hs₂ _
  refine Discipline.Safe.bind L (fun _ _ => True) (hany _ _ ?_) hs₂ ?_
    fun e s' _ _ a ha => by cases ha
  · exact Prog.uses_query trivial
  intro _ s₃ hs₃ _
  refine Discipline.Safe.forM L
    (fun pre s' => ∀ m ∈ pre, BothMatched m s') ?_ ?_ hs₃
    (fun m hm => by cases hm)
  · intro pre s₄ s₅ h hs' m hm
    exact ⟨(h m hm).1.later hs'.1, (h m hm).2.later hs'.1⟩
  · intro pre m suf _ s₄ hs₄ h
    refine ((safe_markBoth m hs₄).frame (recording_uniform cfg)
      (I := fun s' => ∀ m ∈ pre, BothMatched m s') ?_ h).mono ?_
    · intro s₅ s₆ h hrely m hm
      exact ⟨(h m hm).1.later hrely, (h m hm).2.later hrely⟩
    · intro r s₅ _ ⟨hm, hpre⟩ a ha m' hm'
      rcases List.mem_append.mp hm' with hm' | hm'
      · exact hpre m' hm'
      · rw [List.mem_singleton.mp hm']
        exact hm a ha

-- ============================================================= settling

/-- A note that was read is that of the intent's row. -/
def ReadFrom (intentId : String) (note : Option MpcIntentRow)
    (s : Shared Plain) : Prop :=
  NoteOf intentId (note.map (·.noteNullifier))
    (note.map (·.recipientCommitment)) s

/-- A note that is fetched is the row's. -/
theorem safe_fetchIntentNote (intentId : String) :
    recording.Safe (exec cfg) pid
      (fun r s' => ∀ note, r = .ok note → ReadFrom intentId note s')
      (fetchIntentNote intentId) s := by
  refine Discipline.Safe.query fun s₁ _ =>
    ⟨trivial, fun c hc s₂ hs₂ note hnote => ?_⟩
  obtain ⟨d, rfl, hok⟩ := exec_answered hnote
  injection hok with hok
  obtain ⟨row, hrow⟩ := Option.isSome_iff_exists.mp hc.2
  have hread : NoteOf intentId (some row.noteNullifier)
      (some row.recipientCommitment) s₁ := ⟨row, hrow, rfl, rfl⟩
  rw [← hok, hrow]
  exact hread.later hs₂.1

/-- The job queued for a match carries its notes, -/
theorem safe_queueMatch_carries (batchId : String) (row : BatchRow)
    (queued : ℕ) (p : MatchResult × ℕ) (hs : JobsCarry s) :
    recording.Safe (exec cfg) pid (fun _ _ => True)
      (queueMatch batchId row queued p) s := by
  have L := recording_lawful cfg
  have U := recording_uniform cfg
  have hrouted : recording.Safe (exec cfg) pid (fun _ _ => True)
      (both (isRfqRouted ⟨batchId, p.2, true⟩ p.1.intentAId)
        (isRfqRouted ⟨batchId, p.2, false⟩ p.1.intentBId)) s :=
    .of_uses (P := Reads) (fun _ q _ hq => by cases q <;> trivial)
      (uses_both (Prog.uses_query trivial) (Prog.uses_query trivial)
        (Prog.uses_query trivial))
  refine hrouted.bind L _ hs ?_ fun _ _ _ _ => trivial
  intro routed s₁ hs₁ _
  dsimp only
  split
  · exact fun _ _ => trivial
  refine (safe_both L U (I := fun _ => True)
    (X := ReadFrom p.1.intentAId) (Y := ReadFrom p.1.intentBId)
    (fun _ => trivial) (fun _ _ _ _ => trivial)
    (fun _ _ _ h hrely => h.later hrely)
    (fun _ _ _ h hrely => h.later hrely)
    (fun _ _ => safe_fetchIntentNote p.1.intentAId)
    (fun _ _ => safe_fetchIntentNote p.1.intentBId) trivial).bind L _ hs₁ ?_
    fun _ _ _ _ => trivial
  intro notes s₂ hs₂ hnotes
  have hcarries : Carries (settlePayload batchId row p.2 p.1 notes.1
      notes.2) s₂ := hnotes notes rfl
  refine (Discipline.Safe.of_uses_with U
    (I := Carries (settlePayload batchId row p.2 p.1 notes.1 notes.2))
    (fun _ _ h hrely => h.later hrely) ?_ (uses_enqueue ..)
    hcarries).bind L _ hs₂ (fun _ _ _ _ _ _ => trivial)
    fun _ _ _ _ => trivial
  intro q s₃ hq hcarries
  cases q <;> try trivial
  obtain rfl := hq
  intro p' hp'
  injection hp' with hp'
  exact hp' ▸ hcarries

/-- for every match of a batch, -/
theorem safe_queueSettlementJobs_carries (batchId : String)
    (row : BatchRow) (hs : JobsCarry s) :
    recording.Safe (exec cfg) pid (fun _ _ => True)
      (queueSettlementJobs batchId row) s := by
  have L := recording_lawful cfg
  refine Discipline.Safe.bind L (fun _ _ => True) ?_ hs ?_
    fun _ _ _ _ => trivial
  · refine (Discipline.Safe.foldlM L (fun _ _ _ => True)
      (fun _ _ _ _ _ _ => trivial) ?_ hs trivial).mono
      fun _ _ _ _ => trivial
    intro pre p suf _ queued s₁ hs₁ _
    exact (safe_queueMatch_carries batchId row queued p hs₁).mono
      fun _ _ _ _ _ _ => trivial
  · intro queued s₁ _ _
    exact Discipline.Safe.query fun _ _ => ⟨trivial, fun _ _ _ _ => trivial⟩

/-- and of every batch. -/
theorem safe_settleOnce_carries :
    recording.Safe (exec cfg) pid (fun _ _ => True) settleOnce s :=
  safe_settleOnce_of (recording_lawful cfg) (recording_uniform cfg)
    (F := fun _ _ _ => True) (fun _ => trivial) (fun _ _ _ _ _ => trivial)
    (fun _ _ _ _ _ _ => trivial)
    fun batchId row _ hs _ => safe_queueSettlementJobs_carries batchId row hs

-- ============================================================ every task

/-- What a call of `persistSignedBatch` has to show. -/
def Marked : Task → Except Fault Reply → Shared Plain → Prop
  | .persist _ batch, r, s =>
      ∀ a, r = .ok a → ∀ m ∈ batch.matchResults, BothMatched m s
  | _, _, _ => True

/-- The other tasks insert no job of the settler's. -/
theorem carriesOn_makes {hashJson : RfqBody → String} {t : Task}
    (hsettle : t ≠ .settle) (hserved : t.Served) {q : Call}
    (h : t.Makes hashJson q) (s : Shared Plain) : CarriesOn q s := by
  cases q with
  | insertJob job =>
      cases t with
      | settle => exact absurd rfl hsettle
      | submitMpc user body => cases h
      | submitRfq key body => rcases h with h | h <;> cases h
      | persist sessionId batch => cases h
      | relay work => cases h
      | prove proof => cases h
      | enqueue queue jobType payload key =>
          obtain ⟨job', json, htask⟩ := hserved
          injection htask with _ _ hpayload _
          obtain rfl := h
          intro p hp
          rw [show (queuedJob queue jobType payload key).payload = payload
            from rfl, hpayload] at hp
          cases hp
  | _ => trivial

/-- So every task marks what it says. -/
theorem safe_recorded (hashJson : RfqBody → String) {t : Task}
    (ht : t.Served) (hs : JobsCarry s) :
    recording.Safe (exec cfg) pid (Marked t) (t.code hashJson) s := by
  have hany : t ≠ .settle → recording.Safe (exec cfg) pid
      (fun _ _ => True) (t.code hashJson) s := fun hsettle =>
    .of_uses (fun _ _ s h => carriesOn_makes hsettle ht h s)
      (uses_code hashJson t)
  cases t with
  | persist sessionId batch =>
      refine .map ((safe_persist_matched sessionId batch hs).mono ?_)
      intro r s' _ h a ha
      cases r with
      | ok u => exact h u rfl
      | error e => cases ha
  | settle => exact .map (safe_settleOnce_carries)
  | submitMpc user body => exact hany fun h => by cases h
  | submitRfq key body => exact hany fun h => by cases h
  | enqueue queue jobType payload key => exact hany fun h => by cases h
  | relay work => exact hany fun h => by cases h
  | prove proof => exact hany fun h => by cases h

/-- In every run in which each statement is answered and each mark and
each read of a note finds its row: the intents of a persisted batch have
status "matched", and each settlement job carries its two notes. -/
theorem matches_recorded (dep : Deployment Key Plain) (es : List Event)
    (hstart : ∀ e ∈ es, ∀ t, e = .start t → t.Served)
    (hes : ∀ t ∈ Run.accepted (services dep).step (Estate.boot dep) es,
      System.Meets (fun _ => True) (fun _ q c s => c.goes ∧ RowFound q s)
        t) :
    MatchesRecorded (Run.run (services dep).step (Estate.boot dep) es) :=
  by
  have L := recording_lawful dep.committee
  have hserved : ∀ t, Task.Served t → ∀ i s, recording.Inv s →
      recording.Safe (services dep).exec i (Marked t)
        ((services dep).code t) s :=
    fun t ht i s hs => safe_recorded dep.hashJson ht hs
  have hguarded : (services dep).Guarded recording Marked
      (Run.run (services dep).step (Estate.boot dep) es) := by
    refine System.guarded_run L hserved ?_ ⟨?_, ?_⟩
      (System.meets_of_started hstart hes)
    · intro e s s' ts hs he
      obtain ⟨world, -, -, rfl, rfl⟩ := coordinate_cases he
      have hs' : JobsCarry { s with world } := hs
      refine ⟨hs', fun _ => NotesKept.refl s, fun t ht i => ?_⟩
      obtain ⟨-, -, batch, sess, -, rfl⟩ := of_mem_newlySigned ht
      have ht' : Task.Served (.persist sess.sessionId batch) := trivial
      exact hserved _ ht' i _ hs'
    · intro n job p hn
      cases hn
    · intro i t c hi
      cases hi
  refine ⟨?_, hguarded.inv⟩
  intro p _ p' hp' intentId _ batch hbatch hmem
  obtain ⟨j, hj⟩ := List.mem_iff_getElem?.mp hp'
  obtain ⟨sessionId, r, rfl⟩ := persisted_eq_some hbatch
  obtain ⟨m, hm, hid⟩ := List.mem_flatMap.mp hmem
  have hboth := hguarded.finished L hj r rfl m hm
  rcases List.mem_cons.mp hid with rfl | hid
  · exact hboth.1
  · rw [List.mem_singleton.mp hid]
    exact hboth.2

namespace Demo

/-- "a" is marked before it has a row, and then inserted as pending. -/
def outrun : List Event :=
  [.start sell, .start buy] ++ turns 0 2 ++ turns 1 1
    ++ [.outside (.tick "batch")] ++ turns 2 7 ++ turns 0 4

end Demo

/-- In this run a match is persisted, queued and recorded. -/
theorem settled_recorded :
    MatchesRecorded (Run.run (services Demo.services).step
      (Estate.boot Demo.services) Demo.settled) :=
  matches_recorded Demo.services Demo.settled (by
    intro e he t ht
    subst ht
    simp [Demo.settled, Demo.matched, Demo.turns] at he
    rcases he with rfl | rfl | rfl <;> trivial) (by decide +kernel)

/-- An intent both submitted and persisted whose row is pending. -/
def Outrun (m : Estate Plain) (intentId : String) : Prop :=
  (∃ p ∈ m.procs, intentId ∈ submitted p)
    ∧ (∃ p ∈ m.procs, ∃ batch ∈ persisted p,
        intentId ∈ batch.matchResults.flatMap MatchResult.ids)
    ∧ ∃ row ∈ m.shared.mpcIntents.get intentId, row.status = .pending

instance (m : Estate Plain) (intentId : String) :
    Decidable (Outrun m intentId) := by
  unfold Outrun
  infer_instance

/-- A match whose intent is pending is not recorded. -/
theorem Outrun.not_recorded {m : Estate Plain} {intentId : String}
    (h : Outrun m intentId) : ¬MatchesRecorded m := by
  intro hrecorded
  obtain ⟨⟨p, hp, hid⟩, ⟨p', hp', batch, hbatch, hmem⟩, row, hrow, hs⟩ := h
  obtain ⟨row', hrow', hstatus⟩ :=
    hrecorded.matched p hp p' hp' intentId hid batch hbatch hmem
  have hsame : some row' = some row := hrow'.symm.trans hrow
  injection hsame with hsame
  rw [hsame, hs] at hstatus
  cases hstatus

/-- All statements of this run go through, and yet a matched intent is
pending in the end. -/
theorem marked_then_pending :
    (∀ t ∈ Run.accepted (services Demo.services).step
        (Estate.boot Demo.services) Demo.outrun,
      System.Meets (fun _ => True) (fun i q c s =>
        (exec Demo.services.committee i q c s).2.isOk) t)
      ∧ ¬MatchesRecorded (Run.run (services Demo.services).step
          (Estate.boot Demo.services) Demo.outrun) := by
  have houtrun : Outrun (Run.run (services Demo.services).step
      (Estate.boot Demo.services) Demo.outrun) "a" := by
    decide +kernel
  exact ⟨by decide +kernel, houtrun.not_recorded⟩

end Lumix.Services
