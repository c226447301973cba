/-
Whether the two settlement paths exclude each other.

An intent of `POST /v1/intents` is kept from the settler by its row in
`intents`. The handler inserts that row "on conflict do nothing" over two
unique columns and forwards the intent whatever came of it: under an
idempotency key that is in use by another intent there is no row, and
the settler takes the intent for one of its own. Where no key is used
twice, every intent the committee knows has its row before it is
forwarded, so every match the settler looks at is routed.
-/
import Lumix.Committee.Batches
import Lumix.Services.Footprint
import Lumix.Services.Tables

namespace Lumix.Services

open Committee (MpcIntent MatchResult SignedMatchBatch Protocol Ref)

variable {Key Plain : Type} {cfg : Committee.Config Key Plain} {pid : ℕ}
  {s s' : Shared Plain}

-- ====================================================== the statement

/-- The intent of a request of `POST /v1/intents`. -/
def Task.rfqIntent (hashJson : RfqBody → String) : Task → Option String
  | .submitRfq _ body => some (hashJson body)
  | _ => none

/-- An intent requested through `POST /v1/intents` that the committee
has. -/
def RfqRouted (hashJson : RfqBody → String) (m : Estate Plain)
    (intentId : String) : Prop :=
  (∃ p ∈ m.procs, p.task.rfqIntent hashJson = some intentId)
    ∧ ∃ s ∈ m.shared.world.committee.heap, intentId ∈ s.intents.keys

/-- The intents a settlement job is for. -/
def Payload.intents : Payload → List String
  | .mpcSettle p => [p.intentAId, p.intentBId]
  | .other _ => []

/-- No settlement job is for such an intent. -/
def PathsExclude (hashJson : RfqBody → String) (m : Estate Plain) : Prop :=
  ∀ intentId, RfqRouted hashJson m intentId →
    ∀ job ∈ m.shared.jobs, intentId ∉ job.payload.intents

/-- What is started: requests of `POST /v1/intents` and settlers. -/
def Task.OfRfq : Task → Prop
  | .submitRfq _ _ => True
  | .settle => True
  | _ => False

instance : DecidablePred Task.OfRfq := fun t => by
  unfold Task.OfRfq
  split <;> infer_instance

/-- An intent that is inserted has a row already, or an idempotency key of
its own. -/
def OwnKey (q : Call) (s : Shared Plain) : Prop :=
  match q with
  | .insertIntent intentHash idempotencyKey =>
      (s.intents.get intentHash).isSome
        ∨ ∀ row ∈ s.intents.values, row.idempotencyKey ≠ idempotencyKey
  | _ => True

instance (q : Call) (s : Shared Plain) : Decidable (OwnKey q s) := by
  unfold OwnKey
  split <;> infer_instance

-- ====================================================== the discipline

/-- The intent has its row. -/
def InIntents (s : Shared Plain) (intentId : String) : Prop :=
  (s.intents.get intentId).isSome

/-- The matches are between intents that have their rows. -/
def MatchesIn (matchResults : List MatchResult) (s : Shared Plain) : Prop :=
  ∀ id ∈ matchResults.flatMap MatchResult.ids, InIntents s id

/-- No intent is taken out of the table. -/
def IntentsKept (s s' : Shared Plain) : Prop :=
  ∀ id, InIntents s id → InIntents s' id

/-- So the matches of intents in it stay so. -/
theorem MatchesIn.later {matchResults : List MatchResult}
    (h : MatchesIn matchResults s) (hs : IntentsKept s s') :
    MatchesIn matchResults s' :=
  fun id hid => hs id (h id hid)

/-- Whatever the committee or its tables name has its row, and the
settler has queued nothing. -/
structure Excluding (s : Shared Plain) : Prop where
  protocol : Protocol s.world
  sessions : ∀ (r : Ref) sess, s.world.committee.heap[r]? = some sess →
    ∀ id ∈ sess.intents.keys, InIntents s id
  batches : ∀ batchId row, s.mpcBatches.get batchId = some row →
    MatchesIn row.matchResults s
  jobs : ∀ (n : ℕ) job, s.jobs[n]? = some job → job.payload.intents = []

/-- What a service knows when it names an intent. -/
def Named (q : Call) (s : Shared Plain) : Prop :=
  match q with
  | .forward intent => InIntents s intent.intentId
  | .insertBatch _ row => MatchesIn row.matchResults s
  | .insertJob job => job.payload.intents = []
  | _ => True

/-- What the statements owe each other: an RFQ intent in the pool is in
the table, as long as keys are one's own. -/
def excluding : Discipline Call (Shared Plain) Choice where
  Inv := Excluding
  Rely := fun _ => IntentsKept
  Pre := fun _ => Named
  Allow := fun _ q _ s => OwnKey q s

/-- Every statement keeps the intents. -/
theorem intentsKept_exec (cfg : Committee.Config Key Plain) (pid : ℕ)
    (q : Call) (c : Choice) (s : Shared Plain) :
    IntentsKept s (exec cfg pid q c s).1 :=
  fun _ h => (effect_exec cfg pid q c s).intentsKept h

/-- Every statement that names its intent keeps the exclusion. -/
theorem excluding_exec (q : Call) (c : Choice) (hs : Excluding s)
    (hpre : Named q s) : Excluding (exec cfg pid q c s).1 := by
  have heffect := effect_exec cfg pid q c s
  have hkept := intentsKept_exec cfg pid q c s
  generalize (exec cfg pid q c s).1 = s' at heffect hkept
  refine ⟨?_, ?_, ?_, ?_⟩
  · rcases heffect.world with hw | ⟨intent, clock, -, hstep⟩
    · exact hw ▸ hs.protocol
    · exact hs.protocol.next (Committee.step_cases hstep)
  · intro r sess hr id hid
    rcases heffect.world with hw | ⟨intent, clock, rfl, hstep⟩
    · rw [hw] at hr
      exact hkept id (hs.sessions r sess hr id hid)
    · have hadded := Committee.Stepped.added (Committee.step_cases hstep)
      obtain ⟨sid, hadded⟩ := hadded
      rcases Committee.intents_added hadded hr hid with rfl | ⟨s₁, h₁, h⟩
      · exact hkept _ hpre
      · exact hkept id (hs.sessions r s₁ h₁ id h)
  · intro batchId row hrow
    cases heffect.batchOrigin hrow with
    | old h => exact (hs.batches batchId row h).later hkept
    | inserted h => exact MatchesIn.later hpre hkept
    | finished h hsame =>
        rw [hsame.matchResults]
        exact (hs.batches batchId _ h).later hkept
  · intro n job hn
    rcases heffect.jobs.origin hn with ⟨a, ha, hsame⟩ | ⟨rfl, -, -⟩
    · rw [hsame.payload]
      exact hs.jobs n a ha
    · exact hpre

/-- So they keep it, -/
theorem excluding_lawful (cfg : Committee.Config Key Plain) :
    excluding.Lawful (exec cfg) where
  refl := fun _ _ _ h => h
  trans := fun _ _ _ _ h h' id hid => h' id (h id hid)
  keeps := fun pid q c s hs hpre _ =>
    ⟨excluding_exec q c hs hpre, fun _ _ => intentsKept_exec cfg pid q c s⟩

/-- in every outcome alike. -/
theorem excluding_uniform (cfg : Committee.Config Key Plain) :
    excluding.Uniform (exec cfg) :=
  fun _ pid q c s _ _ _ => intentsKept_exec cfg pid q c s

-- ======================================================= the submission

/-- An RFQ intent is in the table before it is submitted. -/
theorem safe_submitRfq (hashJson : RfqBody → String)
    (idempotencyKey : String) (body : RfqBody) :
    excluding.Safe (exec cfg) pid (fun _ _ => True)
      (submitRfq hashJson idempotencyKey body) s := by
  refine Discipline.Safe.query_bind fun s₁ hs₁ => ⟨trivial, fun c hc => ?_⟩
  refine ⟨fun _ hok => ?_, fun _ _ _ _ => trivial⟩
  obtain ⟨d, rfl, -⟩ := exec_answered hok
  -- the row is there now, inserted or not
  have hrow : InIntents (exec cfg pid (.insertIntent (hashJson body)
      idempotencyKey) (.go d) s₁).1 (hashJson body) := by
    by_cases hold : (s₁.intents.get (hashJson body)).isSome
    · exact intentsKept_exec cfg pid _ _ s₁ _ hold
    · have hfree : (s₁.intents.values.any fun row =>
          row.idempotencyKey = idempotencyKey) = false := by
        have hall := hc.resolve_left hold
        simpa using hall
      unfold InIntents
      simp [exec, perform, hold, hfree]
  refine (Discipline.Safe.of_uses_with (excluding_uniform cfg)
    (I := fun s => InIntents s (hashJson body))
    (P := Submits (body.intent (hashJson body)))
    (fun _ _ h hrely => hrely _ h) ?_ ?_ hrow).mono fun _ _ _ _ => trivial
  · intro q s₂ hq h
    cases q <;> try trivial
    · obtain rfl := hq
      exact h
  · exact .bind (Prog.uses_query trivial) fun _ =>
      .bind (Prog.uses_query trivial) fun _ =>
        .bind (uses_routeToCommittee _ body) fun _ => trivial

-- ====================================================== the settler

/-- So the settler finds it there. -/
theorem safe_isRfqRouted_in (ex : Examination) {intentId : String}
    (h : InIntents s intentId) :
    excluding.Safe (exec cfg) pid (fun r _ => ∀ a, r = .ok a → a = true)
      (isRfqRouted ex intentId) s := by
  refine Discipline.Safe.query fun s₁ hs₁ =>
    ⟨trivial, fun c _ s₂ _ a ha => ?_⟩
  obtain ⟨d, rfl, hok⟩ := exec_answered ha
  injection hok with hok
  rw [← hok]
  exact hs₁.1 intentId h

/-- Both sides of a match have their rows. -/
def SidesIn (m : MatchResult) (s : Shared Plain) : Prop :=
  InIntents s m.intentAId ∧ InIntents s m.intentBId

/-- A match of such intents has a side in the table. -/
theorem MatchesIn.sides {matchResults : List MatchResult}
    (h : MatchesIn matchResults s) {m : MatchResult}
    (hm : m ∈ matchResults) : SidesIn m s := by
  have hids : ∀ id ∈ m.ids, InIntents s id := fun id hid =>
    h id (List.mem_flatMap.mpr ⟨m, hm, hid⟩)
  exact ⟨hids _ (List.mem_cons_self ..),
    hids _ (List.mem_cons_of_mem _ (List.mem_cons_self ..))⟩

/-- It keeps it. -/
theorem SidesIn.later {m : MatchResult} (h : SidesIn m s)
    (hs : IntentsKept s s') : SidesIn m s' :=
  ⟨hs _ h.1, hs _ h.2⟩

/-- A match of intents that have their rows is passed over. -/
theorem safe_queueMatch_skips (batchId : String) (row : BatchRow)
    (queued : ℕ) (p : MatchResult × ℕ) (hs : Excluding s)
    (hsides : SidesIn p.1 s) :
    excluding.Safe (exec cfg) pid (fun _ _ => True)
      (queueMatch batchId row queued p) s := by
  have L := excluding_lawful cfg
  refine (safe_both L (excluding_uniform cfg) (I := SidesIn p.1)
    (X := fun routed _ => routed = true)
    (Y := fun routed _ => routed = true)
    (fun _ => trivial) (fun _ _ h hrely => h.later hrely)
    (fun _ _ _ h _ => h) (fun _ _ _ h _ => h)
    (fun _ h => safe_isRfqRouted_in ⟨batchId, p.2, true⟩ h.1)
    (fun _ h => safe_isRfqRouted_in ⟨batchId, p.2, false⟩ h.2)
    hsides).bind L _ hs ?_ fun _ _ _ _ => trivial
  intro routed s₁ _ hrouted
  dsimp only
  rw [(hrouted routed rfl).1, Bool.true_or, if_pos rfl]
  exact fun _ _ => trivial

/-- So the settler skips the match, -/
theorem safe_queueSettlementJobs_skips (batchId : String) {row : BatchRow}
    (hs : Excluding s) (hrow : MatchesIn row.matchResults s) :
    excluding.Safe (exec cfg) pid (fun _ _ => True)
      (queueSettlementJobs batchId row) s := by
  have L := excluding_lawful cfg
  refine Discipline.Safe.bind L (fun _ _ => True) ?_ hs ?_
    fun _ _ _ _ => trivial
  · refine (Discipline.Safe.foldlM L
      (fun _ _ s => MatchesIn row.matchResults s)
      (fun _ _ _ _ h hs' => h.later hs'.1) ?_ hs hrow).mono
      fun _ _ _ _ => trivial
    intro pre p suf hzip queued s₁ hs₁ h₁
    have hmem : p ∈ row.matchResults.zipIdx := by
      rw [hzip]
      simp
    have hp : p.1 ∈ row.matchResults :=
      List.mem_of_getElem? (List.mem_zipIdx_iff_getElem?.mp hmem)
    exact ((safe_queueMatch_skips batchId row queued p hs₁
      (h₁.sides hp)).frame (excluding_uniform cfg)
      (I := MatchesIn row.matchResults) (fun _ _ h hrely => h.later hrely)
      h₁).mono fun _ _ _ h _ _ => h.2
  · intro queued s₁ _ _
    exact Discipline.Safe.query fun _ _ => ⟨trivial, fun _ _ _ _ => trivial⟩

/-- in every batch. -/
theorem safe_settleOnce_skips :
    excluding.Safe (exec cfg) pid (fun _ _ => True) settleOnce s :=
  safe_settleOnce_of (excluding_lawful cfg) (excluding_uniform cfg)
    (F := fun _ row => MatchesIn row.matchResults) (fun _ => trivial)
    (fun _ batchId row hs hrow => hs.batches batchId row hrow)
    (fun _ _ _ _ h hrely => h.later hrely)
    fun batchId _ _ hs hrow => safe_queueSettlementJobs_skips batchId hs hrow

-- ====================================================== the coordinator

/-- A batch is persisted with the matches it was signed for. -/
theorem safe_persist_named (sessionId : String) {batch : SignedMatchBatch}
    (h : MatchesIn batch.matchResults s) :
    excluding.Safe (exec cfg) pid (fun _ _ => True)
      (persistSignedBatch sessionId batch) s := by
  refine (Discipline.Safe.of_uses_with (excluding_uniform cfg)
    (I := MatchesIn batch.matchResults)
    (fun _ _ h hrely => h.later hrely) ?_
    (uses_persistSignedBatch sessionId batch) h).mono
    fun _ _ _ _ => trivial
  intro q s₁ hq h₁
  cases q <;> try trivial
  obtain ⟨-, rfl⟩ := hq
  exact h₁

/-- So every task. -/
theorem safe_ofRfq (hashJson : RfqBody → String) {t : Task}
    (ht : t.OfRfq) :
    excluding.Safe (exec cfg) pid (fun _ _ => True) (t.code hashJson) s := by
  cases t with
  | submitRfq key body => exact .map (safe_submitRfq hashJson key body)
  | settle => exact .map safe_settleOnce_skips
  | _ => cases ht

/-- A coordinator's event keeps the exclusion, and what it hands out is
of intents it knows. -/
theorem excluding_coordinate {e : Committee.Event} {ts : List Task}
    (hs : Excluding s) (he : coordinate cfg e s = some (s', ts)) :
    Excluding s' ∧ IntentsKept s s' ∧ ∀ t ∈ ts, ∃ sessionId batch,
      t = .persist sessionId batch ∧ MatchesIn batch.matchResults s' := by
  obtain ⟨world, hnone, hstep, rfl, rfl⟩ := coordinate_cases he
  have hstepped := Committee.step_cases hstep
  have hprotocol := hs.protocol.next hstepped
  have hsessions : ∀ (r : Ref) sess, world.committee.heap[r]? = some sess →
      ∀ id ∈ sess.intents.keys, InIntents s id := by
    intro r sess hr id hid
    obtain ⟨old, hold, hsame⟩ :=
      hs.protocol.intents_kept hstepped hnone hr
    exact hs.sessions r old hold id (hsame ▸ hid)
  refine ⟨⟨hprotocol, hsessions, hs.batches, hs.jobs⟩, fun _ h => h, ?_⟩
  intro t ht
  obtain ⟨rd, hrd, batch, sess, hphase, rfl⟩ := of_mem_newlySigned ht
  obtain ⟨s₁, h₁, hsubset⟩ := hprotocol.batch_subset hrd hphase
  exact ⟨_, batch, rfl, fun id hid =>
    hsessions _ s₁ h₁ id (hsubset id hid)⟩

/-- In every run of such requests, settlers and matching rounds, whatever
fails, in which each inserted intent has an idempotency key of its own:
no settlement job is for an intent of `POST /v1/intents`. -/
theorem paths_exclude (dep : Deployment Key Plain) (es : List Event)
    (hes : ∀ t ∈ Run.accepted (services dep).step (Estate.boot dep) es,
      System.Meets Task.OfRfq (fun _ q _ s => OwnKey q s) t) :
    PathsExclude dep.hashJson
      (Run.run (services dep).step (Estate.boot dep) es) := by
  have hguarded : (services dep).Guarded excluding (fun _ _ _ => True)
      (Run.run (services dep).step (Estate.boot dep) es) := by
    refine System.guarded_run (excluding_lawful dep.committee)
      (fun t ht _ _ _ => safe_ofRfq dep.hashJson ht) ?_ ⟨?_, ?_⟩ hes
    · intro e s s' ts hs he
      obtain ⟨hs', hkept, hts⟩ := excluding_coordinate hs he
      refine ⟨hs', fun _ => hkept, fun t ht i => ?_⟩
      obtain ⟨sessionId, batch, rfl, hmatches⟩ := hts t ht
      exact .map (safe_persist_named sessionId hmatches)
    · refine ⟨Protocol.boot _, fun r sess h => ?_, fun b row h => ?_,
        fun n job h => ?_⟩
      · cases h
      · cases h
      · cases h
    · intro i t c hi
      cases hi
  intro intentId _ job hjob
  obtain ⟨n, hn⟩ := List.mem_iff_getElem?.mp hjob
  rw [hguarded.inv.jobs n job hn]
  exact List.not_mem_nil

namespace Demo

/-- The request of an intent with shares, named by `rest`. -/
def request (rest inputAsset outputAsset ciphertext : String) :
    RfqBody where
  inputAsset := inputAsset
  outputAsset := outputAsset
  noteNullifier := some ("nullifier-" ++ rest)
  noteCommitment := some ("note-" ++ rest)
  recipientCommitment := some ("recipient-" ++ rest)
  encryptedShares := some
    (Committee.Demo.intent rest inputAsset outputAsset
      ciphertext).encryptedShares
  rest := rest

/-- Two requests, after one without shares, that match and are polled. -/
def requested (keyA keyB : String) : List Event :=
  [.start (.submitRfq "key-1"
      { request "c" "X" "Y" "" with encryptedShares := none }),
   .start (.submitRfq keyA (request "a" "X" "Y" "....")),
   .start (.submitRfq keyB (request "b" "Y" "X" "......"))]
    ++ turns 0 3 ++ turns 1 11 ++ turns 2 11
    ++ [.outside (.tick "batch")] ++ turns 3 7 ++ [.start .settle]
    ++ turns 4 11

end Demo

/-- With keys of their own the paths exclude each other. -/
theorem own_keys_exclude :
    PathsExclude Demo.services.hashJson (Run.run
      (services Demo.services).step (Estate.boot Demo.services)
      (Demo.requested "key-2" "key-3")) :=
  paths_exclude Demo.services _ (by decide +kernel)

/-- An intent of `POST /v1/intents` in a settlement job. -/
def Leaked (hashJson : RfqBody → String) (m : Estate Plain)
    (intentId : String) : Prop :=
  RfqRouted hashJson m intentId
    ∧ ∃ job ∈ m.shared.jobs, intentId ∈ job.payload.intents

instance (hashJson : RfqBody → String) (m : Estate Plain)
    (intentId : String) : Decidable (Leaked hashJson m intentId) := by
  unfold Leaked RfqRouted
  infer_instance

/-- With a key used twice they do not. -/
theorem reused_key_leaks :
    ¬PathsExclude Demo.services.hashJson (Run.run
      (services Demo.services).step (Estate.boot Demo.services)
      (Demo.requested "key-1" "key-1")) := by
  intro h
  have hleaked : Leaked Demo.services.hashJson (Run.run
      (services Demo.services).step (Estate.boot Demo.services)
      (Demo.requested "key-1" "key-1")) "a" := by
    decide +kernel
  obtain ⟨hrouted, job, hjob, hmem⟩ := hleaked
  exact h "a" hrouted job hjob hmem

end Lumix.Services
