/-
Which statements each task makes.

A statement about one table only has to look at the tasks that write it. What
the others do is read off here, once, by following each program's text.
-/
import Lumix.Services.Jobs

namespace Lumix.Services

open Prog (Uses uses_query uses_pure uses_throw)

variable {P : Call → Prop}

-- ========================================================== the queue

/-- The statements of `enqueue`. -/
def Enqueues (queue : QueueName) (jobType : String) (payload : Payload)
    (idempotencyKey : Option String) : Call → Prop
  | .jobByKey _ => True
  | .insertJob job => job = queuedJob queue jobType payload idempotencyKey
  | .event _ _ => True
  | _ => False

/-- The insertion inserts its row and logs it. -/
theorem uses_insertQueued (queue : QueueName) (jobType : String)
    (payload : Payload) (idempotencyKey : Option String) :
    Uses (Enqueues queue jobType payload idempotencyKey)
      (insertQueued queue jobType payload idempotencyKey) :=
  .bind (uses_query rfl) fun _ => .bind (uses_query trivial) fun _ =>
    trivial

/-- `enqueue` looks the key up first. -/
theorem uses_enqueue (queue : QueueName) (jobType : String)
    (payload : Payload) (idempotencyKey : Option String) :
    Uses (Enqueues queue jobType payload idempotencyKey)
      (enqueue queue jobType payload idempotencyKey) := by
  unfold enqueue
  cases idempotencyKey with
  | none => exact uses_insertQueued queue jobType payload none
  | some key =>
      have hinsert := uses_insertQueued queue jobType payload (some key)
      by_cases hkey : key = ""
      · simp only [hkey, if_true] at hinsert ⊢
        exact hinsert
      · simp only [hkey, if_false]
        refine .bind (uses_query trivial) fun existing => ?_
        cases existing with
        | none => exact hinsert
        | some row => trivial

/-- The statements of a worker. -/
def Works : Call → Prop
  | .claimNext _ _ => True
  | .updateStatus _ _ => True
  | .completeJob _ => True
  | .jobAttempts _ => True
  | .failTerminal _ => True
  | .failRetry _ => True
  | .event _ _ => True
  | _ => False

/-- A worker's statements are on its job. -/
theorem uses_setStatus (jobId : ℕ) (status : String) :
    Uses Works (setStatus jobId status) :=
  .bind (uses_query trivial) fun _ => uses_query trivial

/-- Completing is one, -/
theorem uses_complete (jobId : ℕ) : Uses Works (complete jobId) :=
  .bind (uses_query trivial) fun _ => uses_query trivial

/-- and failing. -/
theorem uses_fail (jobId : ℕ) : Uses Works (fail jobId) := by
  refine .bind (uses_query trivial) fun j => ?_
  cases terminal j with
  | true => exact .bind (uses_query trivial) fun _ => uses_query trivial
  | false => exact .bind (uses_query trivial) fun _ => uses_query trivial

/-- A round of a worker is work, if what it does to a job is. -/
theorem uses_runOnce {queue : QueueName} {jobTypes : List String}
    {process : JobRow → Service Unit}
    (h : ∀ row, Uses Works (process row)) :
    Uses Works (runOnce queue jobTypes process) := by
  refine .bind (uses_query trivial) fun job => ?_
  cases job with
  | none => trivial
  | some row =>
      exact .bind (.handle (h row) fun _ => uses_fail row.1) fun _ =>
        trivial

/-- The relayer's is, -/
theorem uses_processRelayerJob (jobId : ℕ) (work : Work) :
    Uses Works (processRelayerJob jobId work) := by
  induction work with
  | returned => trivial
  | threw message => trivial
  | setStatus status next onError ihnext ihonError =>
      refine .bind (.handle ?_ fun _ => trivial) fun through => ?_
      · exact .bind (uses_setStatus jobId status) fun _ => trivial
      · cases through with
        | true => exact ihnext
        | false => exact ihonError

/-- and the prover's. -/
theorem uses_processProofJob (jobId : ℕ) (proof : ProofRun) :
    Uses Works (processProofJob jobId proof) := by
  cases proof with
  | noCoin message => trivial
  | threw message =>
      exact .bind (uses_setStatus jobId _) fun _ =>
        .bind (uses_setStatus jobId _) fun _ => trivial
  | proved locallyVerified =>
      refine .bind (uses_setStatus jobId _) fun _ =>
        .bind (uses_setStatus jobId _) fun _ => .bind ?_ fun _ =>
          .bind (uses_setStatus jobId _) fun _ => uses_complete jobId
      refine .bind (uses_setStatus jobId _) fun _ => ?_
      cases locallyVerified <;> trivial

-- ===================================================== the submissions

/-- The statements that record a forwarded intent. -/
def Submits (intent : Committee.MpcIntent) : Call → Prop
  | .forward intent' => intent' = intent
  | .ensureSession _ => True
  | .upsertMpcIntent intentId row =>
      intentId = intent.intentId ∧ row.status = .pending
  | .insertShare _ => True
  | .linkIntent _ _ => True
  | .record => True
  | _ => False

/-- A submission forwards the intent it was made with. -/
theorem uses_forward (intent : Committee.MpcIntent) :
    Uses (Submits intent) (forward intent) :=
  .handle (.bind (uses_query rfl) fun _ => trivial) fun _ => trivial

/-- `POST /v1/mpc/intents` submits the body's intent. -/
theorem uses_submitMpc (user : Option String) (body : MpcBody) :
    Uses (Submits body.intent) (submitMpc user body) := by
  unfold submitMpc
  split
  · trivial
  · refine .bind (uses_forward body.intent) fun resp => ?_
    match resp with
    | none => trivial
    | some none => trivial
    | some (some sessionId) =>
        refine .bind (uses_query trivial) fun _ =>
          .bind (uses_query ⟨rfl, rfl⟩) fun _ =>
            .bind (.forM fun _ _ => uses_query trivial) fun _ => ?_
        split
        · exact .bind (uses_query trivial) fun _ => trivial
        · trivial

/-- An RFQ intent is submitted under its hash. -/
theorem uses_routeToCommittee (intentHash : String) (body : RfqBody) :
    Uses (Submits (body.intent intentHash))
      (routeToCommittee intentHash body) := by
  unfold routeToCommittee
  split
  · refine .bind (uses_forward _) fun resp => ?_
    match resp with
    | none => trivial
    | some none => trivial
    | some (some sessionId) =>
        refine .bind (.handle ?_ fun _ => trivial) fun _ => trivial
        exact .bind (uses_query trivial) fun _ =>
          .bind (uses_query ⟨rfl, rfl⟩) fun _ =>
            .bind (.forM fun _ _ => uses_query trivial) fun _ =>
              .bind (uses_query trivial) fun _ => uses_query trivial
  · trivial

-- ============================================ persisting and settling

/-- The statements that persist a batch. -/
def Persists (sessionId : String) (batch : Committee.SignedMatchBatch) :
    Call → Prop
  | .insertBatch batchId row =>
      batchId = batch.batchId ∧ row = batchRow sessionId batch
  | .insertSignature _ _ => True
  | .signSession _ _ => True
  | .markMatched _ _ => True
  | _ => False

/-- Persisting writes one session's one batch. -/
theorem uses_persistSignedBatch (sessionId : String)
    (batch : Committee.SignedMatchBatch) :
    Uses (Persists sessionId batch) (persistSignedBatch sessionId batch) :=
  .bind (uses_query ⟨rfl, rfl⟩) fun _ =>
    .bind (.forM fun _ _ => uses_query trivial) fun _ =>
      .bind (uses_query trivial) fun _ =>
        .forM fun _ _ =>
          .bind (uses_query trivial) fun _ => uses_query trivial

/-- The statements of a settler. -/
def Settles : Call → Prop
  | .pendingBatches => True
  | .order => True
  | .isRfqRouted _ _ => True
  | .fetchIntentNote _ => True
  | .jobByKey _ => True
  | .insertJob job => ∃ p key, job
      = queuedJob .relayer "MPC_SETTLE_SUBMIT" (.mpcSettle p) (some key)
  | .event _ _ => True
  | .finishBatch _ _ => True
  | _ => False

/-- Two fetches in either order. -/
theorem uses_both {α : Type} {a b : Service α} (h : Uses P (query .order))
    (ha : Uses P a) (hb : Uses P b) : Uses P (both a b) := by
  refine .bind h fun aFirst => ?_
  cases aFirst with
  | true => exact .bind ha fun _ => .bind hb fun _ => trivial
  | false => exact .bind hb fun _ => .bind ha fun _ => trivial

/-- The settler reads, and inserts settlement jobs. -/
theorem uses_queueMatch (batchId : String) (row : BatchRow) (queued : ℕ)
    (p : Committee.MatchResult × ℕ) :
    Uses Settles (queueMatch batchId row queued p) := by
  have horder : Uses Settles (query .order) := uses_query trivial
  refine .bind (uses_both horder (uses_query trivial)
    (uses_query trivial)) fun routed => ?_
  dsimp only
  split
  · trivial
  · refine .bind (uses_both horder (uses_query trivial)
      (uses_query trivial)) fun notes => ?_
    refine .bind ((uses_enqueue _ _ _ _).mono fun q hq => ?_) fun _ =>
      trivial
    cases q <;> try trivial
    exact ⟨_, _, hq⟩

/-- So in a whole tick. -/
theorem uses_settleOnce : Uses Settles settleOnce :=
  .bind (uses_query trivial) fun _ =>
    .bind (.forM fun _ _ =>
      .bind (.foldlM fun _ _ _ => uses_queueMatch ..) fun _ =>
        uses_query trivial) fun _ => trivial

-- ============================================================= the tasks

/-- The statements a task may make. -/
def Task.Makes (hashJson : RfqBody → String) : Task → Call → Prop
  | .submitMpc _ body, q => Submits body.intent q
  | .submitRfq idempotencyKey body, q =>
      q = .insertIntent (hashJson body) idempotencyKey
        ∨ Submits (body.intent (hashJson body)) q
  | .persist sessionId batch, q => Persists sessionId batch q
  | .settle, q => Settles q
  | .enqueue queue jobType payload idempotencyKey, q =>
      Enqueues queue jobType payload idempotencyKey q
  | .relay _, q => Works q
  | .prove _, q => Works q

/-- Every task makes the statements of its kind only. -/
theorem uses_code (hashJson : RfqBody → String) (t : Task) :
    Uses (t.Makes hashJson) (t.code hashJson) := by
  cases t with
  | submitMpc user body => exact .map (uses_submitMpc user body)
  | submitRfq idempotencyKey body =>
      refine .map (.bind (uses_query (Or.inl rfl)) fun _ =>
        .bind (uses_query (Or.inr trivial)) fun _ =>
          .bind (uses_query (Or.inr trivial)) fun _ =>
            .bind ?_ fun _ => trivial)
      exact (uses_routeToCommittee _ body).mono fun q hq => Or.inr hq
  | persist sessionId batch =>
      exact .map (uses_persistSignedBatch sessionId batch)
  | settle => exact .map uses_settleOnce
  | enqueue queue jobType payload idempotencyKey =>
      exact .map (uses_enqueue queue jobType payload idempotencyKey)
  | relay work =>
      exact .map (uses_runOnce fun row =>
        .bind (uses_processRelayerJob row.1 (work row)) fun _ =>
          uses_complete row.1)
  | prove proof =>
      exact .map (uses_runOnce fun row =>
        uses_processProofJob row.1 (proof row))

-- ==================================================== reads in parallel

/-- Two reads in flight at once: what each has shown, where no call
undoes it. `I` is what is known before. -/
theorem safe_both {Key Plain α : Type} {cfg : Committee.Config Key Plain}
    {D : Discipline Call (Shared Plain) Choice} (L : D.Lawful (exec cfg))
    (U : D.Uniform (exec cfg)) {pid : ℕ} {a b : Service α}
    {I : Shared Plain → Prop} {X Y : α → Shared Plain → Prop}
    (horder : ∀ s, D.Pre pid .order s)
    (hI : ∀ s s', I s → D.Rely pid s s' → I s')
    (hX : ∀ x s s', X x s → D.Rely pid s s' → X x s')
    (hY : ∀ y s s', Y y s → D.Rely pid s s' → Y y s')
    (ha : ∀ s, I s → D.Safe (exec cfg) pid
      (fun r s' => ∀ x, r = .ok x → X x s') a s)
    (hb : ∀ s, I s → D.Safe (exec cfg) pid
      (fun r s' => ∀ y, r = .ok y → Y y s') b s)
    {s : Shared Plain} (hs : I s) :
    D.Safe (exec cfg) pid
      (fun r s' => ∀ p, r = .ok p → X p.1 s' ∧ Y p.2 s') (both a b) s := by
  refine Discipline.Safe.query_bind fun s₁ hs₁ => ⟨horder s₁, fun c hc => ?_⟩
  have hinv := (L.keeps pid .order c s₁ hs₁.2 (horder s₁) hc).1
  have hknown : I (exec cfg pid .order c s₁).1 :=
    hI _ _ (hI _ _ hs hs₁.1) (U pid pid .order c s₁ hs₁.2 (horder s₁) hc)
  refine ⟨fun aFirst _ => ?_, fun e _ s₂ _ p hp => by cases hp⟩
  cases aFirst with
  | true =>
      refine ((ha _ hknown).frame U hI hknown).bind L _ hinv
        (fun x s₂ hs₂ hx => ?_) fun e s₂ _ _ p hp => by cases hp
      refine ((hb s₂ hx.2).frame U (hX x) (hx.1 x rfl)).bind L _ hs₂
        (fun y s₃ _ hy s₄ hs₄ p hp => ?_)
        fun e s₃ _ _ p hp => by cases hp
      injection hp with hp
      subst hp
      exact ⟨hX x s₃ s₄ hy.2 hs₄.1, hY y s₃ s₄ (hy.1 y rfl) hs₄.1⟩
  | false =>
      refine ((hb _ hknown).frame U hI hknown).bind L _ hinv
        (fun y s₂ hs₂ hy => ?_) fun e s₂ _ _ p hp => by cases hp
      refine ((ha s₂ hy.2).frame U (hY y) (hy.1 y rfl)).bind L _ hs₂
        (fun x s₃ _ hx s₄ hs₄ p hp => ?_)
        fun e s₃ _ _ p hp => by cases hp
      injection hp with hp
      subst hp
      exact ⟨hX x s₃ s₄ (hx.1 x rfl) hs₄.1, hY y s₃ s₄ hx.2 hs₄.1⟩

/-- The settler reads the pending batches and goes through them; `F` is
what it knows of each from its row. -/
theorem safe_settleOnce_of {Key Plain : Type}
    {cfg : Committee.Config Key Plain}
    {D : Discipline Call (Shared Plain) Choice} (L : D.Lawful (exec cfg))
    (U : D.Uniform (exec cfg)) {pid : ℕ}
    {F : String → BatchRow → Shared Plain → Prop}
    (hpre : ∀ s, D.Pre pid .pendingBatches s)
    (hread : ∀ s batchId row, D.Inv s →
      s.mpcBatches.get batchId = some row → F batchId row s)
    (hlater : ∀ batchId row s s', F batchId row s → D.Rely pid s s' →
      F batchId row s')
    (hjobs : ∀ batchId row s, D.Inv s → F batchId row s →
      D.Safe (exec cfg) pid (fun _ _ => True)
        (queueSettlementJobs batchId row) s)
    {s : Shared Plain} :
    D.Safe (exec cfg) pid (fun _ _ => True) settleOnce s := by
  refine Discipline.Safe.query_bind fun s₁ hs₁ =>
    ⟨hpre s₁, fun c _ => ⟨?_, fun _ _ _ _ => trivial⟩⟩
  intro (rows : List (String × BatchRow)) hrows
  obtain ⟨d, rfl, hok⟩ := exec_answered hrows
  injection hok with hok
  have hknown : ∀ p ∈ rows, F p.1 p.2 s₁ := by
    intro p hp
    rw [← hok] at hp
    have hmem := (List.mem_filter.mp (List.take_subset _ _ hp)).1
    exact hread s₁ p.1 p.2 hs₁.2 (OrderedMap.mem_entries.mp hmem)
  have hstable : ∀ s s' : Shared Plain, (∀ p ∈ rows, F p.1 p.2 s) →
      D.Rely pid s s' → ∀ p ∈ rows, F p.1 p.2 s' :=
    fun s s' h hrely p hp => hlater p.1 p.2 s s' (h p hp) hrely
  refine Discipline.Safe.bind L (fun _ _ => True) ?_ hs₁.2
    (fun _ _ _ _ _ _ => trivial) fun _ _ _ _ => trivial
  refine (Discipline.Safe.forM L (fun _ s => ∀ p ∈ rows, F p.1 p.2 s)
    (fun _ s s' h hs' => hstable s s' h hs'.1) ?_ hs₁.2 hknown).mono
    fun _ _ _ _ => trivial
  intro pre p suf hrows' s₂ hs₂ h₂
  have hp : p ∈ rows := by
    rw [hrows']
    simp
  exact ((hjobs p.1 p.2 s₂ hs₂ (h₂ p hp)).frame U hstable h₂).mono
    fun _ _ _ h _ _ => h.2

end Lumix.Services
