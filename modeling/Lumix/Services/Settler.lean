/-
The settler queues each match once.

Any number of settlers poll at once and any statement may fail. What
holds it together: a row for a match has the match's own key, which is
unique; a settler inserts one only after it has read both sides as not
RFQ-routed; and it finishes a batch only after every match has its row or
has shown a routed side. A settler that stops halfway leaves the batch
pending, and the next one finds the rows that are there by their keys.

The keys of the other jobs matter, for `enqueue` returns whatever job has
the key. Those the API makes never look like a settler's.
-/
import Lumix.Services.Footprint
import Lumix.Services.Tables

namespace Lumix.Services

open Shared
open Committee (MatchResult)

variable {Key Plain : Type}

-- ======================================================= the API's jobs

/-- The jobs the API's routes enqueue, with what their keys are made
of. -/
inductive ApiJob
  | userBurn (depositId : String)
  | depositProcess (depositId : String)
  | depositSubmitBurn (depositId : String)
  | depositFetchAttestation (depositId : String)
  | depositMintForward (depositId : String)
  | depositRegisterNote (depositId : String)
  | proof (proofType proofJobId : String)
  | withdrawSubmit (idempotencyKey : Option String)
  | exitSubmit (idempotencyKey : Option String)
  | exitAttestation (exitId : String)
  | exitMint (exitId : String)

/-- The queue a job is put in. -/
def ApiJob.queue : ApiJob → QueueName
  | .proof _ _ => .prover
  | _ => .relayer

/-- Its type. -/
def ApiJob.jobType : ApiJob → String
  | .userBurn _ => "CCTP_INBOUND_AFTER_USER_BURN"
  | .depositProcess _ => "CCTP_INBOUND"
  | .depositSubmitBurn _ => "CCTP_INBOUND_BURN"
  | .depositFetchAttestation _ => "CCTP_FETCH_ATTESTATION"
  | .depositMintForward _ => "STELLAR_MINT_FORWARD"
  | .depositRegisterNote _ => "REGISTER_NOTE"
  | .proof proofType _ => proofType
  | .withdrawSubmit _ => "WITHDRAW_PUBLIC_SUBMIT"
  | .exitSubmit _ => "WITHDRAW_CCTP_BURN"
  | .exitAttestation _ => "CCTP_OUTBOUND_ATTESTATION"
  | .exitMint _ => "CCTP_OUTBOUND_MINT"

/-- Its idempotency key. -/
def ApiJob.key : ApiJob → Option String
  | .userBurn depositId => some ("user-burn:" ++ depositId)
  | .depositProcess depositId => some ("CCTP_INBOUND:" ++ depositId)
  | .depositSubmitBurn depositId =>
      some ("CCTP_INBOUND_BURN:" ++ depositId)
  | .depositFetchAttestation depositId =>
      some ("CCTP_FETCH_ATTESTATION:" ++ depositId)
  | .depositMintForward depositId =>
      some ("STELLAR_MINT_FORWARD:" ++ depositId)
  | .depositRegisterNote depositId => some ("REGISTER_NOTE:" ++ depositId)
  | .proof _ proofJobId => some ("proof:" ++ proofJobId)
  | .withdrawSubmit idempotencyKey =>
      idempotencyKey.map fun key => "wd-submit:" ++ key
  | .exitSubmit idempotencyKey =>
      idempotencyKey.map fun key => "exit-submit:" ++ key
  | .exitAttestation exitId =>
      some ("CCTP_OUTBOUND_ATTESTATION:" ++ exitId)
  | .exitMint exitId => some ("CCTP_OUTBOUND_MINT:" ++ exitId)

/-- The call of `enqueue`. -/
def ApiJob.task (job : ApiJob) (json : String) : Task :=
  .enqueue job.queue job.jobType (.other json) job.key

/-- A task as the services start it: a job the API enqueues, or one of
the other programs. -/
def Task.Served : Task → Prop
  | .enqueue queue jobType payload key =>
      ∃ (job : ApiJob) (json : String),
        Task.enqueue queue jobType payload key = job.task json
  | _ => True

-- ================================================================= keys

/-- Two texts with a last separator are equal part by part. -/
theorem append_cons_inj {α : Type} {xs ys ds es : List α} {c : α}
    (hd : c ∉ ds) (he : c ∉ es) (h : xs ++ c :: ds = ys ++ c :: es) :
    xs = ys ∧ ds = es := by
  rcases List.append_eq_append_iff.mp h with ⟨as, hys, hds⟩ | ⟨as, hxs, hes⟩
  · cases as with
    | nil =>
        rw [List.append_nil] at hys
        injection hds with _ hds
        exact ⟨hys.symm, hds⟩
    | cons a as =>
        injection hds with _ hds
        exact absurd (hds ▸ by simp) hd
  · cases as with
    | nil =>
        rw [List.append_nil] at hxs
        injection hes with _ hes
        exact ⟨hxs, hes.symm⟩
    | cons a as =>
        injection hes with _ hes
        exact absurd (hes ▸ by simp) he

/-- A numeral has no colon. -/
theorem colon_notMem_repr (i : ℕ) : ':' ∉ i.repr.toList := by
  intro h
  rw [Nat.repr, String.toList_ofList] at h
  have hdigit := Nat.isDigit_of_mem_toDigits (by decide) (by decide) h
  exact absurd hdigit (by decide)

/-- A number has its own numeral. -/
theorem repr_inj {i i' : ℕ} (h : i.repr = i'.repr) : i = i' := by
  have hlist := congrArg String.toList h
  simp only [Nat.repr, String.toList_ofList] at hlist
  have hvalue := congrArg (fun ds => Nat.ofDigitChars 10 ds 0) hlist
  simpa using hvalue

/-- So a settlement's key names its batch and match. -/
theorem settleKey_inj {b b' : String} {i i' : ℕ}
    (h : settleKey b i = settleKey b' i') : b = b' ∧ i = i' := by
  have hlist := congrArg String.toList h
  simp only [settleKey, String.toList_append, List.append_assoc] at hlist
  have htail := List.append_cancel_left hlist
  obtain ⟨hb, hi⟩ := append_cons_inj (colon_notMem_repr i)
    (colon_notMem_repr i') htail
  exact ⟨String.toList_inj.mp hb, repr_inj (String.toList_inj.mp hi)⟩

/-- The API's keys do not begin like a settler's. -/
theorem ApiJob.key_ne_settleKey (job : ApiJob) (b : String) (i : ℕ) :
    job.key ≠ some (settleKey b i) := by
  intro h
  have hhead : (settleKey b i).toList.head? = some 'm' := by
    simp [settleKey]
  have hkey : ∀ key, job.key = some key → key.toList.head? ≠ some 'm' := by
    intro key hkey
    cases job <;>
      simp only [ApiJob.key, Option.some.injEq, Option.map_eq_some_iff]
        at hkey
    case withdrawSubmit k => obtain ⟨k, -, rfl⟩ := hkey; simp
    case exitSubmit k => obtain ⟨k, -, rfl⟩ := hkey; simp
    all_goals
      subst hkey
      simp
  exact hkey _ h hhead

-- ====================================================== the statement

/-- A row of `service_jobs` for a match. -/
def ServiceJob.Settles (job : ServiceJob) (batchId : String) (i : ℕ) :
    Prop :=
  job.jobType = "MPC_SETTLE_SUBMIT" ∧ ∃ p, job.payload = .mpcSettle p
    ∧ p.batchId = batchId ∧ p.matchIndex = i

namespace Shared

/-- There is a settlement job of the match. -/
def Queued (s : Shared Plain) (batchId : String) (i : ℕ) : Prop :=
  ∃ (n : ℕ) (job : ServiceJob),
    s.jobs[n]? = some job ∧ job.Settles batchId i

/-- A poll read a side of the match as RFQ-routed. It reads each side of
a match once. -/
def RoutedFor (s : Shared Plain) (pid : ℕ) (batchId : String) (i : ℕ) :
    Prop :=
  ∃ sideA, .examined pid ⟨batchId, i, sideA⟩ true ∈ s.log

/-- A poll read neither side as RFQ-routed. -/
def UnroutedFor (s : Shared Plain) (pid : ℕ) (batchId : String) (i : ℕ) :
    Prop :=
  ∀ sideA, .examined pid ⟨batchId, i, sideA⟩ false ∈ s.log

/-- Every match of the batch has its row, or a routed side. -/
def Covered (s : Shared Plain) (pid : ℕ) (batchId : String)
    (matchResults : List MatchResult) : Prop :=
  ∀ i < matchResults.length,
    s.Queued batchId i ∨ s.RoutedFor pid batchId i

end Shared

/-- A match has one job at most, a batch that is not pending has all its
matches queued or routed, and no queued match was routed when it was
examined. -/
structure QueuedOnce (s : Shared Plain) : Prop where
  once : ∀ (m n : ℕ) a b batchId i, s.jobs[m]? = some a →
    s.jobs[n]? = some b → a.Settles batchId i → b.Settles batchId i →
    m = n
  finished : ∀ batchId row, s.mpcBatches.get batchId = some row →
    row.settlementStatus ≠ .pending →
    ∃ pid, .finished pid batchId ∈ s.log
      ∧ s.Covered pid batchId row.matchResults
  unrouted : ∀ batchId i, s.Queued batchId i →
    ∃ pid, s.UnroutedFor pid batchId i

-- ====================================================== the discipline

/-- Jobs and batches stay, and so does what was done. -/
structure Grows (s s' : Shared Plain) : Prop where
  jobs : JobsKept s s'
  log : ∀ d ∈ s.log, d ∈ s'.log
  batches : BatchesKept s s'

/-- A moment in which nothing happened. -/
theorem Grows.refl (s : Shared Plain) : Grows s s :=
  ⟨JobsKept.refl s, fun _ hd => hd, BatchesKept.refl s⟩

/-- Grown over two stretches, grown over both. -/
theorem Grows.trans {s₁ s₂ s₃ : Shared Plain} (h : Grows s₁ s₂)
    (h' : Grows s₂ s₃) : Grows s₁ s₃ :=
  ⟨h.jobs.trans h'.jobs, fun d hd => h'.log d (h.log d hd),
    h.batches.trans h'.batches⟩

/-- Every statement only adds. -/
theorem grows_exec (cfg : Committee.Config Key Plain) (pid : ℕ) (q : Call)
    (c : Choice) (s : Shared Plain) : Grows s (exec cfg pid q c s).1 :=
  have h := effect_exec cfg pid q c s
  ⟨h.jobs.kept, fun _ hd => h.logGrows hd, h.batchesKept⟩

variable {s s' : Shared Plain} {pid : ℕ} {batchId : String} {i : ℕ}

/-- The same job settles the same match. -/
theorem SameJob.settles {a b : ServiceJob} (h : SameJob a b) :
    b.Settles batchId i ↔ a.Settles batchId i := by
  rw [ServiceJob.Settles, ServiceJob.Settles, h.jobType, h.payload]

/-- A queued match stays queued, -/
theorem Shared.Queued.later (h : s.Queued batchId i) (hs : Grows s s') :
    s'.Queued batchId i := by
  obtain ⟨n, job, hn, hsettles⟩ := h
  obtain ⟨job', hn', hsame⟩ := hs.jobs n job hn
  exact ⟨n, job', hn', hsame.settles.mpr hsettles⟩

/-- a routed one routed, -/
theorem Shared.RoutedFor.later (h : s.RoutedFor pid batchId i)
    (hs : Grows s s') : s'.RoutedFor pid batchId i := by
  obtain ⟨sideA, h⟩ := h
  exact ⟨sideA, hs.log _ h⟩

/-- an unrouted one unrouted, -/
theorem Shared.UnroutedFor.later (h : s.UnroutedFor pid batchId i)
    (hs : Grows s s') : s'.UnroutedFor pid batchId i :=
  fun sideA => hs.log _ (h sideA)

/-- and a covered batch covered. -/
theorem Shared.Covered.later {matchResults : List MatchResult}
    (h : s.Covered pid batchId matchResults) (hs : Grows s s') :
    s'.Covered pid batchId matchResults := by
  intro i hi
  rcases h i hi with hq | hr
  · exact Or.inl (hq.later hs)
  · exact Or.inr (hr.later hs)

/-- A key of the settler's form belongs to the job of that match, and to
no other. -/
def ServiceJob.Keyed (job : ServiceJob) : Prop :=
  ∀ batchId i, job.Settles batchId i
    ↔ job.idempotencyKey = some (settleKey batchId i)

/-- What the settler keeps: keys are unique and those of the
settlements' matches, and the log has the reasons for what is queued and
what is finished. -/
structure Settled (s : Shared Plain) : Prop where
  unique : KeysUnique s
  keyed : ∀ (n : ℕ) job, s.jobs[n]? = some job → job.Keyed
  unrouted : ∀ batchId i, s.Queued batchId i →
    ∃ pid, s.UnroutedFor pid batchId i
  finished : ∀ pid batchId, .finished pid batchId ∈ s.log →
    ∃ row, s.mpcBatches.get batchId = some row
      ∧ s.Covered pid batchId row.matchResults
  pending : ∀ batchId row, s.mpcBatches.get batchId = some row →
    row.settlementStatus ≠ .pending →
    ∃ pid, .finished pid batchId ∈ s.log

/-- From that each match is queued once. -/
theorem Settled.queuedOnce (h : Settled s) : QueuedOnce s where
  once := fun m n a b batchId i hm hn ha hb =>
    h.unique m n a b _ hm hn ((h.keyed m a hm batchId i).mp ha)
      ((h.keyed n b hn batchId i).mp hb)
  finished := by
    intro batchId row hrow hstatus
    obtain ⟨pid, hlog⟩ := h.pending batchId row hrow hstatus
    obtain ⟨row', hrow', hcovered⟩ := h.finished pid batchId hlog
    rw [hrow] at hrow'
    injection hrow' with hrow'
    exact ⟨pid, hlog, hrow' ▸ hcovered⟩
  unrouted := h.unrouted

/-- What a process has to know before it inserts a job or finishes a
batch. A batch is inserted pending. -/
def Examined (pid : ℕ) (q : Call) (s : Shared Plain) : Prop :=
  match q with
  | .insertJob job => job.Keyed ∧ ∀ batchId i, job.Settles batchId i →
      ∃ pid, s.UnroutedFor pid batchId i
  | .finishBatch batchId _ =>
      ∃ row, s.mpcBatches.get batchId = some row
        ∧ s.Covered pid batchId row.matchResults
  | .insertBatch _ row => row.settlementStatus = .pending
  | _ => True

/-- What the statements owe each other: `Settled`, and no log is
lost. -/
def settling : Discipline Call (Shared Plain) Choice where
  Inv := Settled
  Rely := fun _ => Grows
  Pre := Examined
  Allow := fun _ _ _ _ => True

/-- What a process knows of a batch it has read. -/
def Known (batchId : String) (row : BatchRow) (s : Shared Plain) : Prop :=
  ∃ row', s.mpcBatches.get batchId = some row' ∧ SameBatch row row'

/-- A batch's matches do not change. -/
theorem Known.later {row : BatchRow} (h : Known batchId row s)
    (hs : Grows s s') : Known batchId row s' := by
  obtain ⟨row', hrow', hsame⟩ := h
  obtain ⟨row'', hrow'', hsame'⟩ := hs.batches batchId row' hrow'
  exact ⟨row'', hrow'', hsame.trans hsame'⟩

/-- Every statement that was examined keeps `Settled`. -/
theorem settling_keeps {cfg : Committee.Config Key Plain} {q : Call}
    (h : Settled s) (hpre : Examined pid q s) (he : Effect cfg pid s q s')
    (hs : Grows s s') : Settled s' := by
  refine ⟨he.jobs.keysUnique h.unique, ?_, ?_, ?_, ?_⟩
  · intro n job hn batchId i
    rcases he.jobs.origin hn with ⟨a, ha, hsame⟩ | ⟨rfl, -, -⟩
    · rw [hsame.settles, hsame.idempotencyKey]
      exact h.keyed n a ha batchId i
    · exact hpre.1 batchId i
  · intro batchId i ⟨n, job, hn, hsettles⟩
    rcases he.jobs.origin hn with ⟨a, ha, hsame⟩ | ⟨rfl, -, -⟩
    · obtain ⟨pid', hun⟩ :=
        h.unrouted batchId i ⟨n, a, ha, hsame.settles.mp hsettles⟩
      exact ⟨pid', hun.later hs⟩
    · obtain ⟨pid', hun⟩ := hpre.2 batchId i hsettles
      exact ⟨pid', hun.later hs⟩
  · intro pid' batchId hd
    have hrow : ∃ row, s.mpcBatches.get batchId = some row
        ∧ s.Covered pid' batchId row.matchResults := by
      rcases he.finishedOrigin hd with hd | ⟨rfl, status, rfl⟩
      · exact h.finished pid' batchId hd
      · exact hpre
    obtain ⟨row, hrow, hcovered⟩ := hrow
    obtain ⟨row', hrow', hsame⟩ := hs.batches batchId row hrow
    exact ⟨row', hrow', hsame.matchResults ▸ hcovered.later hs⟩
  · intro batchId row hrow hstatus
    have horigin := he.batchOrigin hrow
    cases horigin with
    | old hold =>
        obtain ⟨pid', hd⟩ := h.pending batchId row hold hstatus
        exact ⟨pid', hs.log _ hd⟩
    | inserted hnone => exact absurd hpre hstatus
    | finished hold hsame =>
        cases he with
        | quiet =>
            obtain ⟨pid', hd⟩ := h.pending batchId row hrow hstatus
            exact ⟨pid', hd⟩
        | finished =>
            exact ⟨pid, List.mem_append_right _
              (List.mem_singleton_self _)⟩

/-- So they keep it, -/
theorem settling_lawful (cfg : Committee.Config Key Plain) :
    settling.Lawful (exec cfg) where
  refl := fun _ => Grows.refl
  trans := fun _ _ _ _ => Grows.trans
  keeps := fun pid q c s hs hpre _ =>
    ⟨settling_keeps hs hpre (effect_exec cfg pid q c s)
      (grows_exec cfg pid q c s), fun _ _ => grows_exec cfg pid q c s⟩

/-- in every outcome alike. -/
theorem settling_uniform (cfg : Committee.Config Key Plain) :
    settling.Uniform (exec cfg) :=
  fun _ pid q c s _ _ _ => grows_exec cfg pid q c s

-- ========================================================= the settler

variable {cfg : Committee.Config Key Plain}

/-- A settlement job has its match's key. -/
theorem keyed_settleJob {p : SettlePayload} {batchId : String} {i : ℕ}
    (hb : p.batchId = batchId) (hi : p.matchIndex = i) :
    (queuedJob .relayer "MPC_SETTLE_SUBMIT" (.mpcSettle p)
      (some (settleKey batchId i))).Keyed := by
  intro batchId' i'
  constructor
  · rintro ⟨-, p', hp', hb', hi'⟩
    injection hp' with hp'
    subst hp'
    rw [← hb', ← hi', hb, hi]
    rfl
  · intro hkey
    injection hkey with hkey
    obtain ⟨hb', hi'⟩ := settleKey_inj hkey
    exact ⟨rfl, p, rfl, hb.trans hb', hi.trans hi'⟩

/-- Inserting it queues the match, -/
theorem safe_insertMatch {p : SettlePayload} (hb : p.batchId = batchId)
    (hi : p.matchIndex = i) {pid' : ℕ}
    (hun : s.UnroutedFor pid' batchId i) :
    settling.Safe (exec cfg) pid
      (fun r s' => ∀ row, r = .ok row → s'.Queued batchId i)
      (insertQueued .relayer "MPC_SETTLE_SUBMIT" (.mpcSettle p)
        (some (settleKey batchId i))) s := by
  refine Discipline.Safe.query_bind fun s₁ hs₁ => ⟨⟨keyed_settleJob hb hi,
    fun batchId' i' hsettles => ?_⟩, fun c _ => ?_⟩
  · obtain ⟨-, p', hp', hb', hi'⟩ := hsettles
    injection hp' with hp'
    subst hp'
    rw [← hb', ← hi', hb, hi]
    exact ⟨pid', hun.later hs₁.1⟩
  refine ⟨fun row hrow => ?_, fun e _ s₂ _ row hrow => by cases hrow⟩
  obtain ⟨d, rfl, hok⟩ := exec_answered hrow
  have hq : (exec cfg pid (.insertJob (queuedJob .relayer
      "MPC_SETTLE_SUBMIT" (.mpcSettle p) (some (settleKey batchId i))))
      (.go d) s₁).1.Queued batchId i := by
    refine ⟨s₁.jobs.length, queuedJob .relayer "MPC_SETTLE_SUBMIT"
      (.mpcSettle p) (some (settleKey batchId i)), ?_,
      rfl, p, rfl, hb, hi⟩
    simp only [perform] at hok
    split at hok
    · cases hok
    · rename_i hnone
      simp only [exec, perform, hnone]
      exact List.getElem?_concat_length ..
  refine Discipline.Safe.query_bind fun s₂ hs₂ => ⟨trivial, fun c _ => ?_⟩
  have hq₂ := (hq.later hs₂.1).later (grows_exec cfg pid
    (.event row.1 .queued) c s₂)
  exact ⟨fun _ _ s₃ hs₃ _ _ => hq₂.later hs₃.1,
    fun e _ s₃ _ row hrow => by cases hrow⟩

/-- and so does enqueuing, whether or not it is there. -/
theorem safe_enqueueMatch {p : SettlePayload} (hb : p.batchId = batchId)
    (hi : p.matchIndex = i) {pid' : ℕ}
    (hun : s.UnroutedFor pid' batchId i) :
    settling.Safe (exec cfg) pid
      (fun r s' => ∀ row, r = .ok row → s'.Queued batchId i)
      (enqueue .relayer "MPC_SETTLE_SUBMIT" (.mpcSettle p)
        (some (settleKey batchId i))) s := by
  unfold enqueue
  by_cases hkey : settleKey batchId i = ""
  · simp only [hkey, if_true]
    exact hkey ▸ safe_insertMatch hb hi hun
  · simp only [hkey, if_false]
    refine Discipline.Safe.query_bind fun s₁ hs₁ =>
      ⟨trivial, fun c _ => ?_⟩
    refine ⟨fun found hfound => ?_, fun e _ s₂ _ row hrow => by cases hrow⟩
    obtain ⟨d, rfl, hok⟩ := exec_answered hfound
    injection hok with hok
    subst hok
    cases hrow : s₁.jobByKey (settleKey batchId i) with
    | none => exact safe_insertMatch hb hi (hun.later hs₁.1)
    | some row =>
        obtain ⟨hn, hkey'⟩ := jobByKey_some hrow
        have hq : s₁.Queued batchId i :=
          ⟨row.1, row.2, hn, (hs₁.2.keyed _ _ hn batchId i).mpr hkey'⟩
        exact fun s₂ hs₂ _ _ => hq.later hs₂.1

/-- A read leaves its result in the log. -/
theorem safe_isRfqRouted (ex : Examination) (intentId : String) :
    settling.Safe (exec cfg) pid
      (fun r s' => ∀ routed, r = .ok routed →
        .examined pid ex routed ∈ s'.log)
      (isRfqRouted ex intentId) s := by
  refine Discipline.Safe.query fun s₁ _ => ⟨trivial, fun c _ s₂ hs₂ => ?_⟩
  intro routed hrouted
  obtain ⟨d, rfl, hok⟩ := exec_answered hrouted
  injection hok with hok
  subst hok
  exact hs₂.1.log _ (List.mem_append_right _ (List.mem_singleton_self _))

/-- The statements that need no knowledge. -/
def Reads : Call → Prop
  | .insertJob _ => False
  | .finishBatch _ _ => False
  | .insertBatch _ _ => False
  | _ => True

/-- A read needs no examination. -/
theorem examined_read (pid : ℕ) (q : Call) (s : Shared Plain)
    (h : Reads q) : Examined pid q s := by
  cases q <;> trivial

/-- A match is done with when it has its row or has shown a routed
side. -/
def Done (pid : ℕ) (batchId : String) (i : ℕ) (s : Shared Plain) : Prop :=
  s.Queued batchId i ∨ s.RoutedFor pid batchId i

/-- What is done stays done. -/
theorem Done.later (h : Done pid batchId i s) (hs : Grows s s') :
    Done pid batchId i s' := by
  rcases h with h | h
  · exact Or.inl (h.later hs)
  · exact Or.inr (h.later hs)

/-- Each match is queued or was found routed, -/
theorem safe_queueMatch (row : BatchRow) (queued : ℕ)
    (p : MatchResult × ℕ) (hs : Settled s) :
    settling.Safe (exec cfg) pid
      (fun r s' => ∀ a, r = .ok a → Done pid batchId p.2 s')
      (queueMatch batchId row queued p) s := by
  have L := settling_lawful cfg
  have U := settling_uniform cfg
  refine (safe_both L U (I := fun _ => True)
    (X := fun routed s => .examined pid ⟨batchId, p.2, true⟩ routed ∈ s.log)
    (Y := fun routed s => .examined pid ⟨batchId, p.2, false⟩ routed ∈ s.log)
    (fun _ => trivial) (fun _ _ _ _ => trivial)
    (fun _ _ _ hd hrely => hrely.log _ hd)
    (fun _ _ _ hd hrely => hrely.log _ hd)
    (fun _ _ => safe_isRfqRouted ⟨batchId, p.2, true⟩ p.1.intentAId)
    (fun _ _ => safe_isRfqRouted ⟨batchId, p.2, false⟩ p.1.intentBId)
    trivial).bind L _ hs ?_ fun e s' _ _ a ha => by cases ha
  intro routed s₁ hs₁ hread
  obtain ⟨hA, hB⟩ := hread routed rfl
  obtain ⟨aRfqRouted, bRfqRouted⟩ := routed
  cases aRfqRouted with
  | true =>
      have hdone : Done pid batchId p.2 s₁ := Or.inr ⟨true, hA⟩
      exact fun s₂ hs₂ a _ => hdone.later hs₂.1
  | false =>
      cases bRfqRouted with
      | true =>
          have hdone : Done pid batchId p.2 s₁ := Or.inr ⟨false, hB⟩
          exact fun s₂ hs₂ a _ => hdone.later hs₂.1
      | false =>
          have hun : s₁.UnroutedFor pid batchId p.2 := fun sideA =>
            match sideA with
            | true => hA
            | false => hB
          have hnotes : settling.Safe (exec cfg) pid (fun _ _ => True)
              (both (fetchIntentNote p.1.intentAId)
                (fetchIntentNote p.1.intentBId)) s₁ :=
            .of_uses examined_read (uses_both (Prog.uses_query trivial)
              (Prog.uses_query trivial) (Prog.uses_query trivial))
          refine (hnotes.frame U (I := fun s => s.UnroutedFor pid batchId p.2)
            (fun _ _ h hrely => h.later hrely) hun).bind L _ hs₁ ?_
            fun e s' _ _ a ha => by cases ha
          intro notes s₂ hs₂ hn
          refine (safe_enqueueMatch rfl rfl hn.2).bind L _ hs₂ ?_
            fun e s' _ _ a ha => by cases ha
          intro found s₃ _ hq s₄ hs₄ a _
          exact Or.inl ((hq found rfl).later hs₄.1)

/-- every one of a batch before the batch is finished, -/
theorem safe_queueSettlementJobs {row : BatchRow}
    (hs : Settled s) (hrow : Known batchId row s) :
    settling.Safe (exec cfg) pid (fun _ _ => True)
      (queueSettlementJobs batchId row) s := by
  have L := settling_lawful cfg
  have U := settling_uniform cfg
  -- after a prefix of the loop, its matches are done with
  have hloop : settling.Safe (exec cfg) pid
      (fun r s' => ∀ a, r = .ok a →
        ∀ p ∈ row.matchResults.zipIdx, Done pid batchId p.2 s')
      (row.matchResults.zipIdx.foldlM (queueMatch batchId row) 0) s := by
    refine Discipline.Safe.foldlM L
      (fun (pre : List (MatchResult × ℕ)) _ s =>
        ∀ p ∈ pre, Done pid batchId p.2 s)
      (fun pre a s s' h hs' p hp => (h p hp).later hs'.1) ?_ hs
      (fun p hp => by cases hp)
    intro pre p suf _ queued s₁ hs₁ hpre
    refine ((safe_queueMatch row queued p hs₁).frame U
      (I := fun s => ∀ p ∈ pre, Done pid batchId p.2 s)
      (fun s₁ s₂ h hrely p hp => (h p hp).later hrely) hpre).mono ?_
    intro r s₂ _ ⟨hdone, hpre⟩ a ha p' hp'
    rcases List.mem_append.mp hp' with hp' | hp'
    · exact hpre p' hp'
    · rw [List.mem_singleton.mp hp']
      exact hdone a ha
  refine (hloop.frame U (I := Known batchId row)
    (fun _ _ h hrely => h.later hrely) hrow).bind L _
    hs ?_ (fun _ _ _ _ => trivial)
  intro queued s₁ _ ⟨hdone, hrow₁⟩
  refine Discipline.Safe.query fun s₂ hs₂ =>
    ⟨?_, fun _ _ _ _ => trivial⟩
  obtain ⟨row', hrow', hsame⟩ := hrow₁.later hs₂.1
  refine ⟨row', hrow', fun i hi => ?_⟩
  rw [hsame.matchResults] at hi
  have hmem : (row.matchResults[i], i) ∈ row.matchResults.zipIdx :=
    List.mem_zipIdx_iff_getElem?.mpr (List.getElem?_eq_getElem hi)
  exact (hdone queued rfl _ hmem).later hs₂.1

/-- in every batch of a tick. -/
theorem safe_settleOnce :
    settling.Safe (exec cfg) pid (fun _ _ => True) settleOnce s :=
  safe_settleOnce_of (settling_lawful cfg) (settling_uniform cfg)
    (F := Known) (fun _ => trivial)
    (fun _ _ row _ hrow => ⟨row, hrow, SameBatch.refl row⟩)
    (fun _ _ _ _ h hrely => h.later hrely)
    fun _ _ _ hs hrow => safe_queueSettlementJobs hs hrow

-- ======================================================== the other tasks

/-- The other tasks finish no batch and insert no settlement job. -/
theorem examined_makes {hashJson : RfqBody → String} {t : Task}
    (hsettle : t ≠ .settle) (hserved : t.Served) {q : Call}
    (h : t.Makes hashJson q) (pid : ℕ) (s : Shared Plain) :
    Examined pid q s := by
  cases t with
  | settle => exact absurd rfl hsettle
  | relay work => cases q <;> trivial
  | prove proof => cases q <;> trivial
  | submitMpc user body => cases q <;> trivial
  | submitRfq key body =>
      rcases h with rfl | h
      · trivial
      · cases q <;> trivial
  | persist sessionId batch =>
      cases q with
      | insertBatch batchId row =>
          obtain ⟨-, rfl⟩ := h
          rfl
      | _ => trivial
  | enqueue queue jobType payload key =>
      obtain ⟨job, json, htask⟩ := hserved
      injection htask with _ _ hpayload hkey
      cases q with
      | insertJob job' =>
          obtain rfl := h
          have hnot : ∀ batchId i, ¬(queuedJob queue jobType payload
              key).Settles batchId i := by
            rintro batchId i ⟨-, p, hp, -⟩
            rw [show (queuedJob queue jobType payload key).payload
              = payload from rfl, hpayload] at hp
            cases hp
          refine ⟨fun batchId i => ⟨fun h => absurd h (hnot batchId i),
            fun h => ?_⟩, fun batchId i h => absurd h (hnot batchId i)⟩
          exact absurd (hkey.symm.trans h) (job.key_ne_settleKey batchId i)
      | _ => trivial

/-- So they keep `Settled` too. -/
theorem safe_served (hashJson : RfqBody → String) {t : Task}
    (ht : t.Served) :
    settling.Safe (exec cfg) pid (fun _ _ => True) (t.code hashJson) s := by
  by_cases hsettle : t = .settle
  · subst hsettle
    exact Discipline.Safe.map safe_settleOnce
  · exact .of_uses (fun i q s h => examined_makes hsettle ht h i s)
      (uses_code hashJson t)

/-- In every run of the services, whichever statements fail and whoever is
killed: a match has at most one row, a batch is finished only when each
of its matches has its row or has shown the finisher a routed side, and
no match gets a row that has shown one at every examination. -/
theorem queued_once (dep : Deployment Key Plain) (es : List Event)
    (hes : ∀ e ∈ es, ∀ t, e = .start t → t.Served) :
    QueuedOnce (Run.run (services dep).step (Estate.boot dep) es).shared :=
  by
  have hmeets : ∀ t ∈ Run.accepted (services dep).step
      (Estate.boot dep) es, System.Meets Task.Served settling.Allow t :=
    System.meets_of_started hes fun t _ => by
      unfold System.Meets
      split <;> first | trivial | exact fun q _ => trivial
  have hstart : ∀ t, Task.Served t → ∀ i s, settling.Inv s →
      settling.Safe (services dep).exec i (fun _ _ => True)
        ((services dep).code t) s :=
    fun t ht i s _ => safe_served dep.hashJson ht
  have hguarded : (services dep).Guarded settling (fun _ _ _ => True)
      (Run.run (services dep).step (Estate.boot dep) es) := by
    refine System.guarded_run (settling_lawful dep.committee)
      hstart ?_ ⟨?_, ?_⟩ hmeets
    · intro e s s' ts hs he
      obtain ⟨world, -, -, rfl, rfl⟩ := coordinate_cases he
      have hs' : Settled { s with world } :=
        ⟨hs.unique, hs.keyed, hs.unrouted, hs.finished, hs.pending⟩
      refine ⟨hs', fun _ => ⟨JobsKept.refl s, fun _ hd => hd,
        BatchesKept.refl s⟩, fun t ht i => ?_⟩
      obtain ⟨-, -, batch, sess, -, rfl⟩ := of_mem_newlySigned ht
      have hserved : (Task.persist sess.sessionId batch).Served := trivial
      exact safe_served dep.hashJson hserved
    · refine ⟨fun m n a b key hm => ?_, fun n job hn => ?_,
        fun batchId i hq => ?_, fun pid batchId hd => ?_,
        fun batchId row hrow => ?_⟩
      · cases hm
      · cases hn
      · obtain ⟨n, job, hn, -⟩ := hq
        cases hn
      · cases hd
      · cases hrow
    · intro i t c hi
      cases hi
  exact hguarded.inv.queuedOnce

namespace Demo

/-- Two settlers read the pending batch before either queues its
match. -/
def settled : List Event :=
  matched ++ [.start .settle, .start .settle] ++ turns 3 1 ++ turns 4 1
    ++ turns 3 10 ++ turns 4 9

end Demo

/-- In this run a match is settled. -/
theorem settled_once :
    QueuedOnce (Run.run (services Demo.services).step
      (Estate.boot Demo.services) Demo.settled).shared :=
  queued_once Demo.services Demo.settled fun e he t ht => by
    subst ht
    simp [Demo.settled, Demo.matched, Demo.turns] at he
    rcases he with rfl | rfl | rfl <;> trivial

end Lumix.Services
