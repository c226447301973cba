/-
What the statements leave of `service_jobs`: rows are only added, a row
keeps what it was inserted with, and no two rows share a key.

The three facts hold across every call of every service, so each result
about the queue takes them from here and adds what it needs of statuses
and attempts.
-/
import Lumix.Services.Settlement

namespace Lumix.Services

variable {Key Plain : Type}

/-- The columns no statement updates. -/
structure SameJob (a b : ServiceJob) : Prop where
  jobType : b.jobType = a.jobType
  queue : b.queue = a.queue
  idempotencyKey : b.idempotencyKey = a.idempotencyKey
  payload : b.payload = a.payload
  maxAttempts : b.maxAttempts = a.maxAttempts

/-- A job is itself. -/
theorem SameJob.refl (a : ServiceJob) : SameJob a a :=
  ⟨rfl, rfl, rfl, rfl, rfl⟩

/-- The same job twice over. -/
theorem SameJob.trans {a b c : ServiceJob} (h : SameJob a b)
    (h' : SameJob b c) : SameJob a c where
  jobType := h'.jobType.trans h.jobType
  queue := h'.queue.trans h.queue
  idempotencyKey := h'.idempotencyKey.trans h.idempotencyKey
  payload := h'.payload.trans h.payload
  maxAttempts := h'.maxAttempts.trans h.maxAttempts

namespace Shared

variable {s s' : Shared Plain}

-- ======================================================= rows and keys

/-- The row found under a key is in the table and has the key. -/
theorem jobByKey_some {key : String} {row : JobRow}
    (h : s.jobByKey key = some row) :
    s.jobs[row.1]? = some row.2 ∧ row.2.idempotencyKey = some key := by
  unfold jobByKey at h
  obtain ⟨p, hp, rfl⟩ := Option.map_eq_some_iff.mp h
  have hkey := List.find?_some hp
  have hmem := List.mem_of_find?_eq_some hp
  exact ⟨List.mem_zipIdx_iff_getElem?.mp hmem, by simpa using hkey⟩

/-- When none is found, no row has the key. -/
theorem jobByKey_none {key : String} (h : s.jobByKey key = none) {n : ℕ}
    {job : ServiceJob} (hn : s.jobs[n]? = some job) :
    job.idempotencyKey ≠ some key := by
  unfold jobByKey at h
  rw [Option.map_eq_none_iff, List.find?_eq_none] at h
  have hmem : (job, n) ∈ s.jobs.zipIdx :=
    List.mem_zipIdx_iff_getElem?.mpr hn
  simpa using h _ hmem

/-- `idempotency_key text UNIQUE` -/
def KeysUnique (s : Shared Plain) : Prop :=
  ∀ (m n : ℕ) (a b : ServiceJob) (key : String),
    s.jobs[m]? = some a → s.jobs[n]? = some b →
    a.idempotencyKey = some key → b.idempotencyKey = some key → m = n

/-- The rows there are stay. -/
def JobsKept (s s' : Shared Plain) : Prop :=
  ∀ (n : ℕ) (a : ServiceJob), s.jobs[n]? = some a →
    ∃ b, s'.jobs[n]? = some b ∧ SameJob a b

/-- A moment in which nothing happened. -/
theorem JobsKept.refl (s : Shared Plain) : JobsKept s s :=
  fun _ a h => ⟨a, h, SameJob.refl a⟩

/-- Kept over two stretches, kept over both. -/
theorem JobsKept.trans {s₁ s₂ s₃ : Shared Plain} (h : JobsKept s₁ s₂)
    (h' : JobsKept s₂ s₃) : JobsKept s₁ s₃ := by
  intro n a ha
  obtain ⟨b, hb, hab⟩ := h n a ha
  obtain ⟨c, hc, hbc⟩ := h' n b hb
  exact ⟨c, hc, hab.trans hbc⟩

/-- No id is given back. -/
theorem JobsKept.length (h : JobsKept s s') :
    s.jobs.length ≤ s'.jobs.length := by
  apply Nat.le_of_not_lt
  intro hlt
  obtain ⟨b, hb, -⟩ := h s'.jobs.length (s.jobs[s'.jobs.length])
    (List.getElem?_eq_getElem hlt)
  obtain ⟨hlt', -⟩ := List.getElem?_eq_some_iff.mp hb
  exact Nat.lt_irrefl _ hlt'

end Shared

open Shared

-- ============================================================ by effect

/-- An update of one row that keeps the columns of `SameJob`. -/
theorem getElem?_modify_same {jobs : List ServiceJob}
    {f : ServiceJob → ServiceJob} (hf : ∀ job, SameJob job (f job))
    (jobId n : ℕ) (a : ServiceJob) (h : jobs[n]? = some a) :
    ∃ b, (jobs.modify jobId f)[n]? = some b ∧ SameJob a b := by
  rw [List.getElem?_modify, h]
  by_cases hn : jobId = n
  · exact ⟨f a, by simp [hn], hf a⟩
  · exact ⟨a, by simp [hn], SameJob.refl a⟩

/-- The job that is modified. -/
theorem getElem?_modify_self {jobs : List ServiceJob}
    (f : ServiceJob → ServiceJob) {n : ℕ} {a : ServiceJob}
    (h : jobs[n]? = some a) : (jobs.modify n f)[n]? = some (f a) := by
  rw [List.getElem?_modify_eq, h]
  rfl

/-- Any other. -/
theorem getElem?_modify_other {jobs : List ServiceJob}
    (f : ServiceJob → ServiceJob) {n m : ℕ} {a : ServiceJob} (hne : n ≠ m)
    (h : jobs[m]? = some a) : (jobs.modify n f)[m]? = some a := by
  rw [List.getElem?_modify_ne _ _ hne]
  exact h

/-- Whatever a row is after an update of one row, it was there before. -/
theorem getElem?_of_modify {jobs : List ServiceJob}
    {f : ServiceJob → ServiceJob} {jobId n : ℕ} {b : ServiceJob}
    (h : (jobs.modify jobId f)[n]? = some b) :
    ∃ a, jobs[n]? = some a
      ∧ ((jobId = n ∧ b = f a) ∨ (jobId ≠ n ∧ b = a)) := by
  rw [List.getElem?_modify] at h
  cases ha : jobs[n]? with
  | none => rw [ha] at h; cases h
  | some a =>
      rw [ha] at h
      by_cases hn : jobId = n
      · simp [hn] at h
        exact ⟨a, rfl, Or.inl ⟨hn, h.symm⟩⟩
      · simp [hn] at h
        exact ⟨a, rfl, Or.inr ⟨hn, h.symm⟩⟩

/-- What a call does to the jobs: nothing, one row more, or an update of
one row. -/
inductive JobsEffect (s : Shared Plain) : Call → List ServiceJob → Prop
  | same (q : Call) : JobsEffect s q s.jobs
  | inserted {job : ServiceJob}
      (h : job.idempotencyKey.bind s.jobByKey = none) :
      JobsEffect s (.insertJob job) (s.jobs ++ [job])
  | updated {q : Call} (jobId : ℕ) (f : ServiceJob → ServiceJob)
      (hf : ∀ job, SameJob job (f job)) :
      JobsEffect s q (s.jobs.modify jobId f)

/-- What a statement does to the queue. -/
theorem Effect.jobs {cfg : Committee.Config Key Plain} {pid : ℕ}
    {s s' : Shared Plain} {q : Call} (h : Effect cfg pid s q s') :
    JobsEffect s q s'.jobs := by
  have hsame : ∀ (status : JobStatus) (job : ServiceJob),
      SameJob job { job with status } := fun _ _ => ⟨rfl, rfl, rfl, rfl, rfl⟩
  cases h with
  | inserted h => exact .inserted h
  | claimed h => exact .updated _ _ fun _ => ⟨rfl, rfl, rfl, rfl, rfl⟩
  | advanced => exact .updated _ _ (hsame _)
  | completed => exact .updated _ _ (hsame _)
  | abandoned => exact .updated _ _ (hsame _)
  | requeued => exact .updated _ _ (hsame _)
  | quiet => exact .same _
  | forwarded h => exact .same _
  | opened h => exact .same _
  | written h => exact .same _
  | rewritten h => exact .same _
  | created h => exact .same _
  | linked => exact .same _
  | stored h => exact .same _
  | signed => exact .same _
  | marked => exact .same _
  | examined => exact .same _
  | finished => exact .same _

variable {s s' : Shared Plain} {q : Call}

/-- No statement loses a job or changes what was asked for, -/
theorem JobsEffect.kept (h : JobsEffect s q s'.jobs) : JobsKept s s' := by
  intro n a ha
  generalize s'.jobs = jobs at h
  cases h with
  | same => exact ⟨a, ha, SameJob.refl a⟩
  | inserted h =>
      obtain ⟨hlt, -⟩ := List.getElem?_eq_some_iff.mp ha
      exact ⟨a, (List.getElem?_append_left hlt).trans ha, SameJob.refl a⟩
  | updated jobId f hf => exact getElem?_modify_same hf jobId n a ha

/-- A row after a call was there before, with the same columns, or is the
one inserted. -/
theorem JobsEffect.origin (h : JobsEffect s q s'.jobs) {n : ℕ}
    {b : ServiceJob} (hb : s'.jobs[n]? = some b) :
    (∃ a, s.jobs[n]? = some a ∧ SameJob a b)
      ∨ (q = .insertJob b ∧ n = s.jobs.length
          ∧ b.idempotencyKey.bind s.jobByKey = none) := by
  generalize s'.jobs = jobs at h hb
  cases h with
  | same => exact Or.inl ⟨b, hb, SameJob.refl b⟩
  | inserted h =>
      rename_i job
      rcases Nat.lt_trichotomy n s.jobs.length with hlt | heq | hgt
      · rw [List.getElem?_append_left hlt] at hb
        exact Or.inl ⟨b, hb, SameJob.refl b⟩
      · subst heq
        rw [List.getElem?_concat_length] at hb
        injection hb with hb
        subst hb
        exact Or.inr ⟨rfl, rfl, h⟩
      · rw [List.getElem?_eq_none (by simp; omega)] at hb
        cases hb
  | updated jobId f hf =>
      obtain ⟨a, ha, ⟨-, rfl⟩ | ⟨-, rfl⟩⟩ := getElem?_of_modify hb
      · exact Or.inl ⟨a, ha, hf a⟩
      · exact Or.inl ⟨_, ha, SameJob.refl _⟩

/-- and none gives a second job a key. -/
theorem JobsEffect.keysUnique (h : JobsEffect s q s'.jobs)
    (hs : KeysUnique s) : KeysUnique s' := by
  -- a new row's key is nobody's
  have hfresh : ∀ {m n : ℕ} {a b b' : ServiceJob} {key : String},
      s.jobs[m]? = some a → SameJob a b' →
      b.idempotencyKey.bind s.jobByKey = none →
      b.idempotencyKey = some key → b'.idempotencyKey = some key →
      m = n := by
    intro m n a b b' key ha hab hnone hb hb'
    rw [hb] at hnone
    exact absurd (hab.idempotencyKey.symm.trans hb')
      (jobByKey_none hnone ha)
  intro m n a b key hm hn ha hb
  rcases h.origin hm with ⟨a', ha', haa⟩ | ⟨-, hlen, hnone⟩
  · rcases h.origin hn with ⟨b', hb', hbb⟩ | ⟨-, hlen', hnone'⟩
    · exact hs m n a' b' key ha' hb' (haa.idempotencyKey.symm.trans ha)
        (hbb.idempotencyKey.symm.trans hb)
    · exact hfresh ha' haa hnone' hb ha
  · rcases h.origin hn with ⟨b', hb', hbb⟩ | ⟨-, hlen', -⟩
    · exact (hfresh hb' hbb hnone ha hb).symm
    · exact hlen.trans hlen'.symm

/-- So whatever becomes of the statement. -/
theorem jobsKept_exec (cfg : Committee.Config Key Plain) (pid : ℕ)
    (q : Call) (c : Choice) (s : Shared Plain) :
    JobsKept s (exec cfg pid q c s).1 :=
  (effect_exec cfg pid q c s).jobs.kept

/-- So whatever becomes of it. -/
theorem keysUnique_exec (cfg : Committee.Config Key Plain) (pid : ℕ)
    (q : Call) (c : Choice) {s : Shared Plain} (h : KeysUnique s) :
    KeysUnique (exec cfg pid q c s).1 :=
  (effect_exec cfg pid q c s).jobs.keysUnique h

/-- The coordinator's own steps touch no table. -/
theorem coordinate_cases {cfg : Committee.Config Key Plain}
    {e : Committee.Event} {s s' : Shared Plain} {ts : List Task}
    (h : coordinate cfg e s = some (s', ts)) :
    ∃ world, e.submission = none
      ∧ Committee.step cfg s.world e = .ok world
      ∧ s' = { s with world } ∧ ts = newlySigned s.world world := by
  unfold coordinate at h
  cases he : e.submission with
  | some p => rw [he] at h; cases h
  | none =>
      rw [he] at h
      cases hw : Committee.step cfg s.world e with
      | error r => simp only [hw] at h; cases h
      | ok world =>
          simp only [hw] at h
          injection h with h
          injection h with hs hts
          exact ⟨world, rfl, rfl, hs.symm, hts.symm⟩

end Lumix.Services
