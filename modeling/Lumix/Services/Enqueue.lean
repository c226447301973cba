/-
Concurrent calls of `enqueue` with one key.

The look-up and the insert are two statements, and only the unique key
stands between two callers that both found nothing. The second insert
is refused, nothing catches that, and the caller gets the error although
its job is queued. Where no insert comes upon a row of its key, every
call returns the one row.
-/
import Lumix.Services.Jobs

namespace Lumix.Services

open Shared

variable {Key Plain : Type}

-- ====================================================== the statement

/-- The calls with this key that are through have returned the one row
that has it, and none has thrown. -/
def EnqueueIdempotent (m : Estate Plain) (key : String) : Prop :=
  (∀ (i : ℕ) queue jobType payload r,
    m.procs[i]? = some ⟨.enqueue queue jobType payload (some key),
      some (.pure r)⟩ →
    ∃ row job, r = .job row ∧ m.shared.jobs[row.1]? = some job
      ∧ SameJob row.2 job ∧ job.idempotencyKey = some key
      ∧ ∀ (n : ℕ) job', m.shared.jobs[n]? = some job' →
        job'.idempotencyKey = some key → n = row.1)
    ∧ ∀ (i : ℕ) queue jobType payload e,
      m.procs[i]? ≠ some ⟨.enqueue queue jobType payload (some key),
        some (.throw e)⟩

/-- An insert into `service_jobs` finds no row of its key. -/
def KeyFree (q : Call) (s : Shared Plain) : Prop :=
  match q with
  | .insertJob job => job.idempotencyKey.bind s.jobByKey = none
  | _ => True

instance (q : Call) (s : Shared Plain) : Decidable (KeyFree q s) := by
  unfold KeyFree
  split <;> infer_instance

-- ====================================================== the discipline

/-- What a call of `enqueue` with a key has to show. -/
def Answered : Task → Except Fault Reply → Shared Plain → Prop
  | .enqueue _ _ _ (some key), r, s =>
      ∃ row job, r = .ok (.job row) ∧ s.jobs[row.1]? = some job
        ∧ SameJob row.2 job ∧ job.idempotencyKey = some key
  | _, _, _ => True

/-- What the statements owe each other: keys stay unique and no job is
lost, as long as none is inserted under a key that is taken. -/
def enqueueing : Discipline Call (Shared Plain) Choice where
  Inv := KeysUnique
  Rely := fun _ => JobsKept
  Pre := fun _ _ _ => True
  Allow := fun _ q c s => c.goes ∧ KeyFree q s

/-- They keep it. -/
theorem enqueueing_lawful (cfg : Committee.Config Key Plain) :
    enqueueing.Lawful (exec cfg) where
  refl := fun _ => JobsKept.refl
  trans := fun _ _ _ _ => JobsKept.trans
  keeps := fun pid q c s hs _ _ =>
    ⟨keysUnique_exec cfg pid q c hs, fun _ _ => jobsKept_exec cfg pid q c s⟩

variable {cfg : Committee.Config Key Plain} {pid : ℕ}

/-- The row a call has in hand stays the row of its key. -/
def Holds (key : String) (row : JobRow) (s : Shared Plain) : Prop :=
  ∃ job, s.jobs[row.1]? = some job ∧ SameJob row.2 job
    ∧ job.idempotencyKey = some key

/-- A job in the queue stays there. -/
theorem Holds.later {key : String} {row : JobRow} {s s' : Shared Plain}
    (h : Holds key row s) (hs : JobsKept s s') : Holds key row s' := by
  obtain ⟨job, hjob, hsame, hkey⟩ := h
  obtain ⟨job', hjob', hsame'⟩ := hs _ _ hjob
  exact ⟨job', hjob', hsame.trans hsame',
    hsame'.idempotencyKey.trans hkey⟩

/-- Its id is one that has been given out. -/
theorem Holds.lt {key : String} {row : JobRow} {s : Shared Plain}
    (h : Holds key row s) : row.1 < s.jobs.length := by
  obtain ⟨job, hjob, -⟩ := h
  exact (List.getElem?_eq_some_iff.mp hjob).1

/-- An insertion returns the row of its key. -/
theorem safe_insertQueued {key : String} {queue : QueueName}
    {jobType : String} {payload : Payload} {s : Shared Plain} :
    enqueueing.Safe (exec cfg) pid
      (fun r s' => ∃ row, r = .ok row ∧ Holds key row s')
      (insertQueued queue jobType payload (some key)) s := by
  set job := queuedJob queue jobType payload (some key) with hjob
  refine Discipline.Safe.query_ok fun s₁ _ => ⟨trivial, ?_⟩
  intro c hchoice
  obtain ⟨hc, hfree⟩ := hchoice
  obtain ⟨d, rfl⟩ := hc.exists
  have hnone : job.idempotencyKey.bind s₁.jobByKey = none := hfree
  refine ⟨{ s₁ with jobs := s₁.jobs ++ [job] }, (s₁.jobs.length, job),
    ?_, ?_⟩
  · simp only [exec, perform, ← hjob, hnone]
  have hholds : Holds key (s₁.jobs.length, job)
      { s₁ with jobs := s₁.jobs ++ [job] } :=
    ⟨job, List.getElem?_concat_length .., SameJob.refl job, rfl⟩
  refine Discipline.Safe.query_ok fun s₂ hs₂ => ⟨trivial, ?_⟩
  intro c hchoice
  obtain ⟨d, rfl⟩ := hchoice.1.exists
  have hholds₂ := hholds.later hs₂.1
  refine ⟨s₂, (), ?_, fun s₃ hs₃ => ⟨_, rfl, hholds₂.later hs₃.1⟩⟩
  simp only [exec, perform]
  exact if_pos hholds₂.lt

/-- So does `enqueue`, whether it finds the row or inserts it. -/
theorem safe_enqueue {key : String} {queue : QueueName}
    {jobType : String} {payload : Payload} {s : Shared Plain} :
    enqueueing.Safe (exec cfg) pid
      (fun r s' => ∃ row, r = .ok row ∧ Holds key row s')
      (enqueue queue jobType payload (some key)) s := by
  unfold enqueue
  by_cases hkey : key = ""
  · simp only [hkey, if_true]
    exact safe_insertQueued
  · simp only [hkey, if_false]
    refine Discipline.Safe.query_ok fun s₁ _ => ⟨trivial, ?_⟩
    intro c hchoice
    obtain ⟨d, rfl⟩ := hchoice.1.exists
    refine ⟨s₁, s₁.jobByKey key, rfl, ?_⟩
    cases hfound : s₁.jobByKey key with
    | none => exact safe_insertQueued
    | some row =>
        obtain ⟨hrow, hkey⟩ := jobByKey_some hfound
        have hholds : Holds key row s₁ := ⟨row.2, hrow, SameJob.refl _, hkey⟩
        exact fun s₂ hs₂ => ⟨row, rfl, hholds.later hs₂.1⟩

/-- So every task that enqueues is answered with the row of its key. -/
theorem safe_task (hashJson : RfqBody → String) (t : Task)
    {s : Shared Plain} :
    enqueueing.Safe (exec cfg) pid (Answered t) (t.code hashJson) s := by
  have hother : ∀ t : Task,
      (∀ (r : Except Fault Reply) (s : Shared Plain), Answered t r s) →
      enqueueing.Safe (exec cfg) pid (Answered t) (t.code hashJson) s :=
    fun t ht => (Discipline.Safe.of_uses (fun _ _ _ _ => trivial)
      (Prog.uses_any _)).mono fun r s' _ _ => ht r s'
  cases t with
  | enqueue queue jobType payload idempotencyKey =>
      cases idempotencyKey with
      | none => exact hother _ fun r s => trivial
      | some key =>
          refine Discipline.Safe.map (safe_enqueue.mono ?_)
          rintro r s' - ⟨row, rfl, job, hjob, hsame, hkey⟩
          exact ⟨row, job, rfl, hjob, hsame, hkey⟩
  | submitMpc user body => exact hother _ fun r s => trivial
  | submitRfq idempotencyKey body => exact hother _ fun r s => trivial
  | persist sessionId batch => exact hother _ fun r s => trivial
  | settle => exact hother _ fun r s => trivial
  | relay work => exact hother _ fun r s => trivial
  | prove proof => exact hother _ fun r s => trivial

-- ============================================================= the runs

/-- A coordinator that stops or starts leaves the queue as it is. -/
theorem keysUnique_coordinate {cfg : Committee.Config Key Plain}
    {e : Committee.Event} {s s' : Shared Plain} {ts : List Task}
    (h : coordinate cfg e s = some (s', ts)) (hs : KeysUnique s) :
    KeysUnique s' ∧ JobsKept s s' := by
  obtain ⟨world, -, -, rfl, -⟩ := coordinate_cases h
  exact ⟨hs, JobsKept.refl s⟩

/-- Whatever else the services do meanwhile: in a run whose statements do
not fail and whose inserts find their key free, every call of `enqueue`
with a key returns the one row of that key. -/
theorem enqueue_idempotent (dep : Deployment Key Plain) (es : List Event)
    (hes : ∀ t ∈ Run.accepted (services dep).step (Estate.boot dep) es,
      System.Meets (fun _ => True) (fun _ q c s => c.goes ∧ KeyFree q s) t)
    (key : String) :
    EnqueueIdempotent
      (Run.run (services dep).step (Estate.boot dep) es) key := by
  have L := enqueueing_lawful dep.committee
  have hguarded : (services dep).Guarded enqueueing Answered
      (Run.run (services dep).step (Estate.boot dep) es) := by
    refine System.guarded_run L
      (fun t _ i s _ => safe_task dep.hashJson t) ?_ ?_ hes
    · intro e s s' ts hs he
      obtain ⟨hinv, hkept⟩ := keysUnique_coordinate he hs
      exact ⟨hinv, fun _ => hkept, fun t _ i => safe_task dep.hashJson t⟩
    · refine ⟨fun m n a b key hm => ?_, fun i t c hi => ?_⟩
      · cases hm
      · cases hi
  refine ⟨fun i queue jobType payload r hi => ?_,
    fun i queue jobType payload e hi => ?_⟩
  · obtain ⟨row, job, hr, hjob, hsame, hkey⟩ := hguarded.finished L hi
    injection hr with hr
    refine ⟨row, job, hr, hjob, hsame, hkey, fun n job' hn hkey' => ?_⟩
    exact hguarded.inv n row.1 job' job key hn hjob hkey' hkey
  · obtain ⟨row, job, hr, -⟩ := hguarded.threw L hi
    cases hr

namespace Demo

/-- A withdrawal enqueued under a key. -/
def withdraw : Task :=
  .enqueue .relayer "WITHDRAW_PUBLIC_SUBMIT" (.other "\x7b\x7d")
    (some "wd-submit:1")

/-- Two calls of it, the second after the first. -/
def sequel : List Event :=
  [.start withdraw, .run 0 go, .run 0 go, .run 0 go, .start withdraw,
   .run 1 go]

/-- Both callers look the key up before either inserts. -/
def race : List Event :=
  [.start withdraw, .start withdraw, .run 0 go, .run 1 go, .run 0 go,
   .run 1 go]

end Demo

/-- One caller after the other. -/
theorem sequel_idempotent :
    EnqueueIdempotent (Run.run (Services.services Demo.services).step
      (Estate.boot Demo.services) Demo.sequel) "wd-submit:1" :=
  enqueue_idempotent Demo.services Demo.sequel (by decide +kernel) _

/-- No statement fails in the race, and yet a call raises. -/
theorem race_observed :
    (∀ t ∈ Run.accepted (Services.services Demo.services).step
        (Estate.boot Demo.services) Demo.race,
      System.Meets (fun _ => True) (fun _ _ c _ => c.goes) t)
      ∧ ¬EnqueueIdempotent (Run.run (Services.services Demo.services).step
          (Estate.boot Demo.services) Demo.race) "wd-submit:1" := by
  refine ⟨by decide +kernel, fun h => ?_⟩
  have hthrown : (Run.run (Services.services Demo.services).step
      (Estate.boot Demo.services) Demo.race).procs[1]?
      = some ⟨Demo.withdraw, some (.throw .unique)⟩ := rfl
  exact h.2 1 _ _ _ _ hthrown

end Lumix.Services
