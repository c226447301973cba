/-
The queue's state machine under any number of workers.

A job belongs to the worker that claimed it until that worker completes
it, fails it or puts it back, and every update is made by the owner. So
a claimed or in-progress job has one holder, and attempts stay within
their bound, because a job is put back only by a worker that has just
read that attempts remain.

One thing breaks the law. `complete` updates the job and then inserts an
event; if that insert fails, the worker's catch block runs `fail` on a
job that is ready, and puts it back.
-/
import Lumix.Services.Enqueue
import Lumix.Services.Footprint

namespace Lumix.Services

open Shared

variable {Key Plain : Type}

-- ====================================================== the statement

/-- Claimed or in progress. -/
def JobStatus.active : JobStatus → Bool
  | claimed => true
  | progress _ => true
  | _ => false

/-- Completed, or failed for good. -/
def JobStatus.over : JobStatus → Bool
  | ready => true
  | failed => true
  | _ => false

/-- A claimable job is nobody's, -/
theorem JobStatus.not_active_of_claimable {status : JobStatus}
    (h : status.claimable) : ¬status.active := by
  cases status <;> simp [claimable, active] at h ⊢

/-- and not over. -/
theorem JobStatus.not_over_of_claimable {status : JobStatus}
    (h : status.claimable) : ¬status.over := by
  cases status <;> simp [claimable, JobStatus.over] at h ⊢

/-- Nor is one that is worked on. -/
theorem JobStatus.not_over_of_active {status : JobStatus}
    (h : status.active) : ¬status.over := by
  cases status <;> simp [active, JobStatus.over] at h ⊢

/-- A job in a claimed or in-progress state has one holder, a job that
is held is in such a state, attempts stay within their bound, and after
a completion or a terminal failure comes no claim. -/
structure QueueLaw (s : Shared Plain) : Prop where
  holder : ∀ (n : ℕ) job, s.jobs[n]? = some job → job.status.active →
    ∃! i, (i, n) ∈ s.holders
  held : ∀ i n, (i, n) ∈ s.holders →
    ∃ job, s.jobs[n]? = some job ∧ job.status.active
  attempts : ∀ (n : ℕ) job, s.jobs[n]? = some job →
    job.attempts ≤ job.maxAttempts
  final : s.log.Pairwise fun d d' =>
    ∀ n, d = .closed n → d' ≠ .claimed n

/-- A completion that was applied is answered, and its event is
inserted. -/
def Recorded (q : Call) (c : Choice) : Prop :=
  match q, c with
  | .completeJob _, .lost _ => False
  | .event _ .ready, c => c.goes
  | _, _ => True

/-- `Recorded`, computed. -/
def records (q : Call) (c : Choice) : Bool :=
  match q, c with
  | .completeJob _, .lost _ => false
  | .event _ .ready, c => decide c.goes
  | _, _ => true

/-- It computes it. -/
theorem records_iff (q : Call) (c : Choice) :
    records q c ↔ Recorded q c := by
  unfold records Recorded
  split <;> simp

instance (q : Call) (c : Choice) : Decidable (Recorded q c) :=
  decidable_of_bool (records q c) (records_iff q c)

-- ====================================================== the discipline

/-- The law, with what keeps it: a job that can be claimed has an attempt
left, and what was closed stays over. -/
structure InOrder (s : Shared Plain) : Prop extends QueueLaw s where
  left : ∀ (n : ℕ) job, s.jobs[n]? = some job → job.status.claimable →
    job.attempts < job.maxAttempts
  closed : ∀ n, .closed n ∈ s.log →
    ∃ job, s.jobs[n]? = some job ∧ job.status.over

/-- A worker's jobs are not touched by others. -/
def Owned (i : ℕ) (s s' : Shared Plain) : Prop :=
  ∀ n, (i, n) ∈ s.holders →
    (i, n) ∈ s'.holders ∧ s'.jobs[n]? = s.jobs[n]?

/-- What a process must have before a statement: the job it updates, with
an attempt left where it puts it back. -/
def Entitled (i : ℕ) (q : Call) (s : Shared Plain) : Prop :=
  match q with
  | .updateStatus n _ => (i, n) ∈ s.holders
  | .completeJob n => (i, n) ∈ s.holders
  | .failTerminal n => (i, n) ∈ s.holders
  | .failRetry n => (i, n) ∈ s.holders ∧
      ∀ job, s.jobs[n]? = some job → job.attempts < job.maxAttempts
  | .insertJob job => job.status = .queued ∧ job.attempts < job.maxAttempts
  | _ => True

/-- What the workers owe each other: the queue is in order, what one
holds no other touches, and no completion is lost. -/
def working : Discipline Call (Shared Plain) Choice where
  Inv := InOrder
  Rely := fun i s s' => Owned i s s' ∧ JobsKept s s'
  Pre := Entitled
  Allow := fun _ q c _ => Recorded q c

namespace InOrder

variable {s : Shared Plain}

/-- A job has one holder. -/
theorem single (h : InOrder s) {i j n : ℕ} (hi : (i, n) ∈ s.holders)
    (hj : (j, n) ∈ s.holders) : i = j := by
  obtain ⟨job, hjob, hactive⟩ := h.held i n hi
  exact (h.holder n job hjob hactive).unique hi hj

/-- The parts the law speaks about unchanged. -/
theorem of_eq {s' : Shared Plain} (h : InOrder s) (hjobs : s'.jobs = s.jobs)
    (hholders : s'.holders = s.holders)
    (hlog : ∀ n, .closed n ∈ s'.log → .closed n ∈ s.log)
    (hfinal : s'.log.Pairwise fun d d' =>
      ∀ n, d = .closed n → d' ≠ .claimed n) : InOrder s' where
  holder := hjobs ▸ hholders ▸ h.holder
  held := hjobs ▸ hholders ▸ h.held
  attempts := hjobs ▸ h.attempts
  final := hfinal
  left := hjobs ▸ h.left
  closed := fun n hn => hjobs ▸ h.closed n (hlog n hn)

/-- A new job disturbs no order. -/
theorem inserted (h : InOrder s) {job : ServiceJob}
    (hstatus : job.status = .queued)
    (hattempts : job.attempts < job.maxAttempts) :
    InOrder { s with jobs := s.jobs ++ [job] } := by
  have hrow : ∀ {n : ℕ} {job'}, (s.jobs ++ [job])[n]? = some job' →
      s.jobs[n]? = some job' ∨ job' = job := by
    intro n job' hn
    rw [List.getElem?_append] at hn
    split at hn
    · exact Or.inl hn
    · exact Or.inr (List.mem_singleton.mp (List.mem_of_getElem? hn))
  have hkeep : ∀ {n : ℕ} {job'}, s.jobs[n]? = some job' →
      (s.jobs ++ [job])[n]? = some job' := by
    intro n job' hn
    obtain ⟨hlt, -⟩ := List.getElem?_eq_some_iff.mp hn
    exact (List.getElem?_append_left hlt).trans hn
  refine ⟨⟨?_, ?_, ?_, h.final⟩, ?_, ?_⟩
  · intro n job' hn hactive
    rcases hrow hn with hn | rfl
    · exact h.holder n job' hn hactive
    · rw [hstatus] at hactive
      cases hactive
  · intro i n hi
    obtain ⟨job', hn, hactive⟩ := h.held i n hi
    exact ⟨job', hkeep hn, hactive⟩
  · intro n job' hn
    rcases hrow hn with hn | rfl
    · exact h.attempts n job' hn
    · exact Nat.le_of_lt hattempts
  · intro n job' hn hclaimable
    rcases hrow hn with hn | rfl
    · exact h.left n job' hn hclaimable
    · exact hattempts
  · intro n hn
    obtain ⟨job', hn, hover⟩ := h.closed n hn
    exact ⟨job', hkeep hn, hover⟩

/-- A claim, of a job that nobody holds and that is not over. -/
theorem claimed (h : InOrder s) (pid : ℕ) {n : ℕ} {job : ServiceJob}
    (hn : s.jobs[n]? = some job) (hclaimable : job.status.claimable) :
    InOrder (s.claim pid n) := by
  have hfree : ∀ i, (i, n) ∉ s.holders := by
    intro i hi
    obtain ⟨job', hn', hactive⟩ := h.held i n hi
    rw [hn] at hn'
    injection hn' with hn'
    subst hn'
    exact JobStatus.not_active_of_claimable hclaimable hactive
  have hopen : .closed n ∉ s.log := by
    intro hlog
    obtain ⟨job', hn', hover⟩ := h.closed n hlog
    rw [hn] at hn'
    injection hn' with hn'
    subst hn'
    exact JobStatus.not_over_of_claimable hclaimable hover
  refine ⟨⟨?_, ?_, ?_, ?_⟩, ?_, ?_⟩
  · intro m job' hm hactive
    obtain ⟨a, ha, ⟨rfl, -⟩ | ⟨hne, rfl⟩⟩ := getElem?_of_modify hm
    · refine ⟨pid, List.mem_cons_self .., fun i hi => ?_⟩
      rcases List.mem_cons.mp hi with heq | hi
      · injection heq
      · exact absurd hi (hfree i)
    · obtain ⟨i, hi, huniq⟩ := h.holder m _ ha hactive
      refine ⟨i, List.mem_cons_of_mem _ hi, fun j hj => ?_⟩
      rcases List.mem_cons.mp hj with heq | hj
      · injection heq with _ heq
        exact absurd heq.symm hne
      · exact huniq j hj
  · intro i m hi
    rcases List.mem_cons.mp hi with heq | hi
    · injection heq with _ heq
      subst heq
      exact ⟨{ job with
        status := .claimed, attempts := job.attempts + 1 },
        getElem?_modify_self _ hn, rfl⟩
    · obtain ⟨job', hm, hactive⟩ := h.held i m hi
      have hne : n ≠ m := fun heq => hfree i (heq ▸ hi)
      exact ⟨job', getElem?_modify_other _ hne hm, hactive⟩
  · intro m job' hm
    obtain ⟨a, ha, ⟨rfl, rfl⟩ | ⟨-, rfl⟩⟩ := getElem?_of_modify hm
    · rw [hn] at ha
      injection ha with ha
      subst ha
      exact h.left n job hn hclaimable
    · exact h.attempts m _ ha
  · refine List.pairwise_append.mpr ⟨h.final, List.pairwise_singleton .., ?_⟩
    intro d hd d' hd' m hclosed hclaimed
    rw [List.mem_singleton.mp hd'] at hclaimed
    injection hclaimed with hclaimed
    rw [hclosed, ← hclaimed] at hd
    exact hopen hd
  · intro m job' hm hclaimable'
    obtain ⟨a, ha, ⟨rfl, rfl⟩ | ⟨-, rfl⟩⟩ := getElem?_of_modify hm
    · cases hclaimable'
    · exact h.left m _ ha hclaimable'
  · intro m hm
    have hm' : .closed m ∈ s.log := by
      rcases List.mem_append.mp hm with hm | hm
      · exact hm
      · cases List.mem_singleton.mp hm
    obtain ⟨job', ha, hover⟩ := h.closed m hm'
    have hne : n ≠ m := fun heq => hopen (heq ▸ hm')
    exact ⟨job', getElem?_modify_other _ hne ha, hover⟩

/-- A holder moves its job along. -/
theorem advanced (h : InOrder s) {i n : ℕ} (hi : (i, n) ∈ s.holders)
    (name : String) : InOrder (s.setStatus n (.progress name)) := by
  obtain ⟨job, hn, hactive⟩ := h.held i n hi
  refine ⟨⟨?_, ?_, ?_, h.final⟩, ?_, ?_⟩
  · intro m job' hm hactive'
    obtain ⟨a, ha, ⟨rfl, -⟩ | ⟨-, rfl⟩⟩ := getElem?_of_modify hm
    · exact h.holder n job hn hactive
    · exact h.holder m _ ha hactive'
  · intro j m hj
    obtain ⟨job', hm, hactive'⟩ := h.held j m hj
    by_cases hne : n = m
    · subst hne
      exact ⟨{ job' with status := .progress name },
        getElem?_modify_self _ hm, rfl⟩
    · exact ⟨job', getElem?_modify_other _ hne hm, hactive'⟩
  · intro m job' hm
    obtain ⟨a, ha, ⟨rfl, rfl⟩ | ⟨-, rfl⟩⟩ := getElem?_of_modify hm
    · exact h.attempts n a ha
    · exact h.attempts m _ ha
  · intro m job' hm hclaimable
    obtain ⟨a, ha, ⟨rfl, rfl⟩ | ⟨-, rfl⟩⟩ := getElem?_of_modify hm
    · cases hclaimable
    · exact h.left m _ ha hclaimable
  · intro m hm
    obtain ⟨job', ha, hover⟩ := h.closed m hm
    have hne : n ≠ m := by
      rintro rfl
      rw [hn] at ha
      injection ha with ha
      subst ha
      exact JobStatus.not_over_of_active hactive hover
    exact ⟨job', getElem?_modify_other _ hne ha, hover⟩

/-- A holder gives its job up, in a state that is not active; one that
can be claimed again has an attempt left. -/
theorem givenBack (h : InOrder s) {i n : ℕ} (hi : (i, n) ∈ s.holders)
    {status : JobStatus} (hidle : status.active = false)
    (hleft : status.claimable → ∀ job, s.jobs[n]? = some job →
      job.attempts < job.maxAttempts) :
    InOrder ((s.setStatus n status).giveBack i n) := by
  obtain ⟨job, hn, hactive⟩ := h.held i n hi
  have hmem : ∀ {j m}, (j, m) ∈ ((s.setStatus n status).giveBack i n).holders
      ↔ (j, m) ∈ s.holders ∧ m ≠ n := by
    intro j m
    show (j, m) ∈ s.holders.filter _ ↔ _
    rw [List.mem_filter]
    refine and_congr_right fun hj => ?_
    simp only [ne_eq, Prod.mk.injEq, not_and, decide_eq_true_eq]
    constructor
    · rintro hne rfl
      exact hne (h.single hj hi) rfl
    · exact fun hne _ => hne
  refine ⟨⟨?_, ?_, ?_, h.final⟩, ?_, ?_⟩
  · intro m job' hm hactive'
    obtain ⟨a, ha, ⟨rfl, rfl⟩ | ⟨hne, rfl⟩⟩ := getElem?_of_modify hm
    · rw [hidle] at hactive'
      cases hactive'
    · obtain ⟨j, hj, huniq⟩ := h.holder m _ ha hactive'
      exact ⟨j, hmem.mpr ⟨hj, Ne.symm hne⟩,
        fun j' hj' => huniq j' (hmem.mp hj').1⟩
  · intro j m hj
    obtain ⟨hj, hne⟩ := hmem.mp hj
    obtain ⟨job', hm, hactive'⟩ := h.held j m hj
    exact ⟨job', getElem?_modify_other _ (Ne.symm hne) hm, hactive'⟩
  · intro m job' hm
    obtain ⟨a, ha, ⟨rfl, rfl⟩ | ⟨-, rfl⟩⟩ := getElem?_of_modify hm
    · exact h.attempts n a ha
    · exact h.attempts m _ ha
  · intro m job' hm hclaimable
    obtain ⟨a, ha, ⟨rfl, rfl⟩ | ⟨-, rfl⟩⟩ := getElem?_of_modify hm
    · exact hleft hclaimable a ha
    · exact h.left m _ ha hclaimable
  · intro m hm
    obtain ⟨job', ha, hover⟩ := h.closed m hm
    have hne : n ≠ m := by
      rintro rfl
      rw [hn] at ha
      injection ha with ha
      subst ha
      exact JobStatus.not_over_of_active hactive hover
    exact ⟨job', getElem?_modify_other _ hne ha, hover⟩

/-- And closes it. -/
theorem closing (h : InOrder s) {n : ℕ} {job : ServiceJob}
    (hn : s.jobs[n]? = some job) (hover : job.status.over) :
    InOrder (s.logged (.closed n)) := by
  refine ⟨⟨h.holder, h.held, h.attempts, ?_⟩, h.left, ?_⟩
  · refine List.pairwise_append.mpr ⟨h.final, List.pairwise_singleton .., ?_⟩
    intro d hd d' hd' m _ hclaimed
    rw [List.mem_singleton.mp hd'] at hclaimed
    cases hclaimed
  · intro m hm
    rcases List.mem_append.mp hm with hm | hm
    · exact h.closed m hm
    · injection List.mem_singleton.mp hm with hm
      subst hm
      exact ⟨job, hn, hover⟩

/-- The jobs of another process are not the one a holder updates. -/
theorem ne_of_holder (h : InOrder s) {i j m n : ℕ}
    (hi : (i, n) ∈ s.holders) (hij : j ≠ i) (hj : (j, m) ∈ s.holders) :
    n ≠ m := by
  rintro rfl
  exact hij (h.single hj hi)

/-- A status is stored on the holder's job, -/
theorem owned_setStatus (h : InOrder s) {i j n : ℕ}
    (hi : (i, n) ∈ s.holders) (hij : j ≠ i) (status : JobStatus) :
    Owned j s (s.setStatus n status) := by
  intro m hj
  exact ⟨hj, List.getElem?_modify_ne _ _ (h.ne_of_holder hi hij hj)⟩

/-- a job is given back by its holder, -/
theorem owned_giveBack (h : InOrder s) {i j n : ℕ}
    (hi : (i, n) ∈ s.holders) (hij : j ≠ i) (status : JobStatus) :
    Owned j s ((s.setStatus n status).giveBack i n) := by
  intro m hj
  obtain ⟨hj', hm⟩ := h.owned_setStatus hi hij status m hj
  refine ⟨List.mem_filter.mpr ⟨hj', ?_⟩, hm⟩
  exact decide_eq_true fun heq => hij (Prod.mk.inj heq).1

/-- a job that is claimed had no holder, -/
theorem owned_claim (h : InOrder s) (pid j : ℕ) {n : ℕ} {job : ServiceJob}
    (hn : s.jobs[n]? = some job) (hclaimable : job.status.claimable) :
    Owned j s (s.claim pid n) := by
  intro m hj
  refine ⟨List.mem_cons_of_mem _ hj, List.getElem?_modify_ne _ _ ?_⟩
  rintro rfl
  obtain ⟨job', hn', hactive⟩ := h.held j n hj
  rw [hn] at hn'
  injection hn' with hn'
  subst hn'
  exact JobStatus.not_active_of_claimable hclaimable hactive

/-- and one that is inserted has none. -/
theorem owned_insert (h : InOrder s) (j : ℕ) (job : ServiceJob) :
    Owned j s { s with jobs := s.jobs ++ [job] } := by
  intro m hj
  obtain ⟨job', hm, -⟩ := h.held j m hj
  obtain ⟨hlt, -⟩ := List.getElem?_eq_some_iff.mp hm
  exact ⟨hj, List.getElem?_append_left hlt⟩

end InOrder

/-- What is claimed was claimable. -/
theorem claimable_some {s : Shared Plain} {queue : QueueName}
    {jobTypes : List String} {n : ℕ} {job : ServiceJob}
    (h : s.claimable queue jobTypes n = some job) :
    s.jobs[n]? = some job ∧ job.status.claimable := by
  unfold Shared.claimable at h
  obtain ⟨job', hn, hif⟩ := Option.bind_eq_some_iff.mp h
  split at hif
  · rename_i hfits
    injection hif with hif
    exact hif ▸ ⟨hn, hfits.2.1⟩
  · cases hif

/-- Every statement a worker may make keeps the order and what the
others hold. -/
theorem working_keeps {cfg : Committee.Config Key Plain} {pid : ℕ}
    {q : Call} {s s' : Shared Plain} (h : InOrder s)
    (hpre : Entitled pid q s) (heffect : Effect cfg pid s q s') :
    InOrder s' ∧ ∀ j, j ≠ pid → Owned j s s' := by
  -- the log grows by a deed that is neither a claim nor a closing
  have hdeed : ∀ d : Deed, (∀ n, d ≠ .closed n) → (∀ n, d ≠ .claimed n) →
      InOrder (s.logged d) := by
    intro d hclosed hclaimed
    refine h.of_eq rfl rfl (fun n hn => ?_) ?_
    · rcases List.mem_append.mp hn with hn | hn
      · exact hn
      · exact absurd (List.mem_singleton.mp hn).symm (hclosed n)
    · refine List.pairwise_append.mpr
        ⟨h.final, List.pairwise_singleton .., fun d₁ _ d₂ hd₂ n _ => ?_⟩
      rw [List.mem_singleton.mp hd₂]
      exact hclaimed n
  have hsame : ∀ {s' : Shared Plain}, s'.jobs = s.jobs →
      s'.holders = s.holders → s'.log = s.log →
      InOrder s' ∧ ∀ j, j ≠ pid → Owned j s s' := by
    intro s' hjobs hholders hlog
    refine ⟨h.of_eq hjobs hholders (fun n hn => hlog ▸ hn)
      (hlog ▸ h.final), fun j _ n hn => ?_⟩
    exact ⟨hholders ▸ hn, by rw [hjobs]⟩
  cases heffect with
  | quiet => exact hsame rfl rfl rfl
  | forwarded hw => exact hsame rfl rfl rfl
  | opened hs => exact hsame rfl rfl rfl
  | written hs => exact hsame rfl rfl rfl
  | rewritten hs => exact hsame rfl rfl rfl
  | created hs => exact hsame rfl rfl rfl
  | linked => exact hsame rfl rfl rfl
  | stored hs => exact hsame rfl rfl rfl
  | signed => exact hsame rfl rfl rfl
  | marked => exact hsame rfl rfl rfl
  | examined =>
      exact ⟨hdeed _ (fun n hd => by cases hd) (fun n hd => by cases hd),
        fun j _ n hn => ⟨hn, rfl⟩⟩
  | finished =>
      rename_i batchId status
      refine ⟨?_, fun j _ n hn => ⟨hn, rfl⟩⟩
      have hlogged := hdeed (.finished pid batchId)
        (fun n hd => by cases hd) (fun n hd => by cases hd)
      exact hlogged.of_eq rfl rfl (fun n hn => hn) hlogged.final
  | inserted hnone =>
      exact ⟨h.inserted hpre.1 hpre.2, fun j _ => h.owned_insert j _⟩
  | claimed hclaim =>
      obtain ⟨hn, hclaimable⟩ := claimable_some hclaim
      exact ⟨h.claimed pid hn hclaimable,
        fun j _ => h.owned_claim pid j hn hclaimable⟩
  | advanced =>
      exact ⟨h.advanced hpre _, fun j hj => h.owned_setStatus hpre hj _⟩
  | completed =>
      rename_i n
      obtain ⟨job, hn, -⟩ := h.held pid n hpre
      have hback : InOrder ((s.setStatus n .ready).giveBack pid n) :=
        h.givenBack hpre rfl fun hc => by cases hc
      exact ⟨hback.closing (getElem?_modify_self _ hn) rfl,
        fun j hj => h.owned_giveBack hpre hj .ready⟩
  | abandoned =>
      rename_i n
      obtain ⟨job, hn, -⟩ := h.held pid n hpre
      have hback : InOrder ((s.setStatus n .failed).giveBack pid n) :=
        h.givenBack hpre rfl fun hc => by cases hc
      exact ⟨hback.closing (getElem?_modify_self _ hn) rfl,
        fun j hj => h.owned_giveBack hpre hj .failed⟩
  | requeued =>
      exact ⟨h.givenBack hpre.1 rfl fun _ => hpre.2,
        fun j hj => h.owned_giveBack hpre.1 hj .failedRetry⟩

/-- They keep it. -/
theorem working_lawful (cfg : Committee.Config Key Plain) :
    working.Lawful (exec cfg) where
  refl := fun _ s => ⟨fun _ hn => ⟨hn, rfl⟩, JobsKept.refl s⟩
  trans := fun _ _ _ _ ⟨h, hk⟩ ⟨h', hk'⟩ =>
    ⟨fun n hn => ⟨(h' n (h n hn).1).1, (h' n (h n hn).1).2.trans (h n hn).2⟩,
      hk.trans hk'⟩
  keeps := by
    intro pid q c s hs hpre _
    obtain ⟨hinv, howned⟩ :=
      working_keeps hs hpre (effect_exec cfg pid q c s)
    exact ⟨hinv, fun j hj => ⟨howned j hj, jobsKept_exec cfg pid q c s⟩⟩

-- =========================================================== the workers

variable {cfg : Committee.Config Key Plain} {pid n : ℕ}
  {s s' : Shared Plain}

/-- A job is held until its holder gives it back. -/
theorem holds_later (h : (pid, n) ∈ s.holders)
    (hs : working.Later pid s s') : (pid, n) ∈ s'.holders :=
  (hs.1.1 n h).1

/-- Logging changes no table that is modelled. -/
theorem exec_event (cfg : Committee.Config Key Plain) (pid n : ℕ)
    (status : JobStatus) (c : Choice) (s : Shared Plain) :
    (exec cfg pid (.event n status) c s).1 = s := by
  cases c with
  | go d => simp only [exec, perform]; split <;> rfl
  | fail => rfl
  | lost d => simp only [exec, perform]; split <;> rfl

/-- An event leaves a worker what it has. -/
theorem safe_event (status : JobStatus) (h : (pid, n) ∈ s.holders) :
    working.Safe (exec cfg) pid (fun _ s' => (pid, n) ∈ s'.holders)
      (query (.event n status)) s := by
  refine Discipline.Safe.query fun s₁ hs₁ => ⟨trivial, fun c _ s₂ hs₂ => ?_⟩
  rw [exec_event] at hs₂
  exact holds_later (holds_later h hs₁) hs₂

/-- The holder stores a status and holds on. -/
theorem safe_setStatus (name : String) (h : (pid, n) ∈ s.holders) :
    working.Safe (exec cfg) pid (fun _ s' => (pid, n) ∈ s'.holders)
      (setStatus n name) s := by
  refine Discipline.Safe.query_bind fun s₁ hs₁ => ?_
  have h₁ := holds_later h hs₁
  refine ⟨h₁, fun c _ => ?_⟩
  have h₂ : (pid, n) ∈
      (exec cfg pid (.updateStatus n name) c s₁).1.holders := by
    cases c with
    | go d => exact h₁
    | fail => exact h₁
    | lost d => exact h₁
  exact ⟨fun _ _ => safe_event _ h₂,
    fun e _ s₂ hs₂ => holds_later h₂ hs₂⟩

/-- Where a completion ends with an error, it was not applied. -/
theorem safe_complete (h : (pid, n) ∈ s.holders) :
    working.Safe (exec cfg) pid
      (fun r s' => ∀ e, r = .error e → (pid, n) ∈ s'.holders)
      (complete n) s := by
  refine Discipline.Safe.query_bind fun s₁ hs₁ => ?_
  have h₁ := holds_later h hs₁
  obtain ⟨job, hn, -⟩ := hs₁.2.held pid n h₁
  refine ⟨h₁, fun c hc => ?_⟩
  cases c with
  | lost d => cases hc
  | fail =>
      refine ⟨fun _ hok => (by cases hok), fun e _ s₂ hs₂ e' _ => ?_⟩
      exact holds_later h₁ hs₂
  | go d =>
      refine ⟨fun _ _ => ?_, fun e he => by cases he⟩
      refine Discipline.Safe.query fun s₂ hs₂ =>
        ⟨trivial, fun c hc s₃ _ e he => ?_⟩
      obtain ⟨d', rfl⟩ := Choice.goes.exists hc
      obtain ⟨job', hn', -⟩ := hs₂.1.2 n _ (getElem?_modify_self _ hn)
      obtain ⟨hlt, -⟩ := List.getElem?_eq_some_iff.mp hn'
      simp only [exec, perform, if_pos hlt] at he
      cases he

/-- The holder may fail its job. -/
theorem safe_fail (h : (pid, n) ∈ s.holders) :
    working.Safe (exec cfg) pid (fun _ _ => True) (fail n) s := by
  have hevent : ∀ status (s' : Shared Plain),
      working.Safe (exec cfg) pid (fun _ _ => True)
        (query (.event n status)) s' := fun status s' =>
    Discipline.Safe.query fun _ _ => ⟨trivial, fun _ _ _ _ => trivial⟩
  have hthrow : ∀ (e : Fault) (s' : Shared Plain),
      working.Safe (exec cfg) pid (fun _ _ => True)
        (.throw e : Service Unit) s' := fun e s' _ _ => trivial
  refine Discipline.Safe.query_bind fun s₁ hs₁ => ⟨trivial, fun c _ => ?_⟩
  have h₁ := holds_later h hs₁
  refine ⟨fun j hj => ?_, fun e _ => hthrow e _⟩
  cases c with
  | fail => cases hj
  | lost d => cases hj
  | go d =>
      injection hj with hj
      subst hj
      cases hterm : terminal ((s₁.jobs[n]?).map fun job =>
          (job.attempts, job.maxAttempts)) with
      | true =>
          refine Discipline.Safe.query_bind fun s₂ hs₂ =>
            ⟨holds_later h₁ hs₂, fun c _ => ?_⟩
          exact ⟨fun _ _ => hevent _ _, fun e _ => hthrow e _⟩
      | false =>
          refine Discipline.Safe.query_bind fun s₂ hs₂ =>
            ⟨⟨holds_later h₁ hs₂, fun job hn => ?_⟩, fun c _ => ?_⟩
          · have hsame : s₂.jobs[n]? = s₁.jobs[n]? := (hs₂.1.1 n h₁).2
            rw [← hsame, hn] at hterm
            simpa [terminal] using hterm
          · exact ⟨fun _ _ => hevent _ _, fun e _ => hthrow e _⟩

/-- Whatever a worker does with the job it claims: if it may complete the
job only as its last act, the catch block fails a job it still has. -/
theorem safe_runOnce {queue : QueueName} {jobTypes : List String}
    {process : JobRow → Service Unit}
    (hprocess : ∀ (row : JobRow) s', (pid, row.1) ∈ s'.holders →
      InOrder s' → working.Safe (exec cfg) pid
        (fun r s'' => ∀ e, r = .error e → (pid, row.1) ∈ s''.holders)
        (process row) s') :
    working.Safe (exec cfg) pid (fun _ _ => True)
      (runOnce queue jobTypes process) s := by
  have L := working_lawful cfg
  refine Discipline.Safe.query_bind fun s₁ hs₁ => ⟨trivial, fun c hc => ?_⟩
  refine ⟨fun found hfound => ?_, fun e _ s₂ _ => trivial⟩
  have hinv : InOrder (exec cfg pid (.claimNext queue jobTypes) c s₁).1 :=
    (L.keeps pid (.claimNext queue jobTypes) c s₁ hs₁.2 trivial hc).1
  cases found with
  | none => exact fun s₂ _ => trivial
  | some row =>
      have hrow : (pid, row.1) ∈
          (exec cfg pid (.claimNext queue jobTypes) c s₁).1.holders := by
        cases c with
        | fail => cases hfound
        | lost d => cases hfound
        | go d =>
            simp only [exec, perform] at hfound ⊢
            split at hfound
            · injection hfound with hfound
              cases hfound
            · injection hfound with hfound
              injection hfound with hfound
              subst hfound
              exact List.mem_cons_self ..
      refine Discipline.Safe.bind L (fun _ _ => True) ?_ hinv
        (fun _ _ _ _ s₂ _ => trivial) (fun _ _ _ _ => trivial)
      exact (hprocess row _ hrow hinv).handle L _ hinv (fun _ _ _ _ => trivial)
        fun e s₂ _ hheld => safe_fail (hheld e rfl)

/-- The relayer holds its job throughout. -/
theorem safe_processRelayerJob (work : Work)
    (h : (pid, n) ∈ s.holders) (hs : InOrder s) :
    working.Safe (exec cfg) pid (fun _ s' => (pid, n) ∈ s'.holders)
      (processRelayerJob n work) s := by
  have L := working_lawful cfg
  induction work generalizing s with
  | returned => exact fun s' hs' => holds_later h hs'
  | threw message => exact fun s' hs' => holds_later h hs'
  | setStatus status next onError ihnext ihonError =>
      refine Discipline.Safe.bind L (fun _ s' => (pid, n) ∈ s'.holders) ?_
        hs ?_ (fun _ _ _ h' => h')
      · refine Discipline.Safe.handle L
          (fun _ s' => (pid, n) ∈ s'.holders) ?_ hs (fun _ _ _ h' => h')
          fun _ s' _ h' s'' hs'' => holds_later h' hs''
        exact (safe_setStatus status h).bind L _ hs
          (fun _ s' _ h' s'' hs'' => holds_later h' hs'') fun _ _ _ h' => h'
      · intro through s' hs' h'
        cases through with
        | true => exact ihnext h' hs'
        | false => exact ihonError h' hs'

/-- A step that leaves the job in hand, and what follows it. -/
theorem safe_then {α : Type} {p : Service Unit} {f : Unit → Service α}
    {post : Except Fault α → Shared Plain → Prop}
    (hp : working.Safe (exec cfg) pid (fun _ s' => (pid, n) ∈ s'.holders)
      p s)
    (hs : InOrder s)
    (hf : ∀ s', (pid, n) ∈ s'.holders → InOrder s' →
      working.Safe (exec cfg) pid post (f ()) s')
    (herror : ∀ e s', (pid, n) ∈ s'.holders → post (.error e) s') :
    working.Safe (exec cfg) pid post (p >>= f) s :=
  hp.bind (working_lawful cfg) _ hs
    (fun _ s' hs' h' => hf s' h' hs') fun e s' _ h' => herror e s' h'

/-- The prover holds its job when it throws. -/
theorem safe_processProofJob (proof : ProofRun)
    (h : (pid, n) ∈ s.holders) (hs : InOrder s) :
    working.Safe (exec cfg) pid
      (fun r s' => ∀ e, r = .error e → (pid, n) ∈ s'.holders)
      (processProofJob n proof) s := by
  have hthrow : ∀ (message : String) (s' : Shared Plain),
      (pid, n) ∈ s'.holders →
      working.Safe (exec cfg) pid (fun _ s'' => (pid, n) ∈ s''.holders)
        (throw (.thrown message) : Service Unit) s' :=
    fun message s' h' s'' hs'' => holds_later h' hs''
  have hheld : ∀ (e : Fault) (s' : Shared Plain), (pid, n) ∈ s'.holders →
      ∀ e', (Except.error e : Except Fault Unit) = .error e' →
        (pid, n) ∈ s'.holders := fun _ _ h' _ _ => h'
  cases proof with
  | noCoin message =>
      exact (hthrow message s h).mono fun r s' _ h' _ _ => h'
  | threw message =>
      refine safe_then (safe_setStatus _ h) hs (fun s₁ h₁ hs₁ => ?_) hheld
      refine safe_then (safe_setStatus _ h₁) hs₁ (fun s₂ h₂ hs₂ => ?_) hheld
      exact (hthrow message s₂ h₂).mono fun r s' _ h' _ _ => h'
  | proved locallyVerified =>
      refine safe_then (safe_setStatus _ h) hs (fun s₁ h₁ hs₁ => ?_) hheld
      refine safe_then (safe_setStatus _ h₁) hs₁ (fun s₂ h₂ hs₂ => ?_) hheld
      refine safe_then ?_ hs₂ (fun s₃ h₃ hs₃ => ?_) hheld
      · refine safe_then (safe_setStatus _ h₂) hs₂ (fun s₃ h₃ _ => ?_)
          fun _ _ h' => h'
        cases locallyVerified with
        | true => exact fun s' hs' => holds_later h₃ hs'
        | false => exact hthrow _ s₃ h₃
      · exact safe_then (safe_setStatus _ h₃) hs₃
          (fun s₄ h₄ _ => safe_complete h₄) hheld

/-- The statements of the other tasks need no job in hand. -/
theorem entitled_makes {hashJson : RfqBody → String} {t : Task}
    (hrelay : ∀ work, t ≠ .relay work) (hprove : ∀ proof, t ≠ .prove proof)
    {q : Call} (h : t.Makes hashJson q) (i : ℕ) (s : Shared Plain) :
    Entitled i q s := by
  cases t with
  | relay work => exact absurd rfl (hrelay work)
  | prove proof => exact absurd rfl (hprove proof)
  | submitMpc user body => cases q <;> trivial
  | submitRfq key body =>
      rcases h with rfl | h
      · trivial
      · cases q <;> trivial
  | persist sessionId batch => cases q <;> trivial
  | settle =>
      cases q with
      | insertJob job =>
          obtain ⟨p, key, rfl⟩ := h
          exact ⟨rfl, Nat.succ_pos 2⟩
      | _ => trivial
  | enqueue queue jobType payload key =>
      cases q with
      | insertJob job =>
          obtain rfl := h
          exact ⟨rfl, Nat.succ_pos 2⟩
      | _ => trivial

/-- So every task makes statements on its own job only. -/
theorem safe_work (hashJson : RfqBody → String) (t : Task) :
    working.Safe (exec cfg) pid (fun _ _ => True) (t.code hashJson) s := by
  have hclerical : (∀ work, t ≠ .relay work) →
      (∀ proof, t ≠ .prove proof) →
      working.Safe (exec cfg) pid (fun _ _ => True) (t.code hashJson) s :=
    fun hrelay hprove => Discipline.Safe.of_uses
      (fun i q s h => entitled_makes hrelay hprove h i s)
      (uses_code hashJson t)
  cases t with
  | relay work =>
      refine Discipline.Safe.map (safe_runOnce fun row s' h hs' => ?_)
      exact safe_then (safe_processRelayerJob (work row) h hs') hs'
        (fun _ h' _ => safe_complete h') fun _ _ h' _ _ => h'
  | prove proof =>
      exact Discipline.Safe.map (safe_runOnce fun row s' h hs' =>
        safe_processProofJob (proof row) h hs')
  | submitMpc user body =>
      exact hclerical (fun _ h => by cases h) fun _ h => by cases h
  | submitRfq key body =>
      exact hclerical (fun _ h => by cases h) fun _ h => by cases h
  | persist sessionId batch =>
      exact hclerical (fun _ h => by cases h) fun _ h => by cases h
  | settle => exact hclerical (fun _ h => by cases h) fun _ h => by cases h
  | enqueue queue jobType payload key =>
      exact hclerical (fun _ h => by cases h) fun _ h => by cases h

-- ============================================================= the runs

/-- A job as it is inserted, before any worker has seen it. -/
def ServiceJob.Waiting (job : ServiceJob) : Prop :=
  job.status = .queued ∧ job.attempts = 0 ∧ 1 ≤ job.maxAttempts

instance (job : ServiceJob) : Decidable job.Waiting := by
  unfold ServiceJob.Waiting
  infer_instance

/-- The services as they boot on a queue that holds these jobs. -/
def Estate.withJobs (dep : Deployment Key Plain) (jobs : List ServiceJob) :
    Estate Plain :=
  { shared := { Shared.boot dep.committee with jobs }, procs := [] }

/-- A queue of waiting jobs is in order. -/
theorem inOrder_withJobs (dep : Deployment Key Plain)
    {jobs : List ServiceJob} (hjobs : ∀ job ∈ jobs, job.Waiting) :
    InOrder (Estate.withJobs dep jobs).shared := by
  have hrow : ∀ {n : ℕ} {job}, jobs[n]? = some job → job.Waiting :=
    fun hn => hjobs _ (List.mem_of_getElem? hn)
  refine ⟨⟨?_, ?_, ?_, List.Pairwise.nil⟩, ?_, ?_⟩
  · intro n job hn hactive
    rw [(hrow hn).1] at hactive
    cases hactive
  · intro i n hi
    cases hi
  · intro n job hn
    rw [(hrow hn).2.1]
    exact Nat.zero_le _
  · intro n job hn _
    rw [(hrow hn).2.1]
    exact (hrow hn).2.2
  · intro n hn
    cases hn

/-- In every run in which the completions that are applied get recorded,
whatever else fails and whoever is killed, the queue's law holds. -/
theorem queue_law (dep : Deployment Key Plain) (jobs : List ServiceJob)
    (hjobs : ∀ job ∈ jobs, job.Waiting) (es : List Event)
    (hes : ∀ t ∈ Run.accepted (services dep).step
        (Estate.withJobs dep jobs) es,
      System.Meets (fun _ => True) (fun _ q c _ => Recorded q c) t) :
    QueueLaw (Run.run (services dep).step (Estate.withJobs dep jobs)
      es).shared := by
  have hguarded : (services dep).Guarded working (fun _ _ _ => True)
      (Run.run (services dep).step (Estate.withJobs dep jobs) es) := by
    refine System.guarded_run (working_lawful dep.committee)
      (fun t _ i s _ => safe_work dep.hashJson t) ?_
      ⟨inOrder_withJobs dep hjobs, fun i t c hi => by cases hi⟩ hes
    intro e s s' ts hs he
    obtain ⟨world, -, -, rfl, -⟩ := coordinate_cases he
    exact ⟨hs.of_eq rfl rfl (fun n hn => hn) hs.final,
      fun i => ⟨fun n hn => ⟨hn, rfl⟩, JobsKept.refl s⟩,
      fun t _ i => safe_work dep.hashJson t⟩
  exact hguarded.inv.toQueueLaw

namespace Demo

/-- A withdrawal that waits. -/
def job : ServiceJob :=
  queuedJob .relayer "WITHDRAW_PUBLIC_SUBMIT" (.other "\x7b\x7d") none

/-- A relayer that stores one status. -/
def deliver : Task := .relay fun _ => .setStatus "submitting" .returned .returned

/-- Claim, status and its event, completion and its event. -/
def delivery : List Event :=
  [.start deliver, .run 0 go, .run 0 go, .run 0 go, .run 0 go, .run 0 go]

/-- The completion's event fails, the job is put back, and claimed once
more. -/
def redelivery : List Event :=
  [.start deliver, .run 0 go, .run 0 go, .run 0 go, .run 0 go,
   .run 0 .fail, .run 0 go, .run 0 go, .start deliver, .run 1 go]

end Demo

/-- A delivery by the book. -/
theorem delivery_lawful :
    QueueLaw (Run.run (services Demo.services).step
      (Estate.withJobs Demo.services [Demo.job]) Demo.delivery).shared :=
  queue_law Demo.services [Demo.job] (by decide) Demo.delivery
    (by decide +kernel)

/-- A job whose completion was logged as failed is claimed again. -/
theorem completed_claimed_again :
    ¬QueueLaw (Run.run (services Demo.services).step
      (Estate.withJobs Demo.services [Demo.job])
      Demo.redelivery).shared := by
  intro h
  have hlog : (Run.run (services Demo.services).step
      (Estate.withJobs Demo.services [Demo.job]) Demo.redelivery).shared.log
      = [.claimed 0, .closed 0, .claimed 0] := by
    decide +kernel
  have hfinal := h.final
  rw [hlog] at hfinal
  simp at hfinal

end Lumix.Services
