/-
Whether a signed batch reaches the settler.

The coordinator writes "signed" into memory first and the batch into
`mpc_batches` after it, and the first statement of that refers to a
session row which the API inserts on its own time. Where a statement of
`persistSignedBatch` fails, nothing runs it again: the timer and the
match endpoint both look for open sessions.

Nothing but a kill takes a process away, so the batch of a signed session
always has its call of `persistSignedBatch`; what that call leaves is one
rely and guarantee argument.
-/
import Lumix.Committee.Batches
import Lumix.Services.Tables

namespace Lumix.Services

open Discipline (Returns)
open Committee (SignedMatchBatch MatchResult NodeSignature Ref Protocol
  Rounded)

variable {Key Plain : Type} {cfg : Committee.Config Key Plain} {pid : ℕ}
  {s s' : Shared Plain}

-- ====================================================== the statement

/-- A call of `persistSignedBatch` for the batch that is still
running. -/
def StillPersists (batch : SignedMatchBatch)
    (p : Proc Call.Answer Fault Reply Task) : Prop :=
  match p.task, p.code with
  | .persist _ batch', some c => batch' = batch ∧ c.next.isSome
  | _, _ => False

instance (batch : SignedMatchBatch)
    (p : Proc Call.Answer Fault Reply Task) :
    Decidable (StillPersists batch p) := by
  unfold StillPersists
  split <;> infer_instance

/-- The batch has a row. -/
def Stored (batchId : String) (s : Shared Plain) : Prop :=
  (s.mpcBatches.get batchId).isSome

/-- The batch of a signed session is in `mpc_batches` or on its way
there, and a session whose persisting has failed is open. -/
structure BatchesReach (m : Estate Plain) : Prop where
  stored : ∀ (r : Ref) s batch,
    m.shared.world.committee.heap[r]? = some s → s.status = .signed →
    s.signedBatch = some batch →
    Stored batch.batchId m.shared ∨ ∃ p ∈ m.procs, StillPersists batch p
  reopened : ∀ (i : ℕ) sessionId batch e,
    m.procs[i]? = some ⟨.persist sessionId batch, some (.throw e)⟩ →
    ∃ r s, m.shared.world.committee.getSession sessionId = some (r, s)
      ∧ s.status = .opened

/-- A statement of `persistSignedBatch` goes through: it does not fail,
and what its foreign key names is there. -/
def GoesThrough (q : Call) (c : Choice) (s : Shared Plain) : Prop :=
  match q with
  | .insertBatch batchId row =>
      c.goes ∧ ((s.mpcBatches.get batchId).isSome
        ∨ (s.mpcSessions.get row.sessionId).isSome)
  | .insertSignature _ _ => c.goes
  | .signSession _ _ => c.goes
  | .markMatched intentId other =>
      c.goes ∧ ((s.mpcIntents.get intentId).isNone
        ∨ (s.mpcIntents.get other).isSome)
  | _ => True

instance (q : Call) (c : Choice) (s : Shared Plain) :
    Decidable (GoesThrough q c s) := by
  unfold GoesThrough
  split <;> infer_instance

-- ============================================================ one call

/-- What the statements owe each other: no batch is lost. Every
statement of persisting goes through. -/
def persisting : Discipline Call (Shared Plain) Choice where
  Inv := fun _ => True
  Rely := fun _ => BatchesKept
  Pre := fun _ _ _ => True
  Allow := fun _ => GoesThrough

/-- They keep it. -/
theorem persisting_lawful (cfg : Committee.Config Key Plain) :
    persisting.Lawful (exec cfg) where
  refl := fun _ => BatchesKept.refl
  trans := fun _ _ _ _ => BatchesKept.trans
  keeps := fun pid q c s _ _ _ =>
    ⟨trivial, fun _ _ => (effect_exec cfg pid q c s).batchesKept⟩

/-- A stored batch stays stored. -/
theorem Stored.later {batchId : String} (h : Stored batchId s)
    (hs : BatchesKept s s') : Stored batchId s' := by
  obtain ⟨a, ha⟩ := Option.isSome_iff_exists.mp h
  obtain ⟨b, hb, -⟩ := hs batchId a ha
  exact Option.isSome_iff_exists.mpr ⟨b, hb⟩

/-- An insertion that goes through stores its batch, -/
theorem stores_insertBatch {batchId : String} {row : BatchRow} {c : Choice}
    (h : GoesThrough (.insertBatch batchId row) c s) :
    ∃ s', exec cfg pid (.insertBatch batchId row) c s = (s', .ok ())
      ∧ Stored batchId s' := by
  obtain ⟨hgo, hrow⟩ := h
  obtain ⟨d, rfl⟩ := hgo.exists
  by_cases hold : (s.mpcBatches.get batchId).isSome
  · refine ⟨s, ?_, hold⟩
    simp only [exec, perform, hold, if_true]
  · have hsession := hrow.resolve_left hold
    have hnone : (s.mpcSessions.get row.sessionId).isNone = false := by
      rw [← Option.not_isSome, hsession]
      rfl
    refine ⟨{ s with mpcBatches := s.mpcBatches.set batchId row }, ?_, ?_⟩
    · simp [exec, perform, hold, hnone]
    · unfold Stored
      rw [OrderedMap.get_set_self]
      rfl

/-- a signature's goes through when its batch is stored, -/
theorem stores_insertSignature {batchId : String} {sig : NodeSignature}
    {c : Choice} (h : GoesThrough (.insertSignature batchId sig) c s)
    (hs : Stored batchId s) :
    exec cfg pid (.insertSignature batchId sig) c s = (s, .ok ()) := by
  obtain ⟨d, rfl⟩ := Choice.goes.exists h
  have hsome : (s.mpcBatches.get batchId).isNone = false := by
    rw [← Option.not_isSome, hs]
    rfl
  simp [exec, perform, hsome]

/-- and a mark is answered. -/
theorem answers_markMatched {intentId other : String} {c : Choice}
    (h : GoesThrough (.markMatched intentId other) c s) :
    ∃ s', exec cfg pid (.markMatched intentId other) c s
      = (s', .ok ()) := by
  obtain ⟨hgo, hrows⟩ := h
  obtain ⟨d, rfl⟩ := hgo.exists
  have hanswer : (exec cfg pid (.markMatched intentId other) (.go d) s).2
      = .ok () := by
    by_cases hnone : (s.mpcIntents.get intentId).isNone
    · simp only [exec, perform, hnone, if_true]
    · have hother : (s.mpcIntents.get other).isNone = false := by
        rw [← Option.not_isSome, hrows.resolve_left hnone]
        rfl
      simp [exec, perform, hnone, hother]
  exact ⟨_, Prod.ext rfl hanswer⟩

/-- Persisting that returns has stored the batch. -/
theorem safe_persist (sessionId : String) (batch : SignedMatchBatch) :
    persisting.Safe (exec cfg) pid
      (Returns fun _ s' => Stored batch.batchId s')
      (persistSignedBatch sessionId batch) s := by
  have L := persisting_lawful cfg
  have hlater : ∀ s₁ s₂ : Shared Plain, Stored batch.batchId s₁ →
      persisting.Later pid s₁ s₂ → Stored batch.batchId s₂ :=
    fun _ _ h hs => h.later hs.1
  unfold persistSignedBatch
  refine Discipline.Safe.query_ok fun s₁ _ => ⟨trivial, fun c hc => ?_⟩
  obtain ⟨s₂, hexec, hstored⟩ := stores_insertBatch hc
  refine ⟨s₂, (), hexec, ?_⟩
  refine Discipline.Safe.bind_returns L
    (M := fun _ s' => Stored batch.batchId s') ?_ trivial ?_
  · apply Discipline.Safe.forM_returns L
      (fun _ s' => Stored batch.batchId s') (fun _ => hlater) ?_ trivial
      hstored
    intro pre sig suf _ s₃ _ h₃
    refine Discipline.Safe.query_returns fun s₄ hs₄ =>
      ⟨trivial, fun c hc => ?_⟩
    have h₄ := hlater _ _ h₃ hs₄
    exact ⟨s₄, (), stores_insertSignature hc h₄, fun s₅ hs₅ =>
      hlater _ _ h₄ hs₅⟩
  intro _ s₃ _ h₃
  refine Discipline.Safe.query_ok fun s₄ hs₄ => ⟨trivial, fun c hc => ?_⟩
  have h₄ := hlater _ _ h₃ hs₄
  obtain ⟨d, rfl⟩ := Choice.goes.exists hc
  refine ⟨_, (), rfl, ?_⟩
  refine Discipline.Safe.forM_returns L
    (fun _ s' => Stored batch.batchId s') (fun _ => hlater) ?_ trivial ?_
  case refine_2 => exact h₄
  intro pre m suf _ s₅ _ h₅
  have hmark : ∀ (intentId other : String) (s₆ : Shared Plain),
      Stored batch.batchId s₆ →
      persisting.Safe (exec cfg) pid
        (Returns fun _ s' => Stored batch.batchId s')
        (query (.markMatched intentId other)) s₆ := by
    intro intentId other s₆ h₆
    refine Discipline.Safe.query_returns fun s₇ hs₇ =>
      ⟨trivial, fun c hc => ?_⟩
    obtain ⟨s₈, hexec⟩ : ∃ s₈, exec cfg pid (.markMatched intentId other)
        c s₇ = (s₈, .ok ()) := answers_markMatched hc
    have h₈ : Stored batch.batchId s₈ := by
      have heffect := effect_exec cfg pid (.markMatched intentId other) c s₇
      rw [hexec] at heffect
      exact (hlater _ _ h₆ hs₇).later heffect.batchesKept
    exact ⟨s₈, (), hexec, fun s₉ hs₉ => hlater _ _ h₈ hs₉⟩
  exact (hmark _ _ s₅ h₅).bind_returns L trivial fun _ s₆ _ h₆ =>
    hmark _ _ s₆ h₆

/-- What a call of `persistSignedBatch` has to leave. -/
def Kept : Task → Except Fault Reply → Shared Plain → Prop
  | .persist _ batch, r, s => Returns (fun _ s => Stored batch.batchId s) r s
  | _, _, _ => True

/-- So every task that returns has done. -/
theorem safe_kept (hashJson : RfqBody → String) (t : Task) :
    persisting.Safe (exec cfg) pid (Kept t) (t.code hashJson) s := by
  have hany : ∀ p : Service Reply,
      persisting.Safe (exec cfg) pid (fun _ _ => True) p s := fun p =>
    .of_uses (fun _ _ _ _ => trivial) (Prog.uses_any p)
  cases t with
  | persist sessionId batch =>
      refine .map ((safe_persist sessionId batch).mono ?_)
      intro r s' _ hreturns
      obtain ⟨a, rfl, hstored⟩ := hreturns
      exact ⟨.persisted, rfl, hstored⟩
  | submitMpc user body => exact hany _
  | submitRfq key body => exact hany _
  | settle => exact hany _
  | enqueue queue jobType payload key => exact hany _
  | relay work => exact hany _
  | prove proof => exact hany _

-- ========================================================== every batch

/-- The coordinator keeps its protocol, and each batch a round has
returned has its call of `persistSignedBatch`. -/
structure Handed (m : Estate Plain) : Prop where
  protocol : Protocol m.shared.world
  rounded : Rounded m.shared.world
  handed : ∀ (k : ℕ) rd batch, m.shared.world.rounds[k]? = some rd →
    rd.phase = .returned (.ok batch) →
    ∃ sessionId, m.Alive (.persist sessionId batch)

/-- A batch that a round returns is handed to a process, which lives
unless it is killed. -/
theorem Handed.next {dep : Deployment Key Plain} {m m' : Estate Plain}
    {e : Event} (h : Handed m) (hmoved : (services dep).Moved m e m')
    (hkill : ∀ i, e ≠ .kill i) : Handed m' := by
  have halive : ∀ t, m.Alive t → m'.Alive t :=
    fun t => hmoved.alive hkill
  have hsame : m'.shared.world = m.shared.world → Handed m' := by
    intro hworld
    refine ⟨hworld ▸ h.protocol, hworld ▸ h.rounded, ?_⟩
    rw [hworld]
    intro k rd batch hk hphase
    obtain ⟨sessionId, ht⟩ := h.handed k rd batch hk hphase
    exact ⟨sessionId, halive _ ht⟩
  cases hmoved with
  | started t => exact hsame rfl
  | ran hi =>
      rename_i i c t q k
      rcases (effect_exec dep.committee i q c m.shared).world with
        hworld | ⟨intent, clock, -, hstep⟩
      · exact hsame hworld
      · have hstepped := Committee.step_cases hstep
        refine ⟨h.protocol.next hstepped, h.rounded.next hstepped, ?_⟩
        intro k' rd batch hk hphase
        have hrounds := hstepped.submit_rounds
        rw [show ((services dep).exec i q c m.shared).1.world.rounds
          = m.shared.world.rounds from hrounds] at hk
        obtain ⟨sessionId, ht⟩ := h.handed k' rd batch hk hphase
        exact ⟨sessionId, halive _ ht⟩
  | killed hi => exact absurd rfl (hkill _)
  | happened he =>
      obtain ⟨world, -, hstep, rfl, rfl⟩ := coordinate_cases he
      have hstepped := Committee.step_cases hstep
      have hprotocol := h.protocol.next hstepped
      refine ⟨hprotocol, h.rounded.next hstepped, ?_⟩
      intro k rd batch hk hphase
      by_cases hold : ∃ old, m.shared.world.rounds[k]? = some old
          ∧ (Phase.batch old.phase).isSome
      · obtain ⟨old, hk', hsome⟩ := hold
        obtain ⟨batch', hbatch⟩ := Option.isSome_iff_exists.mp hsome
        have hreturned := Phase.returned_of_batch hbatch
        have hstays := hstepped.returned_stays hk' hreturned
        have hrd : some old = some rd := hstays.symm.trans hk
        injection hrd with hrd
        subst hrd
        obtain ⟨sessionId, ht⟩ := h.handed k old batch hk' hphase
        exact ⟨sessionId, halive _ ht⟩
      · obtain ⟨s, hs, -⟩ :=
          hprotocol.rounds rd (List.mem_of_getElem? hk)
        have hmem := mem_newlySigned hk hphase (fun old hk' => by
          rw [← Option.not_isSome_iff_eq_none]
          exact fun hsome => hold ⟨old, hk', hsome⟩) hs
        exact ⟨s.sessionId, System.alive_spawned (services dep) hmem⟩

/-- So in every run in which nothing is killed. -/
theorem handed_run (dep : Deployment Key Plain) {es : List Event}
    (hes : ∀ e ∈ es, ∀ i, e ≠ .kill i) :
    Handed (Run.run (services dep).step (Estate.boot dep) es) := by
  refine Run.history_induction_of (fun t : Step Plain =>
    ∀ i, t.event ≠ .kill i) (fun _ m => Handed m) ?_ ?_ es
    (fun t ht => hes _ (Run.event_of_mem_accepted ht))
  · exact ⟨Protocol.boot _, Rounded.boot _, fun k rd batch hk => by
      cases hk⟩
  · intro _ m m' e h hs _ hkill
    exact h.next (System.step_cases hs) hkill

/-- In every run in which no statement of `persistSignedBatch` fails or
refers to a row that is not there, and no process is killed: the batch of
a signed session is in `mpc_batches` or on its way there. -/
theorem batches_reach (dep : Deployment Key Plain) (es : List Event)
    (hkill : ∀ e ∈ es, ∀ i, e ≠ .kill i)
    (hes : ∀ t ∈ Run.accepted (services dep).step (Estate.boot dep) es,
      System.Meets (fun _ => True) (fun _ => GoesThrough) t) :
    BatchesReach (Run.run (services dep).step (Estate.boot dep) es) := by
  have L := persisting_lawful dep.committee
  have hguarded : (services dep).Guarded persisting Kept
      (Run.run (services dep).step (Estate.boot dep) es) := by
    refine System.guarded_run L
      (fun t _ i s _ => safe_kept dep.hashJson t) ?_ ⟨trivial, ?_⟩ hes
    · intro e s s' ts _ he
      obtain ⟨world, -, -, rfl, -⟩ := coordinate_cases he
      exact ⟨trivial, fun _ => BatchesKept.refl s, fun t _ i =>
        safe_kept dep.hashJson t⟩
    · intro i t c hi
      cases hi
  have hhanded := handed_run dep hkill
  generalize Run.run (services dep).step (Estate.boot dep) es = m
    at hguarded hhanded ⊢
  constructor
  · intro r s batch hs hsigned hbatch
    obtain ⟨rd, hrd, -, hphase⟩ :=
      hhanded.protocol.returned hhanded.rounded hs hsigned hbatch
    obtain ⟨k, hk⟩ := List.mem_iff_getElem?.mp hrd
    obtain ⟨sessionId, i, c, hi⟩ := hhanded.handed k rd batch hk hphase
    cases c with
    | pure r =>
        obtain ⟨a, -, hstored⟩ := hguarded.finished L hi
        exact Or.inl hstored
    | throw e =>
        obtain ⟨a, ha, -⟩ := hguarded.threw L hi
        cases ha
    | call q k => exact Or.inr ⟨_, List.mem_of_getElem? hi, rfl, rfl⟩
  · intro i sessionId batch e hi
    obtain ⟨a, ha, -⟩ := hguarded.threw L hi
    cases ha

namespace Demo

/-- Both intents are forwarded and matched before either has a row. -/
def hasty : List Event :=
  [.start sell, .start buy] ++ turns 0 1 ++ turns 1 1
    ++ [.outside (.tick "batch")] ++ turns 2 1

end Demo

/-- In this run a batch is signed and stored. -/
theorem matched_reaches :
    BatchesReach (Run.run (services Demo.services).step
      (Estate.boot Demo.services) Demo.matched) :=
  batches_reach Demo.services Demo.matched (by
    intro e he i h
    subst h
    simp [Demo.matched, Demo.turns] at he) (by decide +kernel)

/-- A signed session whose batch is neither stored nor on its way. -/
def Lost (m : Estate Plain) (s : Committee.SessionState Plain) : Prop :=
  s.status = .signed ∧ ∃ batch ∈ s.signedBatch,
    ¬Stored batch.batchId m.shared ∧ ∀ p ∈ m.procs, ¬StillPersists batch p

instance (m : Estate Plain) (s : Committee.SessionState Plain) :
    Decidable (Lost m s) := by
  unfold Lost Stored
  infer_instance

/-- A session that is signed without its batch has not reached the
table. -/
theorem Lost.not_reach {m : Estate Plain} {r : Ref}
    {s : Committee.SessionState Plain} (h : Lost m s)
    (hs : m.shared.world.committee.heap[r]? = some s) :
    ¬BatchesReach m := by
  intro hreach
  obtain ⟨hsigned, batch, hbatch, hstored, hnone⟩ := h
  rcases hreach.stored r s batch hs hsigned hbatch with h | ⟨p, hp, h⟩
  · exact hstored h
  · exact hnone p hp h

/-- All statements of this run go through, and yet a signed batch is not
stored. -/
theorem signed_batch_lost :
    (∀ t ∈ Run.accepted (services Demo.services).step
        (Estate.boot Demo.services) Demo.hasty,
      System.Meets (fun _ => True) (fun _ _ c _ => c.goes) t)
      ∧ ¬BatchesReach (Run.run (services Demo.services).step
          (Estate.boot Demo.services) Demo.hasty) := by
  refine ⟨by decide +kernel, ?_⟩
  have hlost : ∃ s ∈ (Run.run (services Demo.services).step
      (Estate.boot Demo.services)
      Demo.hasty).shared.world.committee.heap[0]?,
      Lost (Run.run (services Demo.services).step
        (Estate.boot Demo.services) Demo.hasty) s := by
    decide +kernel
  obtain ⟨s, hs, h⟩ := hlost
  exact h.not_reach hs

end Lumix.Services
