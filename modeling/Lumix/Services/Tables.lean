/-
What the statements leave of the committee's tables: no row is ever
deleted, and of a row only the columns a statement names change. A row
after a call was there before or is the one inserted.
-/
import Lumix.Services.Jobs

namespace Lumix.Services

open Committee (SignedMatchBatch)

variable {Key Plain : Type} {cfg : Committee.Config Key Plain} {pid : ℕ}
  {s s' : Shared Plain} {q : Call}

-- ============================================================== batches

/-- The columns of `mpc_batches` that are written once. -/
structure SameBatch (a b : BatchRow) : Prop where
  sessionId : b.sessionId = a.sessionId
  batchHash : b.batchHash = a.batchHash
  matchResults : b.matchResults = a.matchResults
  signatures : b.signatures = a.signatures

/-- A batch is itself. -/
theorem SameBatch.refl (a : BatchRow) : SameBatch a a :=
  ⟨rfl, rfl, rfl, rfl⟩

/-- The same batch twice over. -/
theorem SameBatch.trans {a b c : BatchRow} (h : SameBatch a b)
    (h' : SameBatch b c) : SameBatch a c where
  sessionId := h'.sessionId.trans h.sessionId
  batchHash := h'.batchHash.trans h.batchHash
  matchResults := h'.matchResults.trans h.matchResults
  signatures := h'.signatures.trans h.signatures

/-- No batch is lost, and none changes but in its settlement. -/
def BatchesKept (s s' : Shared Plain) : Prop :=
  ∀ batchId a, s.mpcBatches.get batchId = some a →
    ∃ b, s'.mpcBatches.get batchId = some b ∧ SameBatch a b

/-- A moment in which nothing happened. -/
theorem BatchesKept.refl (s : Shared Plain) : BatchesKept s s :=
  fun _ a h => ⟨a, h, SameBatch.refl a⟩

/-- Kept over two stretches, kept over both. -/
theorem BatchesKept.trans {s₁ s₂ s₃ : Shared Plain}
    (h : BatchesKept s₁ s₂) (h' : BatchesKept s₂ s₃) :
    BatchesKept s₁ s₃ := by
  intro batchId a ha
  obtain ⟨b, hb, hab⟩ := h batchId a ha
  obtain ⟨c, hc, hbc⟩ := h' batchId b hb
  exact ⟨c, hc, hab.trans hbc⟩

/-- A row of `mpc_batches` after a call. -/
inductive BatchOrigin (s : Shared Plain) (batchId : String)
    (row : BatchRow) : Call → Prop
  | old {q : Call} (h : s.mpcBatches.get batchId = some row) :
      BatchOrigin s batchId row q
  | inserted (h : s.mpcBatches.get batchId = none) :
      BatchOrigin s batchId row (.insertBatch batchId row)
  | finished {a : BatchRow} {status : SettlementStatus}
      (h : s.mpcBatches.get batchId = some a) (hsame : SameBatch a row) :
      BatchOrigin s batchId row (.finishBatch batchId status)

/-- No statement loses a batch. -/
theorem Effect.batchesKept (h : Effect cfg pid s q s') :
    BatchesKept s s' := by
  cases h with
  | stored hnone =>
      rename_i batchId row
      intro b a ha
      have hne : batchId ≠ b := by
        rintro rfl
        rw [hnone] at ha
        cases ha
      exact ⟨a, (OrderedMap.get_set_ne _ _ hne).trans ha,
        SameBatch.refl a⟩
  | finished =>
      rename_i batchId status
      intro b a ha
      show ∃ b', (s.mpcBatches.modify batchId _).get b = some b' ∧ _
      rw [OrderedMap.get_modify, ha]
      by_cases hb : batchId = b
      · exact ⟨_, if_pos hb, rfl, rfl, rfl, rfl⟩
      · exact ⟨a, if_neg hb, SameBatch.refl a⟩
  | _ => exact BatchesKept.refl s

/-- A batch in the table was there, or is the one just inserted. -/
theorem Effect.batchOrigin (h : Effect cfg pid s q s') {batchId : String}
    {row : BatchRow} (hrow : s'.mpcBatches.get batchId = some row) :
    BatchOrigin s batchId row q := by
  cases h with
  | stored hnone =>
      rename_i batchId' row'
      replace hrow : (s.mpcBatches.set batchId' row').get batchId
        = some row := hrow
      rw [OrderedMap.get_set] at hrow
      by_cases hb : batchId' = batchId
      · rw [if_pos hb] at hrow
        injection hrow with hrow
        subst hb hrow
        exact .inserted hnone
      · rw [if_neg hb] at hrow
        exact .old hrow
  | finished =>
      rename_i batchId' status
      replace hrow : (s.mpcBatches.modify batchId' _).get batchId
        = some row := hrow
      rw [OrderedMap.get_modify] at hrow
      by_cases hb : batchId' = batchId
      · rw [if_pos hb] at hrow
        obtain ⟨a, ha, rfl⟩ := Option.map_eq_some_iff.mp hrow
        subst hb
        exact .finished ha ⟨rfl, rfl, rfl, rfl⟩
      · rw [if_neg hb] at hrow
        exact .old hrow
  | _ => exact .old hrow

-- ====================================================== the coordinator

/-- A call leaves the coordinator alone, or forwards an intent to it. -/
theorem Effect.world (h : Effect cfg pid s q s') :
    s'.world = s.world ∨ ∃ intent clock, q = .forward intent
      ∧ Committee.step cfg s.world (.submit intent clock)
        = .ok s'.world := by
  cases h with
  | forwarded h => exact Or.inr ⟨_, _, rfl, h⟩
  | _ => exact Or.inl rfl

/-- A round has a batch when it returned one. -/
theorem Phase.returned_of_batch {phase : Committee.Phase Plain}
    {batch : SignedMatchBatch} (h : Phase.batch phase = some batch) :
    phase = .returned (.ok batch) := by
  unfold Phase.batch at h
  split at h
  · injection h with h
    rw [h]
  · cases h

/-- A batch that a round has just returned is to be persisted. -/
theorem mem_newlySigned {w w' : Committee.World Plain} {k : ℕ}
    {rd : Committee.Round Plain} {batch : SignedMatchBatch}
    {s : Committee.SessionState Plain} (hk : w'.rounds[k]? = some rd)
    (hphase : rd.phase = .returned (.ok batch))
    (hold : ∀ old, w.rounds[k]? = some old → Phase.batch old.phase = none)
    (hs : w'.committee.heap[rd.session]? = some s) :
    .persist s.sessionId batch ∈ newlySigned w w' := by
  have hbatch : Phase.batch rd.phase = some batch := by
    rw [hphase]
    rfl
  refine List.mem_filterMap.mpr
    ⟨(rd, k), List.mem_zipIdx_iff_getElem?.mpr hk, ?_⟩
  have hnone : ((w.rounds[k]?).bind fun rd => Phase.batch rd.phase)
      = none := by
    cases h : w.rounds[k]? with
    | none => rfl
    | some old => exact hold old h
  simp only [hnone, hbatch, hs]
  rfl

/-- A new task is to persist the batch of a round that has returned. -/
theorem of_mem_newlySigned {w w' : Committee.World Plain} {t : Task}
    (h : t ∈ newlySigned w w') :
    ∃ rd ∈ w'.rounds, ∃ batch, ∃ s : Committee.SessionState Plain,
      rd.phase = .returned (.ok batch)
        ∧ t = .persist s.sessionId batch := by
  unfold newlySigned at h
  obtain ⟨p, hp, ht⟩ := List.mem_filterMap.mp h
  have hrd := List.mem_of_getElem? (List.mem_zipIdx_iff_getElem?.mp hp)
  split at ht
  · cases ht
  · obtain ⟨batch, hbatch, ht⟩ := Option.bind_eq_some_iff.mp ht
    obtain ⟨s, -, rfl⟩ := Option.map_eq_some_iff.mp ht
    exact ⟨p.1, hrd, batch, s, Phase.returned_of_batch hbatch, rfl⟩

-- ============================================================== the log

/-- What is logged stays logged. -/
theorem Effect.logGrows (h : Effect cfg pid s q s') {d : Deed}
    (hd : d ∈ s.log) : d ∈ s'.log := by
  cases h with
  | examined => exact List.mem_append_left _ hd
  | finished => exact List.mem_append_left _ hd
  | claimed hclaim => exact List.mem_append_left _ hd
  | completed => exact List.mem_append_left _ hd
  | abandoned => exact List.mem_append_left _ hd
  | _ => exact hd

/-- Who finished a batch did it then or now. -/
theorem Effect.finishedOrigin (h : Effect cfg pid s q s') {i : ℕ}
    {batchId : String} (hd : .finished i batchId ∈ s'.log) :
    .finished i batchId ∈ s.log
      ∨ i = pid ∧ ∃ status, q = .finishBatch batchId status := by
  have hlast : ∀ d : Deed, d ≠ .finished i batchId →
      .finished i batchId ∈ s.log ++ [d] → .finished i batchId ∈ s.log := by
    intro d hne hmem
    rcases List.mem_append.mp hmem with hmem | hmem
    · exact hmem
    · exact absurd (List.mem_singleton.mp hmem).symm hne
  cases h with
  | examined => exact Or.inl (hlast _ (fun h => by cases h) hd)
  | claimed hclaim => exact Or.inl (hlast _ (fun h => by cases h) hd)
  | completed => exact Or.inl (hlast _ (fun h => by cases h) hd)
  | abandoned => exact Or.inl (hlast _ (fun h => by cases h) hd)
  | finished =>
      rcases List.mem_append.mp hd with hd | hd
      · exact Or.inl hd
      · injection List.mem_singleton.mp hd with hi hb
        subst hb
        exact Or.inr ⟨hi, _, rfl⟩
  | _ => exact Or.inl hd

-- ============================================================== intents

/-- The columns of `mpc_intents` that are written once. -/
structure SameNote (a b : MpcIntentRow) : Prop where
  noteNullifier : b.noteNullifier = a.noteNullifier
  noteCommitment : b.noteCommitment = a.noteCommitment
  recipientCommitment : b.recipientCommitment = a.recipientCommitment
  matched : a.status = .matched → b.status = .matched

/-- A note is itself. -/
theorem SameNote.refl (a : MpcIntentRow) : SameNote a a :=
  ⟨rfl, rfl, rfl, fun h => h⟩

/-- The same note twice over. -/
theorem SameNote.trans {a b c : MpcIntentRow} (h : SameNote a b)
    (h' : SameNote b c) : SameNote a c where
  noteNullifier := h'.noteNullifier.trans h.noteNullifier
  noteCommitment := h'.noteCommitment.trans h.noteCommitment
  recipientCommitment := h'.recipientCommitment.trans h.recipientCommitment
  matched := fun ha => h'.matched (h.matched ha)

/-- No intent is lost, none changes its note, and a matched one stays
matched. -/
def NotesKept (s s' : Shared Plain) : Prop :=
  ∀ intentId a, s.mpcIntents.get intentId = some a →
    ∃ b, s'.mpcIntents.get intentId = some b ∧ SameNote a b

/-- A moment in which nothing happened. -/
theorem NotesKept.refl (s : Shared Plain) : NotesKept s s :=
  fun _ a h => ⟨a, h, SameNote.refl a⟩

/-- Kept over two stretches, kept over both. -/
theorem NotesKept.trans {s₁ s₂ s₃ : Shared Plain} (h : NotesKept s₁ s₂)
    (h' : NotesKept s₂ s₃) : NotesKept s₁ s₃ := by
  intro intentId a ha
  obtain ⟨b, hb, hab⟩ := h intentId a ha
  obtain ⟨c, hc, hbc⟩ := h' intentId b hb
  exact ⟨c, hc, hab.trans hbc⟩

/-- No statement loses a note. -/
theorem Effect.notesKept (h : Effect cfg pid s q s') : NotesKept s s' := by
  cases h with
  | written hnone =>
      rename_i intentId row
      intro id a ha
      have hne : intentId ≠ id := by
        rintro rfl
        rw [hnone] at ha
        cases ha
      exact ⟨a, (OrderedMap.get_set_ne _ _ hne).trans ha, SameNote.refl a⟩
  | rewritten hold =>
      rename_i intentId row old
      intro id a ha
      show ∃ b, (s.mpcIntents.set intentId _).get id = some b ∧ _
      rw [OrderedMap.get_set]
      by_cases hid : intentId = id
      · subst hid
        rw [hold] at ha
        injection ha with ha
        subst ha
        exact ⟨_, if_pos rfl, rfl, rfl, rfl, fun h => h⟩
      · exact ⟨a, (if_neg hid).trans ha, SameNote.refl a⟩
  | marked =>
      rename_i intentId other
      intro id a ha
      show ∃ b, (s.mpcIntents.modify intentId _).get id = some b ∧ _
      rw [OrderedMap.get_modify, ha]
      by_cases hid : intentId = id
      · exact ⟨_, if_pos hid, rfl, rfl, rfl, fun _ => rfl⟩
      · exact ⟨a, if_neg hid, SameNote.refl a⟩
  | _ => exact NotesKept.refl s

/-- The rows of `intents` stay. -/
theorem Effect.intentsKept (h : Effect cfg pid s q s')
    {intentHash : String} (hs : (s.intents.get intentHash).isSome) :
    (s'.intents.get intentHash).isSome := by
  cases h with
  | created hnone =>
      rename_i hash key
      show ((s.intents.set hash _).get intentHash).isSome
      rw [OrderedMap.get_set]
      split
      · rfl
      · exact hs
  | linked =>
      rename_i sessionId hash
      show ((s.intents.modify hash _).get intentHash).isSome
      rw [OrderedMap.get_modify]
      split
      · rw [Option.isSome_map]
        exact hs
      · exact hs
  | _ => exact hs

end Lumix.Services
