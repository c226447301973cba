/-
The notes of a local vault.

A vault holds one note for each commitment: adding puts a prepared note
in the place of the one there, `activate` and `markSpent` set its status,
and neither looks at the status it replaces. `Status.due` is the status a
note is due after a history. As long as no call adds or activates a note
that is spent, or adds one that is active (`Careful`), every note has the
status it is due, and the balance is the sum over the notes that were
activated and not spent (`vault_lifecycle`).
-/
import Lumix.Lib.Run
import Lumix.Lib.Text

namespace Lumix.NoteVault

open Exec Run Text

-- ================================================================ the vault

/-- The secrets a note is opened with, as the vault keeps them. -/
structure NotePreimage where
  owner_secret : String
  spend_secret : String
  blinding : String
  nonce : String
  memo_commitment : String
  compliance_tag : String
  source_context : String
deriving DecidableEq

/-- The statuses a note of the vault can have. -/
inductive Status
  | prepared
  | active
  | spent
deriving DecidableEq

/-- A note as the vault records it. -/
structure VaultNote where
  commitment : String
  asset_id : String
  amount_7dp : String
  note_preimage : NotePreimage
  deposit_id : Option String
  status : Status
  created_at : String
deriving DecidableEq

/-- The vault of one user, before it is encrypted. -/
structure Vault where
  version : String
  vault_id : String
  created_at : String
  updated_at : String
  notes : List VaultNote

/-- `createEmptyNoteVault`: a vault with no notes. -/
def createEmptyNoteVault (vaultId now : String) : Vault where
  version := "lumixprotocol-note-vault-v1"
  vault_id := vaultId
  created_at := now
  updated_at := now
  notes := []

/-- `addNoteToVault`: the note replaces one with its commitment and goes
to the end. -/
def addNoteToVault (vault : Vault) (note : VaultNote) (now : String) :
    Vault :=
  { vault with
    updated_at := now
    notes := vault.notes.filter (·.commitment ≠ note.commitment) ++ [note] }

-- ============================================================== the manager

/-- What a caller of `addNote` hands in. -/
structure AddNoteParams where
  commitment : String
  asset_id : String
  amount_7dp : String
  note_preimage : NotePreimage
  deposit_id : Option String

/-- The note of `addNote`, made at `now`. -/
def AddNoteParams.note (p : AddNoteParams) (now : String) : VaultNote where
  commitment := p.commitment
  asset_id := p.asset_id
  amount_7dp := p.amount_7dp
  note_preimage := p.note_preimage
  deposit_id := p.deposit_id
  status := .prepared
  created_at := now

/-- `addNote`: the note enters as prepared. -/
def addNote (vault : Vault) (p : AddNoteParams) (createdAt now : String) :
    Vault :=
  addNoteToVault vault (p.note createdAt) now

/-- The notes of a commitment get a status. -/
def setStatus (status : Status) (vault : Vault) (commitment now : String) :
    Vault :=
  { vault with
    updated_at := now
    notes := vault.notes.map fun n =>
      if n.commitment = commitment then { n with status } else n }

/-- `activate`: the note becomes active. -/
def activate : Vault → String → String → Vault := setStatus .active

/-- `markSpent`: the note becomes spent. -/
def markSpent : Vault → String → String → Vault := setStatus .spent

/-- The sum of the amounts, unless one is no numeral. -/
def sumAmounts (notes : List VaultNote) : Except String ℤ :=
  notes.foldlM (fun sum n => do
    let amount ← orPanic ("Cannot convert " ++ n.amount_7dp ++ " to a BigInt")
      (bigInt n.amount_7dp)
    pure (sum + amount)) 0

/-- `totalActive7dp`: the sum of the active notes' amounts. -/
def totalActive7dp (vault : Vault) : Except String ℤ :=
  sumAmounts (vault.notes.filter (·.status = .active))

-- ================================================================= the calls

/-- The calls of the vault that write. -/
inductive Op
  | addNote (p : AddNoteParams) (createdAt now : String)
  | activate (commitment now : String)
  | markSpent (commitment now : String)

/-- What a call makes of the vault. -/
def Op.apply (vault : Vault) : Op → Vault
  | .addNote p createdAt now => NoteVault.addNote vault p createdAt now
  | .activate commitment now => NoteVault.activate vault commitment now
  | .markSpent commitment now => NoteVault.markSpent vault commitment now

/-- No call fails. -/
def step (vault : Vault) (op : Op) : Except Empty Vault :=
  .ok (op.apply vault)

/-- The transitions of the vault up to now. -/
abbrev History := List (Transition Vault Op)

/-- The commitments of the vault's notes, in order. -/
def commitments (vault : Vault) : List String :=
  vault.notes.map (·.commitment)

/-- The call activates the note of a commitment. -/
def Activates (c : String) (t : Transition Vault Op) : Prop :=
  match t.event with
  | .activate commitment _ => commitment = c ∧ c ∈ commitments t.before
  | _ => False

/-- The call marks the note of a commitment spent. -/
def Spends (c : String) (t : Transition Vault Op) : Prop :=
  match t.event with
  | .markSpent commitment _ => commitment = c ∧ c ∈ commitments t.before
  | _ => False

instance (c : String) (t : Transition Vault Op) : Decidable (Activates c t) :=
  match h : t.event with
  | .activate .. => decidable_of_iff (_ ∧ _) (by rw [Activates, h])
  | .addNote .. | .markSpent .. => .isFalse (by simp [Activates, h])

instance (c : String) (t : Transition Vault Op) : Decidable (Spends c t) :=
  match h : t.event with
  | .markSpent .. => decidable_of_iff (_ ∧ _) (by rw [Spends, h])
  | .addNote .. | .activate .. => .isFalse (by simp [Spends, h])

/-- Some call of the history activated the note. -/
def ActivatedIn (h : History) (c : String) : Prop := ∃ t ∈ h, Activates c t

/-- Some call of the history marked the note spent. -/
def SpentIn (h : History) (c : String) : Prop := ∃ t ∈ h, Spends c t

instance (h : History) (c : String) : Decidable (ActivatedIn h c) :=
  inferInstanceAs (Decidable (∃ t ∈ h, _))

instance (h : History) (c : String) : Decidable (SpentIn h c) :=
  inferInstanceAs (Decidable (∃ t ∈ h, _))

/-- The status that a note is due after a history. -/
def Status.due (h : History) (c : String) : Status :=
  if SpentIn h c then .spent
  else if ActivatedIn h c then .active
  else .prepared

/-- The notes that were activated and not marked spent. -/
def owned (h : History) (vault : Vault) : List VaultNote :=
  vault.notes.filter fun n =>
    ActivatedIn h n.commitment ∧ ¬SpentIn h n.commitment

/-- No note that is spent is added or activated, and none that is active is
added. -/
def Careful (t : Transition Vault Op) : Prop :=
  match t.event with
  | .addNote p _ _ => ∀ n ∈ t.before.notes, n.commitment = p.commitment →
      n.status = .prepared
  | .activate commitment _ => ∀ n ∈ t.before.notes,
      n.commitment = commitment → n.status ≠ .spent
  | .markSpent _ _ => True

-- ================================================================= distinct

theorem commitments_setStatus (status : Status) (vault : Vault)
    (commitment now : String) :
    commitments (setStatus status vault commitment now)
      = commitments vault := by
  unfold commitments setStatus
  rw [List.map_map]
  refine List.map_congr_left fun n _ => ?_
  show (if n.commitment = commitment then _ else n).commitment = _
  split <;> rfl

theorem mem_commitments_addNote {vault : Vault} {p : AddNoteParams}
    {createdAt now c : String} :
    c ∈ commitments (addNote vault p createdAt now)
      ↔ c = p.commitment ∨ c ∈ commitments vault := by
  unfold commitments addNote addNoteToVault
  rw [List.map_append, List.mem_append, List.map_singleton,
    List.mem_singleton]
  show _ ∨ c = p.commitment ↔ _
  constructor
  · rintro (hmem | rfl)
    · obtain ⟨n, hn, rfl⟩ := List.mem_map.mp hmem
      exact .inr (List.mem_map_of_mem (List.mem_filter.mp hn).1)
    · exact .inl rfl
  · rintro (rfl | hmem)
    · exact .inr rfl
    · by_cases hc : c = p.commitment
      · exact .inr hc
      · obtain ⟨n, hn, rfl⟩ := List.mem_map.mp hmem
        exact .inl (List.mem_map_of_mem
          (List.mem_filter.mpr ⟨hn, decide_eq_true hc⟩))

theorem nodup_addNote {vault : Vault} {p : AddNoteParams}
    {createdAt now : String} (h : (commitments vault).Nodup) :
    (commitments (addNote vault p createdAt now)).Nodup := by
  unfold commitments addNote addNoteToVault at *
  rw [List.map_append, List.nodup_append]
  refine ⟨h.sublist (List.filter_sublist.map _), List.pairwise_singleton _ _,
    ?_⟩
  intro c hc c' hc'
  obtain ⟨n, hn, rfl⟩ := List.mem_map.mp hc
  obtain rfl := List.mem_singleton.mp hc'
  exact of_decide_eq_true (List.mem_filter.mp hn).2

theorem nodup_apply {vault : Vault} (op : Op)
    (h : (commitments vault).Nodup) :
    (commitments (op.apply vault)).Nodup := by
  cases op with
  | addNote p createdAt now => exact nodup_addNote h
  | activate commitment now | markSpent commitment now =>
      exact (commitments_setStatus _ vault commitment now).symm ▸ h

-- ====================================================================== due

section Due

variable {h : History} {t : Transition Vault Op} {c : String}

theorem activatedIn_concat :
    ActivatedIn (h ++ [t]) c ↔ ActivatedIn h c ∨ Activates c t := by
  simp [ActivatedIn, or_and_right, exists_or]

theorem spentIn_concat :
    SpentIn (h ++ [t]) c ↔ SpentIn h c ∨ Spends c t := by
  simp [SpentIn, or_and_right, exists_or]

/-- A call that is not about a note leaves what it is due. -/
theorem due_concat (hactivates : ¬Activates c t) (hspends : ¬Spends c t) :
    Status.due (h ++ [t]) c = Status.due h c := by
  unfold Status.due
  simp only [activatedIn_concat, spentIn_concat, hactivates, hspends,
    or_false]

theorem due_eq_active :
    Status.due h c = .active ↔ ActivatedIn h c ∧ ¬SpentIn h c := by
  unfold Status.due
  by_cases hspent : SpentIn h c
  · simp [hspent]
  · by_cases hactivated : ActivatedIn h c
    · simp [hspent, hactivated]
    · simp [hspent, hactivated]

theorem due_of_spent (hspent : SpentIn h c) : Status.due h c = .spent :=
  if_pos hspent

end Due

/-- Every note has the status it is due, and a commitment that the history
tells of is there. -/
structure DueInv (h : History) (vault : Vault) : Prop where
  due : ∀ n ∈ vault.notes, n.status = Status.due h n.commitment
  present : ∀ c, ActivatedIn h c ∨ SpentIn h c → c ∈ commitments vault

section Steps

variable {h : History} {vault : Vault} (hinv : DueInv h vault)

include hinv

theorem DueInv.addNote {p : AddNoteParams} {createdAt now : String}
    (hcareful : ∀ n ∈ vault.notes, n.commitment = p.commitment →
      n.status = .prepared) :
    let vault' := NoteVault.addNote vault p createdAt now
    DueInv (h ++ [⟨vault, .addNote p createdAt now, vault'⟩]) vault' := by
  intro vault'
  have hkeep : ∀ c, Status.due
      (h ++ [⟨vault, .addNote p createdAt now, vault'⟩]) c
        = Status.due h c := fun c => due_concat id id
  -- the new note is due to be prepared: the one there was, or there is none
  have hnew : Status.due h p.commitment = .prepared := by
    by_cases hthere : p.commitment ∈ commitments vault
    · obtain ⟨n, hn, hcommitment⟩ := List.mem_map.mp hthere
      rw [← hcommitment, ← hinv.due n hn]
      exact hcareful n hn hcommitment
    · have hnone := mt (hinv.present p.commitment) hthere
      obtain ⟨hactivated, hspent⟩ := not_or.mp hnone
      unfold Status.due
      rw [if_neg hspent, if_neg hactivated]
  refine ⟨?_, ?_⟩
  · intro n hn
    rw [hkeep]
    rcases List.mem_append.mp hn with hn | hn
    · exact hinv.due n (List.mem_filter.mp hn).1
    · rw [List.mem_singleton.mp hn]
      exact hnew.symm
  · intro c hc
    rw [activatedIn_concat, spentIn_concat] at hc
    rw [mem_commitments_addNote]
    refine .inr (hinv.present c ?_)
    exact hc.imp (Or.resolve_right · id) (Or.resolve_right · id)

theorem DueInv.activate {commitment now : String}
    (hcareful : ∀ n ∈ vault.notes, n.commitment = commitment →
      n.status ≠ .spent) :
    let vault' := NoteVault.activate vault commitment now
    DueInv (h ++ [⟨vault, .activate commitment now, vault'⟩]) vault' := by
  intro vault'
  refine ⟨?_, ?_⟩
  · intro n' hn'
    obtain ⟨n, hn, rfl⟩ := List.mem_map.mp hn'
    by_cases hc : n.commitment = commitment
    · have hthere : commitment ∈ commitments vault :=
        hc ▸ List.mem_map_of_mem hn
      have hspent : ¬SpentIn h commitment := by
        intro hspent
        refine hcareful n hn hc ?_
        rw [hinv.due n hn, hc]
        exact due_of_spent hspent
      rw [if_pos hc]
      show Status.active = Status.due _ n.commitment
      rw [hc]
      refine (due_eq_active.mpr ⟨?_, ?_⟩).symm
      · exact activatedIn_concat.mpr (.inr ⟨rfl, hthere⟩)
      · exact fun hspentIn => hspent
          ((spentIn_concat.mp hspentIn).resolve_right id)
    · have hactivates : ¬Activates n.commitment
          ⟨vault, .activate commitment now, vault'⟩ :=
        fun hactivates => hc hactivates.1.symm
      rw [if_neg hc, due_concat hactivates id]
      exact hinv.due n hn
  · intro c hc
    rw [activatedIn_concat, spentIn_concat] at hc
    show c ∈ commitments (setStatus _ vault commitment now)
    rw [commitments_setStatus]
    rcases hc with (hc | hc) | hc | hc
    · exact hinv.present c (.inl hc)
    · exact hc.2
    · exact hinv.present c (.inr hc)
    · exact hc.elim

theorem DueInv.markSpent {commitment now : String} :
    let vault' := NoteVault.markSpent vault commitment now
    DueInv (h ++ [⟨vault, .markSpent commitment now, vault'⟩]) vault' := by
  intro vault'
  refine ⟨?_, ?_⟩
  · intro n' hn'
    obtain ⟨n, hn, rfl⟩ := List.mem_map.mp hn'
    by_cases hc : n.commitment = commitment
    · have hthere : commitment ∈ commitments vault :=
        hc ▸ List.mem_map_of_mem hn
      rw [if_pos hc]
      show Status.spent = Status.due _ n.commitment
      rw [hc]
      refine (due_of_spent (spentIn_concat.mpr (.inr ?_))).symm
      exact ⟨rfl, hthere⟩
    · have hspends : ¬Spends n.commitment
          ⟨vault, .markSpent commitment now, vault'⟩ :=
        fun hspends => hc hspends.1.symm
      rw [if_neg hc, due_concat id hspends]
      exact hinv.due n hn
  · intro c hc
    rw [activatedIn_concat, spentIn_concat] at hc
    show c ∈ commitments (setStatus _ vault commitment now)
    rw [commitments_setStatus]
    rcases hc with (hc | hc) | hc | hc
    · exact hinv.present c (.inl hc)
    · exact hc.elim
    · exact hinv.present c (.inr hc)
    · exact hc.2

theorem DueInv.apply {op : Op}
    (hcareful : Careful ⟨vault, op, op.apply vault⟩) :
    DueInv (h ++ [⟨vault, op, op.apply vault⟩]) (op.apply vault) := by
  cases op with
  | addNote p createdAt now => exact hinv.addNote hcareful
  | activate commitment now => exact hinv.activate hcareful
  | markSpent commitment now => exact hinv.markSpent

theorem DueInv.total : totalActive7dp vault = sumAmounts (owned h vault) := by
  unfold totalActive7dp owned
  congr 1
  refine List.filter_congr fun n hn => ?_
  rw [decide_eq_decide, hinv.due n hn, due_eq_active]

end Steps

-- ================================================================= over runs

/-- The commitments in a vault are distinct after any calls. If all of them
are careful, a note that was marked spent stays spent, and the balance is
the sum over the notes activated and not marked spent. -/
theorem vault_lifecycle :
    ∀ (vaultId now : String) (ops : List Op),
    let vault := run step (createEmptyNoteVault vaultId now) ops
    let h := accepted step (createEmptyNoteVault vaultId now) ops
    (commitments vault).Nodup
      ∧ ((∀ t ∈ h, Careful t) →
        (∀ n ∈ vault.notes, SpentIn h n.commitment → n.status = .spent)
          ∧ totalActive7dp vault = sumAmounts (owned h vault)) := by
  intro vaultId now ops vault h
  refine ⟨?_, ?_⟩
  · have hempty : (commitments (createEmptyNoteVault vaultId now)).Nodup :=
      List.nodup_nil
    refine run_induction (fun v => (commitments v).Nodup) hempty ?_ ops
    rintro v _ op hnodup ⟨⟩
    exact nodup_apply op hnodup
  · intro hcareful
    have hinv : DueInv h vault := by
      refine history_induction_of Careful DueInv ?_ ?_ ops hcareful
      · refine ⟨fun n hn => (by cases hn), ?_⟩
        rintro c (⟨t, ht, -⟩ | ⟨t, ht, -⟩) <;> cases ht
      · rintro h v _ op hinv ⟨⟩ - hstep
        exact hinv.apply hstep
    refine ⟨?_, hinv.total⟩
    intro n hn hspent
    rw [hinv.due n hn]
    exact due_of_spent hspent

-- ===================================================================== runs

section Replays

/-- The preimage of the demo's notes. -/
def secrets : NotePreimage := ⟨"a", "b", "c", "d", "e", "f", "g"⟩

/-- The demo's way to add a note. -/
def deposit (commitment amount_7dp : String) : Op :=
  .addNote ⟨commitment, "USDC:Stellar:SAC", amount_7dp, secrets, none⟩ "t1"
    "t1"

/-- Two notes are deposited, and one is spent. -/
def spendOne : List Op :=
  [deposit "0xaa" "70", .activate "0xaa" "t2", deposit "0xbb" "30",
    .activate "0xbb" "t3", .markSpent "0xaa" "t4"]

/-- The confirmation of the deposit that is spent comes once more. -/
def replay : List Op := spendOne ++ [.activate "0xaa" "t5"]

/-- The spent note is added and confirmed once more. -/
def readd : List Op :=
  spendOne ++ [deposit "0xaa" "70", .activate "0xaa" "t5"]

/-- The active note is added once more. -/
def reset : List Op := spendOne ++ [deposit "0xbb" "30"]

/-- The spent note is not in the balance. -/
theorem vault_lifecycle_spendOne :
    let vault := run step (createEmptyNoteVault "v" "t0") spendOne
    let h := accepted step (createEmptyNoteVault "v" "t0") spendOne
    (commitments vault).Nodup
      ∧ (∀ n ∈ vault.notes, SpentIn h n.commitment → n.status = .spent)
      ∧ totalActive7dp vault = sumAmounts (owned h vault)
      ∧ totalActive7dp vault = .ok 30 := by
  intro vault h
  obtain ⟨hnodup, hlaw⟩ := vault_lifecycle "v" "t0" spendOne
  obtain ⟨hspent, htotal⟩ := hlaw (by simp [spendOne, deposit, accepted, step,
    Op.apply, Careful, addNote, addNoteToVault, activate, markSpent,
    setStatus, createEmptyNoteVault, AddNoteParams.note])
  exact ⟨hnodup, hspent, htotal, by decide +kernel⟩

/-- A note that is spent is active again, and its value in the balance,
after a replayed confirmation and after it is added again; and a note that
is active leaves the balance as it is added again. -/
theorem spent_note_returns :
    (∀ ops ∈ [replay, readd],
      let vault := run step (createEmptyNoteVault "v" "t0") ops
      let h := accepted step (createEmptyNoteVault "v" "t0") ops
      (∃ n ∈ vault.notes, SpentIn h n.commitment ∧ n.status = .active)
        ∧ totalActive7dp vault = .ok 100
        ∧ sumAmounts (owned h vault) = .ok 30)
      ∧ totalActive7dp (run step (createEmptyNoteVault "v" "t0") reset)
        = .ok 0
      ∧ sumAmounts (owned (accepted step (createEmptyNoteVault "v" "t0")
        reset) (run step (createEmptyNoteVault "v" "t0") reset))
        = .ok 30 := by
  decide +kernel

end Replays

end Lumix.NoteVault
