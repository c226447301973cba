/-
When a vault is ready for a deposit.

Readiness is read from two columns, and the statements that change the
envelope or the wrappers leave the mark of a verified backup as it is.
So a vault can be ready with an envelope that was never verified, or
with too few wrappers (`ready_unverified`). What readiness is meant to
say holds in the runs that keep to three things (`Careful`): a verified
vault is given no envelope but the one that was verified last, a backup
is marked when wrappers are registered for what its envelope lists, and
a wrapper of a verified vault is deleted only if the rest still answer
to what was verified.

That the registered wrappers then meet the policy is the routes' doing:
an envelope is stored with the policy of its own list
(`Call.OwnPolicy`), the column that `verifyBackup` and readiness look
at, and the policy can tell two lists apart only by what `Backs`
compares.
-/
import Lumix.Services.Ownership

namespace Lumix.Services.Vaults

variable {env : Env} {t : Tables} {w : World} {q : Call}

-- ================================================================= policy

/-- The active wrappers that count. -/
def counted (wrappers : List RecoveryWrapper) : ℕ :=
  ((wrappers.filter (·.status = .active)).filter fun w =>
    w.type ≠ .evm_signature ∧ w.diagnostic_only ≠ some true).length

/-- Some active wrapper is of a strong kind. -/
def hasStrong (wrappers : List RecoveryWrapper) : Bool :=
  (wrappers.filter (·.status = .active)).any fun w =>
    w.type = .passkey_prf ∨ w.type = .stellar_ed25519_signature

/-- The policy as a chain of cases. -/
theorem evaluateRecoveryPolicy_cases (wrappers : List RecoveryWrapper)
    (opts : PolicyOpts) :
    evaluateRecoveryPolicy wrappers opts
      = if opts.allowEvmOnly = false ∧ counted wrappers = 0
          then .insufficient
        else if ∃ min ∈ opts.min, counted wrappers < min then .insufficient
        else if opts.mainnet = true then
          if 2 ≤ counted wrappers ∧ hasStrong wrappers = true then .strong
          else .insufficient
        else if hasStrong wrappers = true ∧ 2 ≤ counted wrappers then .strong
        else .sufficient := rfl

/-- When it is insufficient, -/
theorem evaluateRecoveryPolicy_eq_insufficient
    {wrappers : List RecoveryWrapper} {opts : PolicyOpts} :
    evaluateRecoveryPolicy wrappers opts = .insufficient
      ↔ (opts.allowEvmOnly = false ∧ counted wrappers = 0)
        ∨ (∃ min ∈ opts.min, counted wrappers < min)
        ∨ (opts.mainnet = true
          ∧ ¬(2 ≤ counted wrappers ∧ hasStrong wrappers = true)) := by
  rw [evaluateRecoveryPolicy_cases]
  split
  · simp_all
  · split
    · simp_all
    · split
      · split <;> simp_all
      · split <;> simp_all

/-- and when it is strong. -/
theorem evaluateRecoveryPolicy_eq_strong
    {wrappers : List RecoveryWrapper} {opts : PolicyOpts} :
    evaluateRecoveryPolicy wrappers opts = .strong
      ↔ ¬(opts.allowEvmOnly = false ∧ counted wrappers = 0)
        ∧ ¬(∃ min ∈ opts.min, counted wrappers < min)
        ∧ 2 ≤ counted wrappers ∧ hasStrong wrappers = true := by
  rw [evaluateRecoveryPolicy_cases]
  split
  · simp_all
  · split
    · simp_all
    · split
      · split <;> simp_all
      · split <;> grind

/-- One list has as many wrappers that count as another, and a strong
one if the other has. -/
def Backs (wrappers listed : List RecoveryWrapper) : Prop :=
  counted listed ≤ counted wrappers
    ∧ (hasStrong listed = true → hasStrong wrappers = true)

instance (wrappers listed : List RecoveryWrapper) :
    Decidable (Backs wrappers listed) :=
  inferInstanceAs (Decidable (_ ∧ _))

section Backing

variable {wrappers more listed : List RecoveryWrapper} {opts : PolicyOpts}

/-- More wrappers back what fewer back. -/
theorem Backs.of_sublist (hsub : wrappers.Sublist more) :
    Backs more wrappers := by
  refine ⟨((hsub.filter _).filter _).length_le, fun h => ?_⟩
  unfold hasStrong at *
  rw [List.any_eq_true] at *
  obtain ⟨w, hw, hstrong⟩ := h
  exact ⟨w, (hsub.filter _).subset hw, hstrong⟩

/-- What is backed by what is backed is backed. -/
theorem Backs.trans (h : Backs more wrappers) (h' : Backs wrappers listed) :
    Backs more listed :=
  ⟨Nat.le_trans h'.1 h.1, fun hstrong => h.2 (h'.2 hstrong)⟩

/-- More wrappers do not make a policy insufficient. -/
theorem Backs.policy (h : Backs more wrappers)
    (hpolicy : evaluateRecoveryPolicy wrappers opts ≠ .insufficient) :
    evaluateRecoveryPolicy more opts ≠ .insufficient := by
  obtain ⟨hcounted, hstrong⟩ := h
  rw [ne_eq, evaluateRecoveryPolicy_eq_insufficient] at hpolicy ⊢
  intro hmore
  apply hpolicy
  rcases hmore with ⟨hevm, hzero⟩ | ⟨min, hmin, hlt⟩ | ⟨hmainnet, hfew⟩
  · exact .inl ⟨hevm, by omega⟩
  · exact .inr (.inl ⟨min, hmin, by omega⟩)
  · refine .inr (.inr ⟨hmainnet, fun hboth => hfew ⟨?_, ?_⟩⟩)
    · omega
    · exact hstrong hboth.2

/-- They do not make it less than strong. -/
theorem Backs.policy_strong (h : Backs more wrappers)
    (hpolicy : evaluateRecoveryPolicy wrappers opts = .strong) :
    evaluateRecoveryPolicy more opts = .strong := by
  obtain ⟨hcounted, hstrong⟩ := h
  rw [evaluateRecoveryPolicy_eq_strong] at *
  obtain ⟨hsome, hmin, htwo, hhas⟩ := hpolicy
  refine ⟨?_, ?_, by omega, hstrong hhas⟩
  · rintro ⟨hevm, hzero⟩
    exact hsome ⟨hevm, by omega⟩
  · rintro ⟨min, hmem, hlt⟩
    exact hmin ⟨min, hmem, by omega⟩

end Backing

-- ========================================================= what is asked

/-- The wrappers that are registered, as far as their table tells. -/
def WrapperRow.wrapper (r : WrapperRow) : RecoveryWrapper :=
  ⟨r.wrapper_type, r.wrapper_status, none⟩

/-- The wrappers in the table, as the policy sees them. -/
def registered (t : Tables) (vaultId : String) : List RecoveryWrapper :=
  (listVaultWrappers t vaultId).map WrapperRow.wrapper

/-- Those that are left without one. -/
def remaining (t : Tables) (userId vaultId wrapperId : String) :
    List RecoveryWrapper :=
  ((listVaultWrappers t vaultId).filter fun r =>
    ¬(r.id = wrapperId ∧ r.user_id = userId)).map WrapperRow.wrapper

/-- The wrappers that an envelope lists. -/
def EncryptedVaultEnvelope.listed (envelope : EncryptedVaultEnvelope) :
    List RecoveryWrapper :=
  envelope.wrappers.map (·.toRecoveryWrapper)

/-- They are not insufficient. -/
def MeetsPolicy (env : Env) (t : Tables) (vaultId : String) : Prop :=
  recoveryPolicyFor env (registered t vaultId) ≠ .insufficient

instance (env : Env) (t : Tables) (vaultId : String) :
    Decidable (MeetsPolicy env t vaultId) :=
  inferInstanceAs (Decidable (_ ≠ _))

/-- The envelope a vault had when its backup was marked last. -/
def lastVerified (w : World) (vaultId : String) :
    Option EncryptedVaultEnvelope :=
  (w.verifications.reverse.find? (·.1 = vaultId)).map (·.2)

/-- Readiness reflects what is stored. -/
def Reflects (env : Env) (w : World) : Prop :=
  ∀ userId vaultId s,
    vaultDepositReady w.tables userId vaultId = some s → s.ready = true →
    (∃ r ∈ w.tables.noteVaults.rows, r.isOf userId vaultId = true
      ∧ lastVerified w vaultId = some r.envelope)
    ∧ MeetsPolicy env w.tables vaultId

/-- No backup is verified yet, and the column is the policy of what is
stored. -/
def Unverified (env : Env) (t : Tables) : Prop :=
  ∀ r ∈ t.noteVaults.rows, r.backup_status ≠ .verified
    ∧ r.recovery_policy_status = r.envelope.policy env

instance (env : Env) (t : Tables) : Decidable (Unverified env t) :=
  inferInstanceAs (Decidable (∀ r ∈ t.noteVaults.rows, _ ∧ _))

/-- The envelope, if it is sufficient, is the one verified last. -/
def GivesVerified (w : World) (vaultId : String) (input : VaultInput) :
    Prop :=
  input.recoveryPolicyStatus ≠ .insufficient →
    lastVerified w vaultId = some input.envelope

/-- The statement keeps to the three things: it stores over a
verified vault what was verified, it marks a vault whose wrappers
back its envelope, and it takes from a verified one no wrapper its
policy needs. -/
def Careful (w : World) : Call → Prop
  | .createNoteVault _ _ vaultId input =>
      ∀ r ∈ w.tables.noteVaults.rows, r.vault_id = vaultId →
        r.backup_status = .verified → GivesVerified w vaultId input
  | .updateNoteVault userId vaultId input =>
      ∀ r ∈ w.tables.noteVaults.rows, r.isOf userId vaultId = true →
        r.backup_status = .verified → GivesVerified w vaultId input
  | .setVaultBackupVerified userId vaultId _ =>
      ∀ r ∈ w.tables.noteVaults.rows, r.isOf userId vaultId = true →
        Backs (registered w.tables vaultId) r.envelope.listed
  | .deleteVaultWrapper userId vaultId wrapperId =>
      ∀ r ∈ w.tables.noteVaults.rows, r.vault_id = vaultId →
        r.backup_status = .verified →
        ∀ envelope ∈ lastVerified w vaultId,
          Backs (remaining w.tables userId vaultId wrapperId)
            envelope.listed
  | _ => True

instance (w : World) (vaultId : String) (input : VaultInput) :
    Decidable (GivesVerified w vaultId input) :=
  inferInstanceAs (Decidable (_ → _))

instance (w : World) (q : Call) : Decidable (Careful w q) :=
  match q with
  | .createNoteVault _ _ vaultId input =>
      inferInstanceAs (Decidable (∀ r ∈ w.tables.noteVaults.rows,
        r.vault_id = vaultId → r.backup_status = .verified →
        GivesVerified w vaultId input))
  | .updateNoteVault userId vaultId input =>
      inferInstanceAs (Decidable (∀ r ∈ w.tables.noteVaults.rows,
        r.isOf userId vaultId = true → r.backup_status = .verified →
        GivesVerified w vaultId input))
  | .setVaultBackupVerified userId vaultId _ =>
      inferInstanceAs (Decidable (∀ r ∈ w.tables.noteVaults.rows,
        r.isOf userId vaultId = true →
        Backs (registered w.tables vaultId) r.envelope.listed))
  | .deleteVaultWrapper userId vaultId wrapperId =>
      inferInstanceAs (Decidable (∀ r ∈ w.tables.noteVaults.rows,
        r.vault_id = vaultId → r.backup_status = .verified →
        ∀ envelope ∈ lastVerified w vaultId,
          Backs (remaining w.tables userId vaultId wrapperId)
            envelope.listed))
  | .getNoteVault _ _ | .setVaultRestored _ _ | .vaultDepositReady _ _
  | .addVaultWrapper _ _ _ _ | .syncPrivyWallet _ _ _ | .listWallets _
  | .consumeNonce _ _ _ | .addWallet _ _ _ _ | .deleteWallet _ _
  | .logActivity _ => instDecidableTrue

/-- If the event executes a statement, the statement is careful. -/
def IsCareful (tr : Run.Transition Service ServiceEvent) : Prop :=
  System.Meets (fun _ => True) (fun _ q c w =>
    Statement.Executed (fun _ : Draw => Careful w q) c) tr

instance : DecidablePred IsCareful := fun tr =>
  inferInstanceAs (Decidable (System.Meets (fun _ => True) (fun _ q c w =>
    Statement.Executed (fun _ : Draw => Careful w q) c) tr))

-- ============================================================== invariant

/-- The registered wrappers answer to the envelope that was verified
last, which is stored unless the policy is insufficient. -/
def VerifiedWell (t : Tables) (r : VaultRow)
    (last : Option EncryptedVaultEnvelope) : Prop :=
  ∃ envelope, last = some envelope
    ∧ Backs (registered t r.vault_id) envelope.listed
    ∧ (r.recovery_policy_status ≠ .insufficient → r.envelope = envelope)

/-- The column is the policy of what is stored, and a verified vault was
verified well. -/
def Kept (env : Env) (w : World) : Prop :=
  ∀ r ∈ w.tables.noteVaults.rows,
    r.recovery_policy_status = r.envelope.policy env
      ∧ (r.backup_status = .verified →
        VerifiedWell w.tables r (lastVerified w r.vault_id))

/-- What the careful runs keep is what readiness says. -/
theorem Kept.reflects (h : Kept env w) : Reflects env w := by
  intro userId vaultId s hs hready
  unfold vaultDepositReady at hs
  rw [Option.map_eq_some_iff] at hs
  obtain ⟨r, hr, rfl⟩ := hs
  have hof : r.isOf userId vaultId = true := List.find?_some hr
  have hmem := List.mem_of_find?_eq_some hr
  have hid : r.vault_id = vaultId := by
    have hof := of_decide_eq_true hof
    exact hof.2
  obtain ⟨hverified, hpolicy⟩ := of_decide_eq_true hready
  have hsufficient : r.recovery_policy_status ≠ .insufficient := by
    rcases hpolicy with hpolicy | hpolicy <;> rw [hpolicy] <;> decide
  obtain ⟨hcolumn, hwell⟩ := h r hmem
  obtain ⟨envelope, hlast, hbacks, hstored⟩ := hwell hverified
  obtain rfl := hstored hsufficient
  rw [hid] at hlast hbacks
  rw [hcolumn] at hsufficient
  exact ⟨⟨r, hmem, hof, hlast⟩, hbacks.policy hsufficient⟩

/-- After a statement on vaults: those it changes, and the others. -/
theorem Kept.update {p : VaultRow → Bool} {f : VaultRow → VaultRow}
    {hf : ∀ r, (f r).vault_id = r.vault_id} (h : Kept env w)
    {verifications : List (String × EncryptedVaultEnvelope)}
    (hother : ∀ r ∈ w.tables.noteVaults.rows, p r = false →
      lastVerified ⟨w.tables, verifications⟩ r.vault_id
        = lastVerified w r.vault_id)
    (hcolumn : ∀ r ∈ w.tables.noteVaults.rows, p r = true →
      (f r).recovery_policy_status = (f r).envelope.policy env)
    (hchanged : ∀ r ∈ w.tables.noteVaults.rows, p r = true →
      (f r).backup_status = .verified →
      VerifiedWell w.tables (f r)
        (lastVerified ⟨w.tables, verifications⟩ r.vault_id)) :
    Kept env ⟨w.tables.updateVaults p f hf, verifications⟩ := by
  intro r' hr'
  obtain ⟨r, hr, rfl⟩ := List.mem_map.mp hr'
  by_cases hp : p r = true
  · rw [if_pos hp]
    refine ⟨hcolumn r hr hp, fun hverified => ?_⟩
    rw [hf]
    exact hchanged r hr hp hverified
  · rw [if_neg hp]
    obtain ⟨hpolicy, hwell⟩ := h r hr
    refine ⟨hpolicy, fun hverified => ?_⟩
    have hsame := hother r hr (Bool.eq_false_iff.mpr hp)
    exact hsame.symm ▸ hwell hverified

/-- A statement that stores an envelope in rows of one id. -/
theorem Kept.put {p : VaultRow → Bool} {vaultId : String}
    {input : VaultInput} {now : ℕ} (h : Kept env w)
    (hid : ∀ r, p r = true → r.vault_id = vaultId)
    (hown : input.recoveryPolicyStatus = input.envelope.policy env)
    (hgives : ∀ r ∈ w.tables.noteVaults.rows, p r = true →
      r.backup_status = .verified → GivesVerified w vaultId input) :
    Kept env ⟨w.tables.updateVaults p (·.put input now) fun _ => rfl,
      w.verifications⟩ := by
  refine h.update (fun _ _ _ => rfl) (fun _ _ _ => hown)
    fun r hr hp hverified => ?_
  obtain ⟨envelope, hlast, hbacks, -⟩ := (h r hr).2 hverified
  refine ⟨envelope, hlast, hbacks, fun hpolicy => ?_⟩
  have hgiven := hgives r hr hp hverified hpolicy
  rw [← hid r hp] at hgiven
  exact Option.some.inj (hgiven.symm.trans hlast)

/-- A statement on wrappers, or on neither vaults nor wrappers. -/
theorem Kept.frame {t' : Tables} (h : Kept env w)
    (hvaults : t'.noteVaults = w.tables.noteVaults)
    (hwrappers : ∀ r ∈ w.tables.noteVaults.rows,
      r.backup_status = .verified → ∀ envelope,
      lastVerified w r.vault_id = some envelope →
      Backs (registered w.tables r.vault_id) envelope.listed →
      Backs (registered t' r.vault_id) envelope.listed) :
    Kept env ⟨t', w.verifications ++ []⟩ := by
  intro r hr
  rw [List.append_nil]
  have hr : r ∈ t'.noteVaults.rows := hr
  rw [hvaults] at hr
  obtain ⟨hpolicy, hwell⟩ := h r hr
  refine ⟨hpolicy, fun hverified => ?_⟩
  obtain ⟨envelope, hlast, hbacks, hstored⟩ := hwell hverified
  exact ⟨envelope, hlast, hwrappers r hr hverified envelope hlast hbacks,
    hstored⟩

/-- It depends on vaults and wrappers only. -/
theorem Kept.same {t' : Tables} (h : Kept env w)
    (hvaults : t'.noteVaults = w.tables.noteVaults)
    (hwrappers : t'.wrappers = w.tables.wrappers) :
    Kept env ⟨t', w.verifications ++ []⟩ := by
  refine h.frame hvaults fun r _ _ envelope _ hbacks => ?_
  unfold registered listVaultWrappers at *
  rwa [hwrappers]

-- ============================================================= statements

/-- What a mark adds to what is known of a vault. -/
theorem lastVerified_append {entries : List (String × EncryptedVaultEnvelope)}
    {vaultId : String} :
    lastVerified ⟨t, w.verifications ++ entries⟩ vaultId
      = ((entries.reverse.find? (·.1 = vaultId)).map (·.2)).or
        (lastVerified w vaultId) := by
  unfold lastVerified
  rw [List.reverse_append, List.find?_append]
  cases entries.reverse.find? (·.1 = vaultId) <;> rfl

/-- A vault that is marked was verified last as it is, -/
theorem lastVerified_mark {userId vaultId : String} {r : VaultRow}
    (hr : r ∈ w.tables.noteVaults.rows)
    (hof : r.isOf userId vaultId = true) :
    lastVerified ⟨t, w.verifications
      ++ (w.tables.noteVaults.rows.filter (·.isOf userId vaultId)).map
        fun r => (r.vault_id, r.envelope)⟩ vaultId = some r.envelope := by
  have hid : r.vault_id = vaultId := by
    have hof := of_decide_eq_true hof
    exact hof.2
  rw [lastVerified_append]
  cases hfind : ((w.tables.noteVaults.rows.filter
      (·.isOf userId vaultId)).map fun r =>
        (r.vault_id, r.envelope)).reverse.find? (·.1 = vaultId) with
  | none =>
      have hnone := List.find?_eq_none.mp hfind (r.vault_id, r.envelope)
        (List.mem_reverse.mpr (List.mem_map_of_mem
          (List.mem_filter.mpr ⟨hr, hof⟩)))
      exact absurd (decide_eq_true hid) hnone
  | some entry =>
      -- whatever is found is of the one row with this id
      have hmem := List.mem_reverse.mp (List.mem_of_find?_eq_some hfind)
      obtain ⟨r', hr', rfl⟩ := List.mem_map.mp hmem
      have hid' : r'.vault_id = vaultId := by
        have hfound := List.find?_some hfind
        exact of_decide_eq_true hfound
      have hsame := w.tables.noteVaults.eq_of_clash
        (List.mem_filter.mp hr').1 hr (hid'.trans hid.symm)
      rw [hsame]
      rfl

/-- and the others as they were. -/
theorem lastVerified_other {userId vaultId vaultId' : String}
    (hne : ∀ r ∈ w.tables.noteVaults.rows,
      r.isOf userId vaultId = true → r.vault_id ≠ vaultId') :
    lastVerified ⟨t, w.verifications
      ++ (w.tables.noteVaults.rows.filter (·.isOf userId vaultId)).map
        fun r => (r.vault_id, r.envelope)⟩ vaultId'
      = lastVerified w vaultId' := by
  rw [lastVerified_append, List.find?_eq_none.mpr]
  · rfl
  · intro entry hentry
    obtain ⟨r, hr, rfl⟩ := List.mem_map.mp (List.mem_reverse.mp hentry)
    obtain ⟨hmem, hof⟩ := List.mem_filter.mp hr
    exact fun h => hne r hmem hof (of_decide_eq_true h)

/-- A further wrapper backs what the others back. -/
theorem registered_insert (t t' : Tables) {row : WrapperRow}
    (h : t'.wrappers.rows = t.wrappers.rows ++ [row]) (vaultId : String) :
    Backs (registered t' vaultId) (registered t vaultId) := by
  refine Backs.of_sublist ?_
  unfold registered listVaultWrappers
  rw [h, List.filter_append, List.map_append]
  exact List.sublist_append_left ..

/-- Deleting a wrapper leaves the rest, and those of other vaults. -/
theorem registered_delete {userId vaultId vaultId' wrapperId : String}
    {draw : Draw} :
    registered (performTables draw t
        (.deleteVaultWrapper userId vaultId wrapperId)).1 vaultId'
      = if vaultId' = vaultId then remaining t userId vaultId wrapperId
        else registered t vaultId' := by
  unfold registered remaining listVaultWrappers
  show List.map _ ((t.wrappers.rows.filter _).filter _) = _
  rw [List.filter_filter]
  split
  · rename_i hid
    subst hid
    rw [List.filter_filter]
    congr 1
    refine List.filter_congr fun r _ => ?_
    by_cases hid : r.vault_id = vaultId'
    · simp [hid]
    · simp [hid]
  · rename_i hne
    congr 1
    refine List.filter_congr fun r _ => ?_
    by_cases hid : r.vault_id = vaultId'
    · simp [hid, hne]
    · simp [hid]

/-- A careful statement keeps it. -/
theorem kept_perform (draw : Draw) (hown : q.OwnPolicy env)
    (hq : Careful w q) (h : Kept env w) :
    Kept env (perform draw w q).1 := by
  cases q with
  | createNoteVault userId privyUserId vaultId input =>
      show Kept env ⟨w.tables.createNoteVault userId privyUserId vaultId
        input draw.now, w.verifications ++ []⟩
      rw [List.append_nil]
      unfold Tables.createNoteVault
      split
      · rename_i noteVaults hinsert
        intro r hr
        have hr : r ∈ noteVaults.rows := hr
        rw [(Table.insert_eq_some hinsert).2] at hr
        rcases List.mem_append.mp hr with hr | hr
        · exact h r hr
        · rw [List.mem_singleton.mp hr]
          exact ⟨hown, fun hverified => (by cases hverified)⟩
      · exact h.put (fun r hp => of_decide_eq_true hp) hown
          fun r hr hp => hq r hr (of_decide_eq_true hp)
  | updateNoteVault userId vaultId input =>
      show Kept env ⟨_, w.verifications ++ []⟩
      rw [List.append_nil]
      exact h.put (fun r hof => (of_decide_eq_true hof).2) hown hq
  | setVaultBackupVerified userId vaultId verification =>
      refine h.update (fun r hr hoff => lastVerified_other ?_)
        (fun r hr _ => (h r hr).1) ?_
      · intro r' hr' hof' hid
        rw [w.tables.noteVaults.eq_of_clash hr' hr hid] at hof'
        rw [hof'] at hoff
        cases hoff
      · intro r hr hof _
        obtain rfl := (of_decide_eq_true hof).2
        have hlast := lastVerified_mark (t := w.tables) hr hof
        exact ⟨r.envelope, hlast, hq r hr hof, fun _ => rfl⟩
  | setVaultRestored userId vaultId =>
      show Kept env ⟨_, w.verifications ++ []⟩
      rw [List.append_nil]
      refine h.update (fun _ _ _ => rfl) (fun r hr _ => (h r hr).1)
        fun r hr hof hverified => ?_
      cases hverified
  | addVaultWrapper userId vaultId wrapperType metadata =>
      have hsame : Kept env ⟨w.tables, w.verifications ++ []⟩ :=
        h.same rfl rfl
      simp only [perform, performTables]
      split
      · split
        · rename_i wrappers hinsert
          exact h.frame rfl fun r hr _ envelope _ hbacks =>
            (registered_insert w.tables { w.tables with wrappers }
              (Table.insert_eq_some hinsert).2 r.vault_id).trans hbacks
        · exact hsame
      · exact hsame
  | deleteVaultWrapper userId vaultId wrapperId =>
      refine h.frame rfl fun r hr hverified envelope hlast hbacks => ?_
      show Backs (registered (performTables draw w.tables
        (.deleteVaultWrapper userId vaultId wrapperId)).1 r.vault_id) _
      rw [registered_delete]
      split
      · rename_i hid
        exact hq r hr hid hverified envelope (hid ▸ hlast)
      · exact hbacks
  | syncPrivyWallet userId privyUserId p =>
      simp only [perform, performTables]
      split
      · exact h.same rfl rfl
      · split <;> exact h.same rfl rfl
  | consumeNonce walletType address nonce =>
      simp only [perform, performTables]
      split <;> exact h.same rfl rfl
  | addWallet userId walletType chain address =>
      simp only [perform, performTables]
      split
      · exact h.same rfl rfl
      · split <;> exact h.same rfl rfl
  | _ => exact h.same rfl rfl

-- =============================================================== the runs

/-- The invariant, what a route stores, and what the steps of a careful
run are. -/
def carefully (env : Env) : Discipline Call World Choice where
  Inv := Kept env
  Rely _ _ _ := True
  Pre _ q _ := q.OwnPolicy env
  Allow _ q c w := Statement.Executed (fun _ => Careful w q) c

/-- So do all of them, in a careful run. -/
theorem carefully_lawful (lib : WalletLib) :
    (carefully env).Lawful (vaults env lib).exec where
  refl _ _ := trivial
  trans _ _ _ _ _ _ := trivial
  keeps _ _ _ _ hw hpre hallow :=
    ⟨Statement.exec_keeps hallow hw fun draw h =>
      kept_perform draw hpre h hw, fun _ _ => trivial⟩

/-- In a run that keeps to the three things, a vault that is ready has
the envelope that was verified last, and enough wrappers. -/
theorem ready_reflects (env : Env) (lib : WalletLib) (t : Tables)
    (ht : Unverified env t) (es : List ServiceEvent)
    (hes : ∀ tr ∈ Run.accepted (vaults env lib).step (idle t) es,
      IsCareful tr) :
    Reflects env (Run.run (vaults env lib).step (idle t) es).shared := by
  have hinit : (carefully env).Inv (idle t).shared :=
    fun r hr => ⟨(ht r hr).2, fun hverified =>
      absurd hverified (ht r hr).1⟩
  have hguarded : System.Guarded (vaults env lib) (carefully env)
      (fun _ _ _ => True)
      (Run.run (vaults env lib).step (idle t) es) := by
    refine System.guarded_run (carefully_lawful lib)
      (fun request _ i w _ => .of_uses (fun _ _ _ hq => hq.2)
        (uses_code env lib request)) ?_
      ⟨hinit, fun i request c hi => by cases hi⟩ hes
    intro e w w' ts hw hout
    injection hout with hout
    injection hout with hworld hts
    subst hworld hts
    refine ⟨?_, fun _ => trivial, fun request hrequest => ?_⟩
    · cases e
      exact hw
    · cases hrequest
  exact Kept.reflects hguarded.inv

-- ============================================================== two runs

/-- Alice creates a vault and has its backup verified. -/
def aliceVerifies : List ServiceEvent :=
  [.start (.createVault (some alice) (envelopeOf "vault-a" "did:alice" "a")),
   goWith 0 "2", goWith 0 "3", goWith 0 "4",
   .start (.verifyBackup (some alice) "vault-a"
     ⟨"vault-a", "hash", "hash", "recovery_kit_password", "now"⟩),
   goWith 1 "", goWith 1 "", goWith 1 "", goWith 1 ""]

/-- She uploads another envelope, and deletes the one wrapper. -/
def aliceChanges : List ServiceEvent :=
  [.start (.updateVault (some alice) "vault-a"
     (envelopeOf "vault-a" "did:alice" "other")),
   goWith 2 "",
   .start (.deleteWrapper (some alice) "vault-a" "3"),
   goWith 3 ""]

/-- An active passkey. -/
def passkeyWrapper : VaultWrapper :=
  { kitWrapper with
    type := .passkey_prf
    id := "p" }

/-- An envelope with both wrappers. -/
def twoWrappers : EncryptedVaultEnvelope :=
  { envelopeOf "vault-a" "did:alice" "b" with
    wrappers := [kitWrapper, passkeyWrapper] }

/-- She creates a vault, adds a passkey to it, has the backup verified,
uploads the same envelope twice more, which registers its wrappers once
more, and deletes a wrapper. -/
def aliceKeeps : List ServiceEvent :=
  [.start (.createVault (some alice) (envelopeOf "vault-a" "did:alice" "a")),
   goWith 0 "", goWith 0 "w-1", goWith 0 "",
   .start (.addWrapper (some alice) "vault-a" passkeyWrapper twoWrappers),
   goWith 1 "", goWith 1 "w-2",
   .start (.verifyBackup (some alice) "vault-a"
     ⟨"vault-a", "hash", "hash", "passkey_prf", "now"⟩),
   goWith 2 "", goWith 2 "", goWith 2 "", goWith 2 "",
   .start (.updateVault (some alice) "vault-a" twoWrappers),
   goWith 3 "",
   .start (.createVault (some alice) twoWrappers),
   goWith 4 "", goWith 4 "w-3", goWith 4 "w-4", goWith 4 "",
   .start (.deleteWrapper (some alice) "vault-a" "w-2"),
   goWith 5 ""]

/-- The vault stays ready all along, and is what was verified. -/
theorem ready_reflects_verified :
    let w := (Run.run (vaults testnet noSignatures).step (idle ofBob)
      aliceKeeps).shared
    vaultDepositReady w.tables "alice" "vault-a"
        = some ⟨true, .verified, .strong⟩
      ∧ lastVerified w "vault-a" = some twoWrappers
      ∧ Reflects testnet w :=
  ⟨rfl, rfl, ready_reflects testnet noSignatures ofBob (by decide)
    aliceKeeps (by decide)⟩

/-- Then the vault is ready, with an envelope that nobody verified and
without a wrapper. -/
theorem ready_unverified :
    let w := (Run.run (vaults testnet noSignatures).step (idle ofBob)
      (aliceVerifies ++ aliceChanges)).shared
    vaultDepositReady w.tables "alice" "vault-a"
        = some ⟨true, .verified, .sufficient⟩
      ∧ lastVerified w "vault-a"
        = some (envelopeOf "vault-a" "did:alice" "a")
      ∧ (w.tables.noteVaults.rows.filter (·.isOf "alice" "vault-a")).map
          (·.envelope) = [envelopeOf "vault-a" "did:alice" "other"]
      ∧ registered w.tables "vault-a" = []
      ∧ ¬MeetsPolicy testnet w.tables "vault-a" :=
  ⟨rfl, rfl, rfl, rfl, by decide⟩

end Lumix.Services.Vaults
