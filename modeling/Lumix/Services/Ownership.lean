/-
What the requests of others leave alone.

Every statement of these routes names the user it is made for, and most
of them look for rows of that user. The two upserts and the insertion of
a wallet look for a key instead that the client chose: the id of a
vault, the type and address of a wallet. Where such a key is of no row
of somebody else, the rows of a user stay as they are through every
request of the others (`others_untouched`); where it is, the row is
rewritten, and a synced wallet changes hands (`taken_over`).
-/
import Lumix.Services.Vaults

namespace Lumix.Services.Vaults

variable {t t' : Tables} {w : World} {q : Call} {b : String}

-- ========================================================= what is asked

/-- The rows of a user are the same, column for column. -/
structure Untouched (b : String) (t t' : Tables) : Prop where
  vaults : t'.noteVaults.rows.filter (·.user_id = b)
    = t.noteVaults.rows.filter (·.user_id = b)
  wallets : t'.wallets.rows.filter (·.user_id = b)
    = t.wallets.rows.filter (·.user_id = b)

/-- The user a statement is made for. -/
def Call.userId : Call → Option String
  | .createNoteVault userId _ _ _ => some userId
  | .getNoteVault userId _ => some userId
  | .updateNoteVault userId _ _ => some userId
  | .setVaultBackupVerified userId _ _ => some userId
  | .setVaultRestored userId _ => some userId
  | .vaultDepositReady userId _ => some userId
  | .addVaultWrapper userId _ _ _ => some userId
  | .deleteVaultWrapper userId _ _ => some userId
  | .syncPrivyWallet userId _ _ => some userId
  | .listWallets userId => some userId
  | .consumeNonce _ _ _ => none
  | .addWallet userId _ _ _ => some userId
  | .deleteWallet userId _ => some userId
  | .logActivity userId => some userId

/-- The key of an insertion is of no row of another user; the insertion
of a wallet may name one whose chain is as it would be written. -/
def Unclaimed (t : Tables) : Call → Prop
  | .createNoteVault userId _ vaultId _ => ∀ r ∈ t.noteVaults.rows,
      r.vault_id = vaultId → r.user_id = userId
  | .syncPrivyWallet userId _ p => ∀ r ∈ t.wallets.rows,
      r.is p.wallet_type p.address = true → r.user_id = userId
  | .addWallet userId walletType chain address => ∀ r ∈ t.wallets.rows,
      r.is walletType address = true → r.user_id = userId ∨ r.chain = chain
  | _ => True

instance (t : Tables) (q : Call) : Decidable (Unclaimed t q) := by
  unfold Unclaimed
  split <;> infer_instance

/-- The statements that are executed claim nobody else's row. -/
def ClaimsOwn (tr : Run.Transition Service ServiceEvent) : Prop :=
  System.Meets (fun _ => True) (fun _ q c w =>
    Statement.Executed (fun _ : Draw => Unclaimed w.tables q) c) tr

instance : DecidablePred ClaimsOwn := fun tr =>
  inferInstanceAs (Decidable (System.Meets (fun _ => True) (fun _ q c w =>
    Statement.Executed (fun _ : Draw => Unclaimed w.tables q) c) tr))

-- ========================================================= one statement

namespace Untouched

/-- Tables nobody touched. -/
theorem refl (b : String) (t : Tables) : Untouched b t t := ⟨rfl, rfl⟩

/-- Untouched over two stretches, untouched over both. -/
theorem trans {t₁ t₂ t₃ : Tables} (h : Untouched b t₁ t₂)
    (h' : Untouched b t₂ t₃) : Untouched b t₁ t₃ :=
  ⟨h'.vaults.trans h.vaults, h'.wallets.trans h.wallets⟩

end Untouched

/-- Rewriting rows that `p` does not select, into such rows, leaves the
selection as it is. -/
theorem filter_map_of_off {α : Type} {p : α → Bool} {f : α → α}
    {rows : List α}
    (h : ∀ r ∈ rows, f r = r ∨ (p r = false ∧ p (f r) = false)) :
    (rows.map f).filter p = rows.filter p := by
  induction rows with
  | nil => rfl
  | cons r rows ih =>
      have ih := ih fun r' hr' => h r' (List.mem_cons_of_mem _ hr')
      rw [List.map_cons, List.filter_cons, List.filter_cons, ih]
      rcases h r List.mem_cons_self with hsame | ⟨hoff, hoff'⟩
      · rw [hsame]
      · rw [hoff, hoff']
        rfl

/-- An update of vaults of other users. -/
theorem untouched_updateVaults {p : VaultRow → Bool}
    {f : VaultRow → VaultRow} {hf : ∀ r, (f r).vault_id = r.vault_id}
    (huser : ∀ r, (f r).user_id = r.user_id)
    (h : ∀ r ∈ t.noteVaults.rows, p r = true → r.user_id ≠ b) :
    Untouched b t (t.updateVaults p f hf) := by
  refine ⟨filter_map_of_off fun r hr => ?_, rfl⟩
  by_cases hp : p r = true
  · have hne := h r hr hp
    rw [if_pos hp, huser]
    exact .inr ⟨decide_eq_false hne, decide_eq_false hne⟩
  · rw [if_neg hp]
    exact .inl rfl

/-- An update of wallets of other users, to other users. -/
theorem untouched_updateWallets {p : WalletRow → Bool}
    {f : WalletRow → WalletRow}
    {hf : ∀ r, (f r).id = r.id ∧ (f r).wallet_type = r.wallet_type
      ∧ (f r).address = r.address}
    (h : ∀ r ∈ t.wallets.rows, p r = true →
      f r = r ∨ (r.user_id ≠ b ∧ (f r).user_id ≠ b)) :
    Untouched b t (t.updateWallets p f hf) := by
  refine ⟨rfl, filter_map_of_off fun r hr => ?_⟩
  by_cases hp : p r = true
  · rw [if_pos hp]
    exact (h r hr hp).imp id fun hne =>
      ⟨decide_eq_false hne.1, decide_eq_false hne.2⟩
  · rw [if_neg hp]
    exact .inl rfl

/-- A row of another user goes in beside. -/
theorem filter_insert {α : Type} {Clash : α → α → Prop}
    [DecidableRel Clash] {rows rows' : Table α Clash} {row : α}
    {p : α → Bool} (h : rows.insert row = some rows')
    (hrow : p row = false) : rows'.rows.filter p = rows.rows.filter p := by
  rw [(Table.insert_eq_some h).2, List.filter_append,
    List.filter_singleton, hrow, cond_false, List.append_nil]

/-- A wallet added for another user. -/
theorem untouched_wallet {row : WalletRow}
    {wallets : Table WalletRow WalletRow.Clash}
    (h : t.wallets.insert row = some wallets) (hne : row.user_id ≠ b) :
    Untouched b t { t with wallets } :=
  ⟨rfl, filter_insert h (decide_eq_false hne)⟩

/-- A vault stored for another user under an id that is free or
theirs. -/
theorem untouched_createNoteVault {userId privyUserId vaultId : String}
    {input : VaultInput} {now : ℕ} (hne : userId ≠ b)
    (h : Unclaimed t (.createNoteVault userId privyUserId vaultId input)) :
    Untouched b t
      (t.createNoteVault userId privyUserId vaultId input now) := by
  unfold Tables.createNoteVault
  split
  · rename_i noteVaults hinsert
    exact ⟨filter_insert hinsert (decide_eq_false hne), rfl⟩
  · refine untouched_updateVaults (fun _ => rfl) fun r hr hid => ?_
    have hid : r.vault_id = vaultId := of_decide_eq_true hid
    rw [h r hr hid]
    exact hne

/-- A statement on a vault of its own user. -/
theorem untouched_isOf {userId vaultId : String} {f : VaultRow → VaultRow}
    {hf : ∀ r, (f r).vault_id = r.vault_id}
    (huser : ∀ r, (f r).user_id = r.user_id) (hne : userId ≠ b) :
    Untouched b t (t.updateVaults (·.isOf userId vaultId) f hf) := by
  refine untouched_updateVaults huser fun r _ his => ?_
  have his := of_decide_eq_true his
  rw [his.1]
  exact hne

/-- What a statement for another user does to the tables. -/
theorem untouched_perform (draw : Draw) (hq : q.userId ≠ some b)
    (h : Unclaimed t q) : Untouched b t (performTables draw t q).1 := by
  cases q with
  | createNoteVault userId privyUserId vaultId input =>
      exact untouched_createNoteVault (fun he => hq (congrArg some he)) h
  | updateNoteVault userId vaultId input =>
      apply untouched_isOf
      · exact fun _ => rfl
      · exact fun _ => rfl
      · exact fun he => hq (congrArg some he)
  | setVaultBackupVerified userId vaultId verification =>
      apply untouched_isOf
      · exact fun _ => rfl
      · exact fun _ => rfl
      · exact fun he => hq (congrArg some he)
  | setVaultRestored userId vaultId =>
      apply untouched_isOf
      · exact fun _ => rfl
      · exact fun _ => rfl
      · exact fun he => hq (congrArg some he)
  | addVaultWrapper userId vaultId wrapperType metadata =>
      simp only [performTables]
      split
      · split <;> exact ⟨rfl, rfl⟩
      · exact .refl b t
  | syncPrivyWallet userId privyUserId p =>
      have hne : userId ≠ b := fun he => hq (congrArg some he)
      simp only [performTables]
      split
      · apply untouched_updateWallets
        · exact fun _ => ⟨rfl, rfl, rfl⟩
        · refine fun r hr his => .inr ⟨?_, hne⟩
          rw [h r hr his]
          exact hne
      · split
        · exact untouched_wallet ‹_› hne
        · exact .refl b t
  | consumeNonce walletType address nonce =>
      simp only [performTables]
      split <;> exact ⟨rfl, rfl⟩
  | addWallet userId walletType chain address =>
      have hne : userId ≠ b := fun he => hq (congrArg some he)
      simp only [performTables]
      split
      · apply untouched_updateWallets
        · exact fun _ => ⟨rfl, rfl, rfl⟩
        · intro r hr his
          rcases h r hr his with huser | hchain
          · refine .inr ⟨?_, ?_⟩ <;> exact huser ▸ hne
          · rw [← hchain]
            exact .inl rfl
      · split
        · exact untouched_wallet ‹_› hne
        · exact .refl b t
  | deleteWallet userId walletId =>
      have hne : userId ≠ b := fun he => hq (congrArg some he)
      refine ⟨rfl, ?_⟩
      show (t.wallets.rows.filter _).filter _ = _
      rw [List.filter_filter]
      refine List.filter_congr fun r _ => ?_
      by_cases huser : r.user_id = b
      · simp [huser, Ne.symm hne]
      · simp [huser]
  | deleteVaultWrapper userId vaultId wrapperId => exact ⟨rfl, rfl⟩
  | _ => exact .refl b t

-- ============================================================== requests

/-- What the others may count on is nothing; the rows of `b` are as they
were in `t`. -/
def apart (b : String) (t : Tables) : Discipline Call World Choice where
  Inv w := Untouched b t w.tables
  Rely _ _ _ := True
  Pre _ q _ := q.userId ≠ some b
  Allow _ q c w := Statement.Executed (fun _ => Unclaimed w.tables q) c

/-- Every statement of other users keeps a user's rows apart, as long as
the ids they store are unclaimed. -/
theorem apart_lawful (env : Env) (lib : WalletLib) :
    (apart b t).Lawful (vaults env lib).exec where
  refl _ _ := trivial
  trans _ _ _ _ _ _ := trivial
  keeps _ _ _ _ hw hpre hallow :=
    ⟨Statement.exec_keeps (R := fun w' : World => Untouched b t w'.tables) hallow hw
      fun draw h => hw.trans (untouched_perform draw hpre h),
      fun _ _ => trivial⟩

/-- An envelope is stored with the policy of its own wrappers. -/
def Call.OwnPolicy (env : Env) : Call → Prop
  | .createNoteVault _ _ _ input | .updateNoteVault _ _ input =>
      input.recoveryPolicyStatus = input.envelope.policy env
  | _ => True

/-- A request makes its statements for its user, and what policy it
stores it has evaluated. -/
theorem uses_code (env : Env) (lib : WalletLib) (request : Request) :
    (request.code env lib).Uses fun q =>
      (∀ u ∈ q.userId, ∃ a ∈ request.auth, a.userId = u)
        ∧ q.OwnPolicy env := by
  have hown {auth : Option Auth} {a : Auth}
      (h : requirePrivyUser auth = .ok a) : ∃ a' ∈ auth, a'.userId = a.userId :=
    ⟨a, Exec.orPanic_eq_ok.mp h, rfl⟩
  have hcall {auth : Option Auth} {a : Auth} {q : Call}
      (h : requirePrivyUser auth = .ok a) (hq : q.userId = some a.userId) :
      ∀ u ∈ q.userId, ∃ a' ∈ auth, a'.userId = u := by
    intro u hu
    rw [hq] at hu
    injection hu with hu
    exact hu ▸ hown h
  cases request with
  | createVault auth envelope =>
      refine Prog.uses_ofExcept_bind fun a ha => ?_
      refine (Prog.uses_ofExcept _).bind fun _ => ?_
      refine (Prog.uses_query ⟨hcall ha rfl, rfl⟩).bind fun _ => ?_
      refine (Prog.Uses.forM fun _ _ => ?_).bind fun _ => ?_
      · exact (Prog.uses_query ⟨hcall ha rfl, trivial⟩).bind fun _ => trivial
      · exact (Prog.uses_query ⟨hcall ha rfl, trivial⟩).bind fun _ => trivial
  | updateVault auth vaultId envelope =>
      refine Prog.uses_ofExcept_bind fun a ha => ?_
      refine (Prog.uses_ofExcept _).bind fun _ => ?_
      refine (Prog.uses_query ⟨hcall ha rfl, rfl⟩).bind fun _ => ?_
      exact (Prog.uses_ofExcept _).bind fun _ => trivial
  | verifyBackup auth vaultId verification =>
      refine Prog.uses_ofExcept_bind fun a ha => ?_
      refine (Prog.uses_ofExcept _).bind fun _ => ?_
      refine (Prog.uses_query ⟨hcall ha rfl, trivial⟩).bind fun _ => ?_
      refine (Prog.uses_ofExcept _).bind fun _ => ?_
      refine (Prog.uses_query ⟨hcall ha rfl, trivial⟩).bind fun _ => ?_
      refine (Prog.uses_query ⟨hcall ha rfl, trivial⟩).bind fun _ => ?_
      exact (Prog.uses_query ⟨hcall ha rfl, trivial⟩).bind fun _ => trivial
  | markRestored auth vaultId =>
      refine Prog.uses_ofExcept_bind fun a ha => ?_
      refine (Prog.uses_query ⟨hcall ha rfl, trivial⟩).bind fun _ => ?_
      refine (Prog.uses_ofExcept _).bind fun _ => ?_
      exact (Prog.uses_query ⟨hcall ha rfl, trivial⟩).bind fun _ => trivial
  | addWrapper auth vaultId wrapper envelope =>
      refine Prog.uses_ofExcept_bind fun a ha => ?_
      refine (Prog.uses_ofExcept _).bind fun _ => ?_
      refine (Prog.uses_query ⟨hcall ha rfl, rfl⟩).bind fun _ => ?_
      exact (Prog.uses_query ⟨hcall ha rfl, trivial⟩).bind fun _ => trivial
  | deleteWrapper auth vaultId wrapperId =>
      refine Prog.uses_ofExcept_bind fun a ha => ?_
      refine (Prog.uses_query ⟨hcall ha rfl, trivial⟩).bind fun _ => ?_
      exact (Prog.uses_ofExcept _).bind fun _ => trivial
  | syncPrivy auth wallets =>
      refine Prog.uses_ofExcept_bind fun a ha => ?_
      refine (Prog.Uses.forM fun _ _ =>
        Prog.uses_query ⟨hcall ha rfl, trivial⟩).bind fun _ => ?_
      refine (Prog.uses_query ⟨hcall ha rfl, trivial⟩).bind fun _ => ?_
      exact (Prog.uses_query ⟨hcall ha rfl, trivial⟩).bind fun _ => trivial
  | addWallet auth body =>
      refine Prog.uses_ofExcept_bind fun userId huser => ?_
      obtain ⟨a, ha, rfl⟩ := Exec.map_eq_ok.mp huser
      refine (Prog.uses_ofExcept _).bind fun address => ?_
      refine (Prog.uses_query ⟨fun u hu => (by cases hu), trivial⟩).bind fun _ => ?_
      refine (Prog.uses_ofExcept _).bind fun _ => ?_
      refine (Prog.uses_query ⟨hcall ha rfl, trivial⟩).bind fun _ => ?_
      exact (Prog.uses_query ⟨hcall ha rfl, trivial⟩).bind fun _ => trivial
  | deleteWallet auth walletId =>
      refine Prog.uses_ofExcept_bind fun userId huser => ?_
      obtain ⟨a, ha, rfl⟩ := Exec.map_eq_ok.mp huser
      refine (Prog.uses_query ⟨hcall ha rfl, trivial⟩).bind fun _ => ?_
      exact (Prog.uses_ofExcept _).bind fun _ => trivial

/-- Where no statement claims a row of somebody else, the rows of a user
stay as they are through any requests of the others. -/
theorem others_untouched (env : Env) (lib : WalletLib) (b : String)
    (t : Tables) (es : List ServiceEvent)
    (hother : ∀ request, MachineEvent.start request ∈ es →
      ∀ a ∈ request.auth, a.userId ≠ b)
    (hes : ∀ tr ∈ Run.accepted (vaults env lib).step (idle t) es,
      ClaimsOwn tr) :
    Untouched b t
      (Run.run (vaults env lib).step (idle t) es).shared.tables := by
  have hmeets := System.meets_of_started
    (fun e he request hrequest => hother request (hrequest ▸ he)) hes
  have hstart : ∀ request, (∀ a ∈ request.auth, a.userId ≠ b) →
      ∀ (i : ℕ) (w : World), (apart b t).Inv w →
        (apart b t).Safe (vaults env lib).exec i (fun _ _ => True)
          ((vaults env lib).code request) w := by
    intro request hrequest i w _
    refine .of_uses (fun _ q _ hq => ?_) (uses_code env lib request)
    intro hb
    obtain ⟨a, ha, hid⟩ := hq.1 b hb
    exact hrequest a ha hid
  have hinit : (apart b t).Inv (idle t).shared := Untouched.refl b t
  have hguarded : System.Guarded (vaults env lib) (apart b t)
      (fun _ _ _ => True)
      (Run.run (vaults env lib).step (idle t) es) := by
    refine System.guarded_run (apart_lawful env lib) hstart ?_
      ⟨hinit, fun i request c hi => by cases hi⟩ hmeets
    intro e w w' ts hw hout
    injection hout with hout
    injection hout with hworld hts
    subst hworld hts
    refine ⟨?_, fun _ => trivial, fun request hrequest => ?_⟩
    · cases e
      exact ⟨hw.vaults, hw.wallets⟩
    · cases hrequest
  exact hguarded.inv

-- ============================================================== two runs

/-- No variable is set. -/
def testnet : Env := ⟨none, none, none, none⟩

/-- Addresses stand as they are, and no signature is right. -/
def noSignatures : WalletLib where
  getAddress := .ok
  verifyWalletSignature _ _ _ _ := false

/-- The address of one user, -/
def bobAddress : String := "0x" ++ String.ofList (List.replicate 40 'b')

/-- and of the other. -/
def aliceAddress : String := "0x" ++ String.ofList (List.replicate 40 'a')

/-- An active recovery kit. -/
def kitWrapper : VaultWrapper where
  type := .recovery_kit_password
  status := .active
  diagnostic_only := none
  id := "w"
  metadata := "metadata"
  rest := ""

/-- An envelope with that one wrapper. -/
def envelopeOf (vaultId privyUserId ciphertext : String) :
    EncryptedVaultEnvelope :=
  ⟨vaultId, privyUserId, "iv", "aad", ciphertext, [kitWrapper]⟩

/-- An EVM wallet of an address. -/
def evmWallet (address : String) : PrivyWallet :=
  ⟨.EVM, none, "arbitrum-sepolia", address, none⟩

/-- Bob has a vault and a wallet. -/
def ofBob : Tables where
  noteVaults := ⟨[newVault "bob" "did:bob" "vault-b"
    (vaultInput testnet (envelopeOf "vault-b" "did:bob" "b")) 0],
    List.pairwise_singleton ..⟩
  wrappers := .empty
  wallets := ⟨[syncedWallet "bob" "did:bob" (evmWallet bobAddress)
    ⟨0, "1", 0⟩], List.pairwise_singleton ..⟩
  nonces := []

/-- The other user, signed in. -/
def alice : Auth := ⟨"alice", "did:alice"⟩

/-- The request goes on, and draws this id. -/
def goWith (pid : ℕ) (uuid : String) : ServiceEvent :=
  .run pid (.go ⟨1, uuid, 0⟩)

/-- Alice creates a vault and syncs a wallet. -/
def aliceStores (vaultId address : String) : List ServiceEvent :=
  [.start (.createVault (some alice) (envelopeOf vaultId "did:alice" "a")),
   goWith 0 "2", goWith 0 "3", goWith 0 "4",
   .start (.syncPrivy (some alice) [evmWallet address]),
   goWith 1 "5", goWith 1 "6", goWith 1 "7"]

/-- Every request of hers is hers. -/
theorem started_aliceStores {vaultId address : String} {request : Request}
    (h : MachineEvent.start request ∈ aliceStores vaultId address) :
    request.auth = some alice := by
  simp [aliceStores, goWith] at h
  rcases h with rfl | rfl <;> rfl

/-- What she stores under an id of her own leaves his rows as they
are. -/
theorem others_untouched_aside :
    Untouched "bob" ofBob (Run.run (vaults testnet noSignatures).step
      (idle ofBob) (aliceStores "vault-a" aliceAddress)).shared.tables := by
  refine others_untouched testnet noSignatures "bob" ofBob
    (aliceStores "vault-a" aliceAddress) ?_ ?_
  · intro request hrequest a ha
    rw [started_aliceStores hrequest] at ha
    injection ha with ha
    subst ha
    decide
  · decide

/-- With the id of Bob's vault and the address of his wallet, Alice
overwrites his envelope and takes his wallet. -/
theorem taken_over :
    let t := (Run.run (vaults testnet noSignatures).step (idle ofBob)
      (aliceStores "vault-b" bobAddress)).shared.tables
    (∀ request, MachineEvent.start request
        ∈ aliceStores "vault-b" bobAddress → request.auth = some alice)
      ∧ t.noteVaults.rows.map (fun r => (r.user_id, r.ciphertext))
        = [("bob", "a")]
      ∧ t.wallets.rows.map (fun r => (r.user_id, r.address))
        = [("alice", bobAddress)]
      ∧ ¬Untouched "bob" ofBob t := by
  refine ⟨fun _ => started_aliceStores, rfl, rfl, fun h => ?_⟩
  have hwallets := h.wallets
  revert hwallets
  decide

end Lumix.Services.Vaults
