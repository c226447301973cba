/-
What a burn job stands for.

However requests interleave, statements fail and processes die: a job of
the relayer for a user's burn is of one deposit, and no two are of the
same. The deposit was prepared by a request of the user who submitted the
burn, at whose time the wallet and the vault were his, and it still has
the terms of that request (`burn_jobs_prepared`). What the relayer then
takes for the burn is the transaction that the user was given to sign,
from his wallet, save for the fee (`user_burn_accepted`).
-/
import Lumix.Lib.Numbered
import Lumix.Lib.Traces
import Lumix.Services.Retries
import Lumix.Services.UserDeposits

namespace Lumix.Services.UserDeposits

open Text Vaults
open Inbound (EnvMap Libraries)

-- ============================================================ what is kept

/-- Only the burn and the state of a deposit change. -/
def DepositRow.Same (a b : DepositRow) : Prop :=
  b = { a with source_tx_hash := b.source_tx_hash, state := b.state }

/-- The same terms as a row with the same terms. -/
theorem DepositRow.Same.trans {a b c : DepositRow} (h : a.Same b)
    (h' : b.Same c) : a.Same c := by
  unfold DepositRow.Same at h h' ⊢
  rw [h', h]

/-- A payload is of the terms that stay. -/
theorem DepositRow.Same.payload {a b : DepositRow} (h : a.Same b)
    (body : BurnBody) : burnPayload b body = burnPayload a body := by
  rw [h]
  rfl

/-- No deposit loses its terms and no job is lost. -/
structure Kept (t t' : Tables) : Prop where
  deposits : ∀ d ∈ t.deposits.rows, ∃ d' ∈ t'.deposits.rows, d.Same d'
  jobs : ∀ job ∈ t.jobs.rows, job ∈ t'.jobs.rows

/-- Tables nobody touched. -/
theorem Kept.refl (t : Tables) : Kept t t :=
  ⟨fun d hd => ⟨d, hd, rfl⟩, fun _ hjob => hjob⟩

/-- Kept over two stretches, kept over both. -/
theorem Kept.trans {t₁ t₂ t₃ : Tables} (h : Kept t₁ t₂)
    (h' : Kept t₂ t₃) : Kept t₁ t₃ where
  deposits d hd := by
    obtain ⟨d', hd', hsame⟩ := h.deposits d hd
    obtain ⟨d'', hd'', hsame'⟩ := h'.deposits d' hd'
    exact ⟨d'', hd'', hsame.trans hsame'⟩
  jobs job hjob := h'.jobs job (h.jobs job hjob)

/-- Everything a statement does to the tables. -/
inductive TablesMoved (draw : Draw) (t : Tables) : Query → Tables → Prop
  | same (q : Query) : TablesMoved draw t q t
  | stored {row : DepositRow} {deposits : Table DepositRow DepositRow.Clash}
      (hrows : deposits.rows = t.deposits.rows ++ [row]) :
      TablesMoved draw t (.createUserDeposit row) { t with deposits }
  | burned (depositId burnTxHash : String) :
      TablesMoved draw t (.setDepositBurnTx depositId burnTxHash)
        (t.setDepositBurnTx depositId burnTxHash)
  | queued {jobType key : String} {payload : JobPayload}
      {jobs : Table JobRow JobRow.Clash}
      (hrows : jobs.rows = t.jobs.rows ++ [newJob jobType payload key draw]) :
      TablesMoved draw t (.insertJob jobType payload key) { t with jobs }

/-- What a statement does to the tables. -/
theorem tables_moved (draw : Draw) (t : Tables) (q : Query) :
    TablesMoved draw t q (performTables draw t q).1 := by
  cases q with
  | createUserDeposit row =>
      simp only [performTables, Tables.createUserDeposit]
      split
      · exact .same _
      · split
        · exact .same _
        · split
          · rename_i deposits hinsert
            exact .stored (Table.insert_eq_some hinsert).2
          · exact .same _
  | setDepositBurnTx depositId burnTxHash => exact .burned _ _
  | insertJob jobType payload key =>
      simp only [performTables]
      split
      · rename_i jobs hinsert
        exact .queued (Table.insert_eq_some hinsert).2
      · exact .same _
  | _ => exact .same _

/-- Recording a burn leaves the terms as they are. -/
theorem DepositRow.same_burned (depositId burnTxHash : String)
    (d : DepositRow) : d.Same (d.burned depositId burnTxHash) := by
  unfold DepositRow.Same DepositRow.burned
  split <;> rfl

/-- No statement takes a term of a deposit, or a job, away. -/
theorem TablesMoved.kept {draw : Draw} {t t' : Tables} {q : Query}
    (h : TablesMoved draw t q t') : Kept t t' := by
  cases h with
  | same => exact Kept.refl t
  | stored hrows =>
      refine ⟨fun d hd => ⟨d, ?_, rfl⟩, fun _ hjob => hjob⟩
      rw [hrows]
      exact List.mem_append_left _ hd
  | burned depositId burnTxHash =>
      exact ⟨fun d hd => ⟨_, List.mem_map_of_mem hd,
        d.same_burned depositId burnTxHash⟩, fun _ hjob => hjob⟩
  | queued hrows =>
      refine ⟨fun d hd => ⟨d, hd, rfl⟩, fun job hjob => ?_⟩
      rw [hrows]
      exact List.mem_append_left _ hjob

-- =============================================================== the jobs

variable (lib : Libraries) (env : EnvMap) (sha256Hex : String → String)

/-- The request has passed the checks, and asks for this deposit. -/
def Prepares (request : Request) (seen : List Sight) (d : DepositRow) :
    Prop :=
  ∃ auth idempotencyKey body burn,
    request = .prepare (some auth) idempotencyKey body
      ∧ d = preparedRow env sha256Hex auth.userId idempotencyKey body
      ∧ body.source_chain = "arbitrum-sepolia" ∧ 0 < body.amount_usdc_6dp
      ∧ burnTxRequest lib (settings env) body.amount_usdc_6dp = .ok burn
      ∧ Sight.wallet auth.userId body.source_wallet_address ∈ seen
      ∧ Sight.vault auth.userId body.vault_id ∈ seen

/-- The request submits a burn for the deposit. -/
def Submits (request : Request) (d : DepositRow) (payload : JobPayload)
    (key : String) : Prop :=
  ∃ auth body, request = .burnSubmitted (some auth) d.deposit_id body
    ∧ auth.userId = d.user_id
    ∧ Inbound.toLowerCase d.source_wallet_address
      = Inbound.toLowerCase body.source_wallet_address
    ∧ payload = .userBurn (burnPayload d body)
    ∧ key = burnKey d.deposit_id

/-- Each deposit has the terms of a prepare request for which all was in
order, each user-burn job was submitted by a request for a deposit in
the table, and no other job has such a job's key. -/
structure Inv (w : World) : Prop where
  prepared : ∀ d ∈ w.tables.deposits.rows, ∃ x ∈ w.callers, ∃ d₀,
    DepositRow.Same d₀ d ∧ Prepares lib env sha256Hex x.2 w.seen d₀
  submitted : ∀ job ∈ w.tables.jobs.rows, job.job_type = USER_BURN →
    job.queue = .relayer ∧ ∃ x ∈ w.callers, ∃ d ∈ w.tables.deposits.rows,
      ∃ key, job.idempotency_key = some key
        ∧ Submits x.2 d job.payload key
  keyed : ∀ job ∈ w.tables.jobs.rows, ∀ depositId,
    job.idempotency_key = some (burnKey depositId) →
      job.job_type = USER_BURN

/-- The traces grow, and what is stored stays. -/
structure Rely (w w' : World) : Prop where
  seen : w.seen ⊆ w'.seen
  callers : w.callers ⊆ w'.callers
  kept : Kept w.tables w'.tables

/-- What a process knows before a statement. -/
def Pre (q : Call) (w : World) : Prop :=
  match q.query with
  | .createUserDeposit row => Prepares lib env sha256Hex q.request w.seen row
  | .insertJob jobType payload key => jobType = USER_BURN
      ∧ ∃ d ∈ w.tables.deposits.rows, Submits q.request d payload key
  | _ => True

/-- What the requests promise each other: each keeps `Inv` and takes
nothing away. -/
def discipline : Discipline Call World Choice where
  Inv := Inv lib env sha256Hex
  Rely _ := Rely
  Pre _ := Pre lib env sha256Hex
  Allow _ _ _ _ := True

variable {lib env sha256Hex} {w w' : World} {i : ℕ}

/-- A world in which nothing happened. -/
theorem Rely.refl (w : World) : Rely w w :=
  ⟨List.Subset.refl _, List.Subset.refl _, Kept.refl _⟩

/-- What two stretches add, they add one after the other. -/
theorem Rely.trans {w₁ w₂ w₃ : World} (h : Rely w₁ w₂)
    (h' : Rely w₂ w₃) : Rely w₁ w₃ where
  seen _ ho := h'.seen (h.seen ho)
  callers _ hx := h'.callers (h.callers hx)
  kept := h.kept.trans h'.kept

/-- What was seen once stays seen. -/
theorem Prepares.mono {request : Request} {seen seen' : List Sight}
    {d : DepositRow} (h : Prepares lib env sha256Hex request seen d)
    (hseen : seen ⊆ seen') : Prepares lib env sha256Hex request seen' d := by
  obtain ⟨auth, key, body, burn, hrequest, hd, hchain, hpos, hburn, hwallet,
    hvault⟩ := h
  exact ⟨auth, key, body, burn, hrequest, hd, hchain, hpos, hburn,
    hseen hwallet, hseen hvault⟩

/-- The job depends on the terms of its deposit only. -/
theorem Submits.same {request : Request} {d d' : DepositRow}
    {payload : JobPayload} {key : String}
    (h : Submits request d payload key) (hsame : d.Same d') :
    Submits request d' payload key := by
  obtain ⟨auth, body, hrequest, huser, hwallet, hpayload, hkey⟩ := h
  have hpay := hsame.payload body
  unfold DepositRow.Same at hsame
  refine ⟨auth, body, ?_, ?_, ?_, hpay ▸ hpayload, ?_⟩
  · rw [hsame]
    exact hrequest
  · rw [hsame]
    exact huser
  · rw [hsame]
    exact hwallet
  · rw [hsame]
    exact hkey

/-- What is kept where no row is new. -/
theorem Inv.keep (h : Inv lib env sha256Hex w) (hrely : Rely w w')
    (hdeposits : ∀ d' ∈ w'.tables.deposits.rows,
      ∃ d ∈ w.tables.deposits.rows, d.Same d')
    (hjobs : w'.tables.jobs.rows = w.tables.jobs.rows) :
    Inv lib env sha256Hex w' where
  prepared d' hd' := by
    obtain ⟨d, hd, hsame⟩ := hdeposits d' hd'
    obtain ⟨x, hx, d₀, hsame₀, hprepares⟩ := h.prepared d hd
    exact ⟨x, hrely.callers hx, d₀, hsame₀.trans hsame,
      hprepares.mono hrely.seen⟩
  submitted job hjob htype := by
    rw [hjobs] at hjob
    obtain ⟨hqueue, x, hx, d, hd, key, hkey, hsubmits⟩ :=
      h.submitted job hjob htype
    obtain ⟨d', hd', hsame⟩ := hrely.kept.deposits d hd
    exact ⟨hqueue, x, hrely.callers hx, d', hd', key, hkey,
      hsubmits.same hsame⟩
  keyed job hjob := h.keyed job (hjobs ▸ hjob)

/-- A statement adds what it saw and who made it, and takes nothing
away. -/
theorem rely_perform (i : ℕ) (draw : Draw) (w : World) (q : Call) :
    Rely w (perform i draw w q).1 where
  seen := List.subset_append_left ..
  callers := List.subset_append_left ..
  kept := (tables_moved draw w.tables q.query).kept

/-- What one statement keeps. -/
theorem inv_perform (h : Inv lib env sha256Hex w) (draw : Draw) (q : Call)
    (hpre : Pre lib env sha256Hex q w) :
    Inv lib env sha256Hex (perform i draw w q).1 := by
  have hrely := rely_perform i draw w q
  have hcaller : (i, q.request) ∈ (perform i draw w q).1.callers :=
    List.mem_append_right _ (List.mem_singleton_self _)
  obtain ⟨request, query⟩ := q
  have hmoved := tables_moved draw w.tables query
  have htables : (perform i draw w ⟨request, query⟩).1.tables
      = (performTables draw w.tables query).1 := rfl
  generalize hw' : (perform i draw w ⟨request, query⟩).1 = w'
    at hrely hcaller htables ⊢
  rw [← htables] at hmoved
  clear hw'
  generalize ht : w'.tables = t' at hmoved
  cases hmoved with
  | same =>
      refine h.keep hrely (fun d' hd' => ⟨d', ?_, rfl⟩) (by rw [ht])
      rwa [ht] at hd'
  | @stored row deposits hrows =>
      refine ⟨fun d' hd' => ?_, fun job hjob htype => ?_,
        fun job hjob => ?_⟩
      · rw [ht] at hd'
        change d' ∈ deposits.rows at hd'
        rw [hrows] at hd'
        rcases List.mem_append.mp hd' with hold | hnew
        · obtain ⟨x, hx, d₀, hsame, hprepares⟩ := h.prepared d' hold
          exact ⟨x, hrely.callers hx, d₀, hsame, hprepares.mono hrely.seen⟩
        · rw [List.mem_singleton.mp hnew]
          exact ⟨_, hcaller, row, rfl, hpre.mono hrely.seen⟩
      · rw [ht] at hjob
        obtain ⟨hqueue, x, hx, d, hd, key, hkey, hsubmits⟩ :=
          h.submitted job hjob htype
        obtain ⟨d', hd', hsame⟩ := hrely.kept.deposits d hd
        exact ⟨hqueue, x, hrely.callers hx, d', hd', key, hkey,
          hsubmits.same hsame⟩
      · rw [ht] at hjob
        exact h.keyed job hjob
  | burned depositId burnTxHash =>
      refine h.keep hrely (fun d' hd' => ?_) (by rw [ht]; rfl)
      rw [ht] at hd'
      obtain ⟨d, hd, rfl⟩ := List.mem_map.mp hd'
      exact ⟨d, hd, d.same_burned depositId burnTxHash⟩
  | @queued jobType key payload jobs hrows =>
      obtain ⟨rfl, d, hd, hsubmits⟩ := hpre
      refine ⟨fun d' hd' => ?_, fun job hjob htype => ?_,
        fun job hjob => ?_⟩
      · rw [ht] at hd'
        obtain ⟨x, hx, d₀, hsame, hprepares⟩ := h.prepared d' hd'
        exact ⟨x, hrely.callers hx, d₀, hsame, hprepares.mono hrely.seen⟩
      · rw [ht] at hjob
        change job ∈ jobs.rows at hjob
        rw [hrows] at hjob
        rcases List.mem_append.mp hjob with hold | hnew
        · obtain ⟨hqueue, x, hx, d', hd', key', hkey, hsub⟩ :=
            h.submitted job hold htype
          obtain ⟨d'', hd'', hsame⟩ := hrely.kept.deposits d' hd'
          exact ⟨hqueue, x, hrely.callers hx, d'', hd'', key', hkey,
            hsub.same hsame⟩
        · rw [List.mem_singleton.mp hnew]
          obtain ⟨d', hd', hsame⟩ := hrely.kept.deposits d hd
          exact ⟨rfl, _, hcaller, d', hd', key, rfl, hsubmits.same hsame⟩
      · rw [ht] at hjob
        change job ∈ jobs.rows at hjob
        rw [hrows] at hjob
        rcases List.mem_append.mp hjob with hold | hnew
        · exact h.keyed job hold
        · rw [List.mem_singleton.mp hnew]
          exact fun _ _ => rfl

-- ============================================================== requests

/-- Any draw may be executed. -/
theorem executed (c : Choice) :
    Statement.Executed (fun _ : Draw => True) c := by
  cases c <;> exact trivial

/-- The statements keep the discipline, whichever of them is run and
whatever is drawn. -/
theorem discipline_lawful :
    (discipline lib env sha256Hex).Lawful
      (userDeposits lib env sha256Hex).exec where
  refl _ := Rely.refl
  trans _ _ _ _ := Rely.trans
  keeps i q c w hw hpre _ :=
    ⟨Statement.exec_keeps (R := Inv lib env sha256Hex) (executed c) hw
        fun draw _ => inv_perform hw draw q hpre,
      fun _ _ => Statement.exec_keeps (R := Rely w) (executed c)
        (Rely.refl w) fun draw _ => rely_perform i draw w q⟩

/-- What a reply stands for. -/
def Returned (reply : Reply) (w : World) : Prop :=
  match reply with
  | .prepared depositId _ _ _ =>
      ∃ d ∈ w.tables.deposits.rows, d.deposit_id = depositId
  | .queued depositId jobId => ∃ job ∈ w.tables.jobs.rows,
      job.job_id = jobId ∧ job.idempotency_key = some (burnKey depositId)

/-- An answer stays true while the others go on. -/
theorem Returned.later {reply : Reply} (h : Returned reply w)
    (hrely : Rely w w') : Returned reply w' := by
  cases reply with
  | prepared depositId settings burn amount =>
      obtain ⟨d, hd, hid⟩ := h
      obtain ⟨d', hd', hsame⟩ := hrely.kept.deposits d hd
      refine ⟨d', hd', ?_⟩
      rw [hsame]
      exact hid
  | queued depositId jobId =>
      obtain ⟨job, hjob, hrest⟩ := h
      exact ⟨job, hrely.kept.jobs job hjob, hrest⟩

/-- Safe, with what it returns. -/
abbrev Gives {α : Type} (lib : Libraries) (env : EnvMap)
    (sha256Hex : String → String) (i : ℕ) (P : α → World → Prop)
    (code : Route α) (w : World) : Prop :=
  (discipline lib env sha256Hex).Safe (userDeposits lib env sha256Hex).exec
    i (fun r w' => ∀ a, r = .ok a → P a w') code w

variable {request : Request}

/-- A statement, and what follows its answer. -/
theorem gives_ask {α : Type} {P : α → World → Prop} {q : Query}
    {f : q.Answer → Route α}
    (h : ∀ w₁, Rely w w₁ → Pre lib env sha256Hex ⟨request, q⟩ w₁
      ∧ ∀ draw a, (performTables draw w₁.tables q).2 = .ok a →
        Inv lib env sha256Hex (perform i draw w₁ ⟨request, q⟩).1 →
        Gives lib env sha256Hex i P (f a)
          (perform i draw w₁ ⟨request, q⟩).1) :
    Gives lib env sha256Hex i P (ask request q >>= f) w := by
  refine Statement.answer_then fun w₁ hw₁ => ?_
  obtain ⟨hpre, hrest⟩ := h w₁ hw₁.1
  exact ⟨hpre, fun draw a ha _ =>
    hrest draw a ha (inv_perform hw₁.2 draw _ hpre)⟩

/-- An answer that is true already may be given. -/
theorem gives_pure {reply : Reply} (h : Returned reply w) :
    Gives lib env sha256Hex i Returned (pure reply) w := by
  intro w' hw' a ha
  injection ha with ha
  exact ha ▸ h.later hw'.1

/-- The activity is logged last. -/
theorem gives_logActivity {userId : String} {reply : Reply}
    (h : Returned reply w) :
    Gives lib env sha256Hex i Returned
      (ask request (.logActivity userId) >>= fun _ => pure reply) w :=
  gives_ask fun w₁ hrely => ⟨trivial, fun draw _ _ _ =>
    gives_pure ((h.later hrely).later (rely_perform i draw w₁ _))⟩

/-- What the two checks that count have found. -/
theorem mem_sights_wallet {t : Tables} {userId address : String}
    (h : userOwnsWallet t userId address = true) :
    Sight.wallet userId address
      ∈ sights t (.userOwnsWallet userId address) := by
  rw [sights, if_pos h]
  exact List.mem_singleton_self _

/-- A vault that is found ready is seen ready. -/
theorem mem_sights_vault {t : Tables} {userId vaultId : String}
    (h : (vaultDepositReady t userId vaultId).any (·.ready) = true) :
    Sight.vault userId vaultId
      ∈ sights t (.vaultDepositReady userId vaultId) := by
  rw [sights, if_pos h]
  exact List.mem_singleton_self _

/-- A request that is not rejected does not meet the condition. -/
theorem reject_eq_ok {c : Prop} [Decidable c] {code : ℕ} {message : String}
    {u : Unit} (h : reject c code message = .ok u) : ¬c := by
  unfold reject Exec.panicIf at h
  split at h
  · cases h
  · assumption

/-- The stored deposit has the id that was asked for. -/
theorem stored_of_create {draw : Draw} {t : Tables} {row : DepositRow}
    (h : (performTables draw t (.createUserDeposit row)).2 = .ok ()) :
    ∃ d ∈ (performTables draw t (.createUserDeposit row)).1.deposits.rows,
      d.deposit_id = row.deposit_id := by
  simp only [performTables, Tables.createUserDeposit] at h ⊢
  split at h
  · cases h
  · rename_i hfits
    rw [if_neg hfits]
    split
    · rename_i hthere
      exact hthere
    · rename_i hnone
      rw [if_neg hnone] at h
      cases hinsert : t.deposits.insert row with
      | none =>
          rw [hinsert] at h
          cases h
      | some deposits =>
          refine ⟨row, ?_, rfl⟩
          show row ∈ deposits.rows
          rw [(Table.insert_eq_some hinsert).2]
          exact List.mem_append_right _ (List.mem_singleton_self _)

/-- A call keeps what every process relies on. -/
theorem discipline_uniform :
    (discipline lib env sha256Hex).Uniform
      (userDeposits lib env sha256Hex).exec :=
  fun _ j q c w _ _ _ => Statement.exec_keeps (R := Rely w) (executed c)
    (Rely.refl w) fun draw _ => rely_perform j draw w q

/-- The root is checked, and what was seen stays seen. -/
theorem gives_assertRootHealthy {known : List Sight}
    (hknown : known ⊆ w.seen) :
    Gives lib env sha256Hex i (fun _ w' => known ⊆ w'.seen)
      (assertRootHealthy request) w := by
  have huses : (assertRootHealthy request).Uses fun q : Call =>
      q.query = .criticalRootMismatchCount := by
    refine Prog.Uses.bind ?_ fun critical => Prog.uses_ofExcept _
    exact Prog.Uses.handle (Prog.uses_query rfl) fun _ => trivial
  refine (Discipline.Safe.of_uses_with discipline_uniform
    (fun w w' hw hrely => List.Subset.trans hw hrely.seen) ?_ huses
    hknown).mono fun _ _ _ h _ _ => h
  intro q w hq _
  show Pre lib env sha256Hex q w
  rw [Pre, hq]
  trivial

/-- A prepare request that returns a deposit id stored the deposit. -/
theorem gives_prepare {auth : Option Auth} {idempotencyKey : String}
    {body : PrepareBody} :
    Gives lib env sha256Hex i Returned
      (prepare lib env sha256Hex (.prepare auth idempotencyKey body) auth
        idempotencyKey body) w := by
  refine .ofExcept_then fun user huser => ?_
  have hauth : auth = some user := by
    cases auth with
    | none => cases huser
    | some auth' =>
        injection huser with huser
        rw [huser]
  refine .ofExcept_then fun _ hchain => .ofExcept_then fun _ hpos => ?_
  refine gives_ask fun w₁ _ => ⟨trivial, fun draw₁ wallet hw₁ _ => ?_⟩
  refine .ofExcept_then fun _ hwallet => ?_
  injection hw₁ with hw₁
  have hsees₁ : Sight.wallet user.userId body.source_wallet_address
      ∈ (perform i draw₁ w₁ ⟨.prepare auth idempotencyKey body,
        .userOwnsWallet user.userId body.source_wallet_address⟩).1.seen :=
    List.mem_append_right _ (mem_sights_wallet
      (hw₁.trans (Bool.eq_true_of_not_eq_false (reject_eq_ok hwallet))))
  refine gives_ask fun w₂ hrely₂ => ⟨trivial, fun draw₂ vault _ _ => ?_⟩
  refine .ofExcept_then fun _ _ => ?_
  refine gives_ask fun w₃ hrely₃ => ⟨trivial,
    fun draw₃ ready hw₃ hinv₃ => ?_⟩
  refine .ofExcept_then fun _ hready => ?_
  injection hw₃ with hw₃
  have hsees₃ : Sight.vault user.userId body.vault_id
      ∈ sights w₃.tables (.vaultDepositReady user.userId body.vault_id) := by
    refine mem_sights_vault ?_
    rw [hw₃]
    exact Bool.eq_true_of_not_eq_false (reject_eq_ok hready)
  have hknown : [Sight.wallet user.userId body.source_wallet_address,
      Sight.vault user.userId body.vault_id]
      ⊆ (perform i draw₃ w₃ ⟨.prepare auth idempotencyKey body,
        .vaultDepositReady user.userId body.vault_id⟩).1.seen := by
    refine List.cons_subset.mpr ⟨?_, List.cons_subset.mpr
      ⟨List.mem_append_right _ hsees₃, List.nil_subset _⟩⟩
    exact List.mem_append_left _ (hrely₃.seen
      ((rely_perform i draw₂ w₂ _).seen (hrely₂.seen hsees₁)))
  refine (gives_assertRootHealthy hknown).bind_then discipline_lawful hinv₃
    fun _ w₄ _ hknown => ?_
  refine .ofExcept_then fun burn hburn => ?_
  have hburn : burnTxRequest lib (settings env) body.amount_usdc_6dp
      = .ok burn := by
    cases hargs : burnTxRequest lib (settings env) body.amount_usdc_6dp with
    | error e =>
        rw [hargs] at hburn
        cases hburn
    | ok args =>
        rw [hargs] at hburn
        injection hburn with hburn
        rw [hburn]
  refine gives_ask fun w₅ hrely₅ => ⟨?_, fun draw₅ _ hstored _ => ?_⟩
  · refine ⟨user, idempotencyKey, body, burn, by rw [hauth], rfl, ?_, ?_,
      hburn, hrely₅.seen (hknown List.mem_cons_self), hrely₅.seen
        (hknown (List.mem_cons_of_mem _ List.mem_cons_self))⟩
    · exact not_not.mp (reject_eq_ok hchain)
    · exact Nat.pos_of_ne_zero (reject_eq_ok hpos)
  · exact gives_logActivity (stored_of_create hstored)

/-- The job found under a key is in the table and has the key. -/
theorem mem_of_jobByKey {t : Tables} {key : String} {job : JobRow}
    (h : jobByKey t key = some job) :
    job ∈ t.jobs.rows ∧ job.idempotency_key = some key :=
  ⟨List.mem_of_find?_eq_some h, of_decide_eq_true (List.find?_some h :)⟩

/-- The job that is returned is the one with the key. -/
theorem gives_enqueue {d : DepositRow} {payload : JobPayload} {key : String}
    (hd : d ∈ w.tables.deposits.rows)
    (hsubmits : Submits request d payload key) :
    Gives lib env sha256Hex i (fun job w' => job ∈ w'.tables.jobs.rows
        ∧ job.idempotency_key = some key)
      (enqueue request USER_BURN payload key) w := by
  refine gives_ask fun w₁ hrely₁ => ⟨trivial,
    fun draw₁ existing hfound _ => ?_⟩
  injection hfound with hfound
  cases existing with
  | some job =>
      obtain ⟨hjob, hkey⟩ := mem_of_jobByKey hfound
      intro w₂ hw₂ a ha
      injection ha with ha
      subst ha
      exact ⟨hw₂.1.kept.jobs _ hjob, hkey⟩
  | none =>
      refine gives_ask fun w₂ hrely₂ => ⟨?_, fun draw₂ job hjob _ => ?_⟩
      · obtain ⟨d', hd', hsame⟩ := ((hrely₁.kept.trans
          (rely_perform i draw₁ w₁ _).kept).trans hrely₂.kept).deposits d hd
        exact ⟨rfl, d', hd', hsubmits.same hsame⟩
      have hrow : job ∈ (performTables draw₂ w₂.tables
          (.insertJob USER_BURN payload key)).1.jobs.rows
          ∧ job.idempotency_key = some key := by
        simp only [performTables] at hjob ⊢
        split at hjob
        · rename_i jobs hinsert
          injection hjob with hjob
          subst hjob
          refine ⟨?_, rfl⟩
          show _ ∈ jobs.rows
          rw [(Table.insert_eq_some hinsert).2]
          exact List.mem_append_right _ (List.mem_singleton_self _)
        · cases hjob
      refine gives_ask fun w₃ hrely₃ => ⟨trivial, fun draw₃ _ _ _ => ?_⟩
      intro w₄ hw₄ a ha
      injection ha with ha
      subst ha
      exact ⟨hw₄.1.kept.jobs _ (hrely₃.kept.jobs _ hrow.1), hrow.2⟩

/-- A burn-submitted request that returns `queued` has its job in the
queue. -/
theorem gives_burnSubmitted {auth : Option Auth} {depositId : String}
    {body : BurnBody} :
    Gives lib env sha256Hex i Returned
      (burnSubmitted (.burnSubmitted auth depositId body) auth depositId body)
      w := by
  refine .ofExcept_then fun user huser => ?_
  have hauth : auth = some user := by
    cases auth with
    | none => cases huser
    | some auth' =>
        injection huser with huser
        rw [huser]
  refine gives_ask fun w₁ _ => ⟨trivial, fun draw₁ dep hdep _ => ?_⟩
  refine .ofExcept_then fun d hsome => .ofExcept_then fun _ hwallet => ?_
  rw [Exec.orPanic_eq_ok] at hsome
  subst hsome
  injection hdep with hdep
  obtain ⟨hid, huserId⟩ :=
    of_decide_eq_true (List.find?_some hdep :)
  have hd : d ∈ w₁.tables.deposits.rows := List.mem_of_find?_eq_some hdep
  refine gives_ask fun w₂ hrely₂ => ⟨trivial, fun draw₂ _ _ hinv₂ => ?_⟩
  obtain ⟨d', hd', hsame⟩ :=
    (hrely₂.kept.trans (rely_perform i draw₂ w₂ _).kept).deposits d hd
  have hsubmits : Submits (.burnSubmitted auth depositId body) d
      (.userBurn (burnPayload d body)) (burnKey depositId) :=
    ⟨user, body, by rw [hauth, hid], huserId.symm,
      not_not.mp (reject_eq_ok hwallet), rfl, by rw [hid]⟩
  refine (gives_enqueue hd' (hsubmits.same hsame)).bind_then
    discipline_lawful hinv₂ fun job w₃ _ hjob => ?_
  exact gives_logActivity ⟨job, hjob.1, rfl, hjob.2⟩

/-- So with both kinds of request. -/
theorem gives_code (request : Request) :
    Gives lib env sha256Hex i Returned
      (request.code lib env sha256Hex) w := by
  cases request with
  | prepare auth idempotencyKey body => exact gives_prepare
  | burnSubmitted auth depositId body => exact gives_burnSubmitted

-- ================================================================ runs

/-- A request makes its statements in its own name. -/
theorem uses_code (request : Request) :
    (request.code lib env sha256Hex).Uses fun q => q.request = request := by
  have hask : ∀ q : Query, Prog.Uses (fun q' : Call => q'.request = request)
      (ask request q) := fun q => Prog.uses_query rfl
  cases request with
  | prepare auth idempotencyKey body =>
      refine (Prog.uses_ofExcept _).bind fun _ => ?_
      refine (Prog.uses_ofExcept _).bind fun _ => ?_
      refine (Prog.uses_ofExcept _).bind fun _ => ?_
      refine (hask _).bind fun _ => (Prog.uses_ofExcept _).bind fun _ => ?_
      refine (hask _).bind fun _ => (Prog.uses_ofExcept _).bind fun _ => ?_
      refine (hask _).bind fun _ => (Prog.uses_ofExcept _).bind fun _ => ?_
      refine Prog.Uses.bind (Prog.Uses.bind ?_ fun _ =>
        Prog.uses_ofExcept _) fun _ => ?_
      · exact Prog.Uses.handle (hask _) fun _ => trivial
      · refine (Prog.uses_ofExcept _).bind fun _ => (hask _).bind fun _ => ?_
        exact (hask _).bind fun _ => trivial
  | burnSubmitted auth depositId body =>
      refine (Prog.uses_ofExcept _).bind fun _ => (hask _).bind fun _ => ?_
      refine (Prog.uses_ofExcept _).bind fun _ => ?_
      refine (Prog.uses_ofExcept _).bind fun _ => (hask _).bind fun _ => ?_
      refine Prog.Uses.bind ?_ fun _ => (hask _).bind fun _ => trivial
      refine (hask _).bind fun existing => ?_
      cases existing with
      | some job => trivial
      | none =>
          exact (hask _).bind fun _ => (hask _).bind fun _ => trivial

/-- The other tables may change. -/
theorem Inv.frame (h : Inv lib env sha256Hex w) {tables : Tables}
    (hdeposits : tables.deposits = w.tables.deposits)
    (hjobs : tables.jobs = w.tables.jobs) :
    Inv lib env sha256Hex { w with tables }
      ∧ Rely w { w with tables } := by
  have hrely : Rely w { w with tables } := by
    refine ⟨List.Subset.refl _, List.Subset.refl _, fun d hd => ⟨d, ?_, rfl⟩,
      fun job hjob => ?_⟩
    · show d ∈ tables.deposits.rows
      rw [hdeposits]
      exact hd
    · show job ∈ tables.jobs.rows
      rw [hjobs]
      exact hjob
  refine ⟨h.keep hrely (fun d hd => ⟨d, ?_, rfl⟩) ?_, hrely⟩
  · rw [← hdeposits]
    exact hd
  · show tables.jobs.rows = _
    rw [hjobs]

/-- What happens outside, as the statements see it. -/
theorem inv_happen (h : Inv lib env sha256Hex w) {e : Outside}
    {tables : Tables} (he : w.tables.happen e = some tables) :
    Inv lib env sha256Hex { w with tables }
      ∧ Rely w { w with tables } := by
  cases e with
  | wallets rows =>
      injection he with he
      exact h.frame (he ▸ rfl) (he ▸ rfl)
  | vaults rows =>
      injection he with he
      exact h.frame (he ▸ rfl) (he ▸ rfl)
  | findings n =>
      injection he with he
      exact h.frame (he ▸ rfl) (he ▸ rfl)
  | enqueued job =>
      simp only [Tables.happen] at he
      split at he
      · rename_i hforeign
        obtain ⟨jobs, hinsert, rfl⟩ := Option.map_eq_some_iff.mp he
        have hrows := (Table.insert_eq_some hinsert).2
        have hthere : ∀ job' ∈ jobs.rows,
            job' ∈ w.tables.jobs.rows ∨ job' = job := by
          intro job' hjob'
          rw [hrows] at hjob'
          exact (List.mem_append.mp hjob').imp id List.mem_singleton.mp
        refine ⟨⟨h.prepared, fun job' hjob' htype => ?_,
          fun job' hjob' depositId hkey => ?_⟩, List.Subset.refl _,
          List.Subset.refl _, fun d hd => ⟨d, hd, rfl⟩, fun job' hjob' => ?_⟩
        · rcases hthere job' hjob' with hold | rfl
          · exact h.submitted job' hold htype
          · exact absurd htype hforeign.1
        · rcases hthere job' hjob' with hold | rfl
          · exact h.keyed job' hold depositId hkey
          · refine absurd ?_ (hforeign.2 _ hkey)
            rw [burnKey, String.toList_append]
            exact List.prefix_append _ _
        · show job' ∈ jobs.rows
          rw [hrows]
          exact List.mem_append_left _ hjob'
      · cases he

/-- The service after the events. -/
abbrev after (lib : Libraries) (env : EnvMap) (sha256Hex : String → String)
    (wallets : Table WalletRow WalletRow.Clash)
    (vaults : Table VaultRow VaultRow.Clash) (findings : ℕ)
    (es : List ServiceEvent) : Service :=
  Run.run (userDeposits lib env sha256Hex).step
    (opening wallets vaults findings) es

variable {wallets : Table WalletRow WalletRow.Clash}
  {vaults : Table VaultRow VaultRow.Clash} {findings : ℕ}
  {es : List ServiceEvent}

/-- There are no deposits and no jobs to begin with. -/
theorem inv_opening :
    Inv lib env sha256Hex (opening wallets vaults findings).shared where
  prepared _ hd := by cases hd
  submitted _ hjob := by cases hjob
  keyed _ hjob := by cases hjob

/-- Every answer given in a run is true, and every request in the book
is that of the process with its number. -/
theorem numbered :
    System.Numbered (userDeposits lib env sha256Hex)
      (discipline lib env sha256Hex) (fun _ _ => True)
      (fun _ _ r w => ∀ a, r = .ok a → Returned a w)
      (after lib env sha256Hex wallets vaults findings es) := by
  refine System.numbered_run discipline_lawful (fun _ _ _ _ => trivial)
    (fun t _ _ _ _ => gives_code t) (fun _ _ _ _ _ _ _ _ => trivial)
    (fun e w w' ts hinv hout => ?_) ⟨inv_opening, fun _ _ => trivial,
      fun i t c hi => by cases hi⟩ es
  obtain ⟨tables, htables, heq⟩ := Option.map_eq_some_iff.mp hout
  injection heq with hw _
  subst hw
  obtain ⟨hkept, hrely⟩ := inv_happen hinv htables
  exact ⟨hkept, fun _ => hrely, fun _ _ => trivial⟩

/-- Who is in the trace is a process that is there. -/
theorem caller_run {x : ℕ × Request}
    (hx : x ∈ (after lib env sha256Hex wallets vaults findings
      es).shared.callers) :
    ∃ code, (after lib env sha256Hex wallets vaults findings es).procs[x.1]?
      = some ⟨x.2, code⟩ := by
  have hrecorded : System.Recorded Call.request World.callers
      (after lib env sha256Hex wallets vaults findings es) := by
    refine System.recorded_run Call.request World.callers uses_code
      (fun i q c w => ?_) (fun e w w' ts he => ?_) rfl es
    · refine Statement.exec_keeps (R := fun w' : World => ∀ x ∈ w'.callers,
        x ∈ w.callers ∨ x = (i, q.request)) (executed c)
        (fun x hx => .inl hx) fun draw _ x hx => ?_
      exact (List.mem_append.mp hx).imp id List.mem_singleton.mp
    · obtain ⟨tables, -, heq⟩ := Option.map_eq_some_iff.mp he
      injection heq with hw _
      subst hw
      rfl
  exact hrecorded.2 x hx

/-- What is remembered was found. -/
theorem sights_in {t : Tables} {q : Query} {o : Sight} (draw : Draw)
    (ho : o ∈ sights t q) : o.In t ∧ (performTables draw t q).1 = t := by
  unfold sights at ho
  split at ho
  · split at ho
    · rename_i hwallet
      rw [List.mem_singleton.mp ho]
      exact ⟨hwallet, rfl⟩
    · cases ho
  · split at ho
    · rename_i hvault
      rw [List.mem_singleton.mp ho]
      exact ⟨(Option.any_eq_true _ _).mp hvault, rfl⟩
    · cases ho
  · cases ho

/-- What a check found was there at some time of the run. -/
theorem seen_run {o : Sight}
    (ho : o ∈ (after lib env sha256Hex wallets vaults findings
      es).shared.seen) :
    ∃ fs, fs <+: es ∧ o.In (after lib env sha256Hex wallets vaults findings
      fs).shared.tables := by
  refine Run.seen_run (fun m : Service => m.shared.seen)
    (fun o m => o.In m.shared.tables) (fun _ ho => by cases ho)
    (fun m e m' hs o ho => ?_) ho
  cases System.step_cases hs with
  | started t => exact .inl ho
  | @ran i c t q k hi =>
      refine Statement.exec_keeps (R := fun w' : World => ∀ o ∈ w'.seen,
        o ∈ m.shared.seen ∨ o.In w'.tables) (executed c)
        (fun o ho => .inl ho) (fun draw _ o ho => ?_) o ho
      refine (List.mem_append.mp ho).imp id fun hnew => ?_
      obtain ⟨hin, hsame⟩ := sights_in draw hnew
      show o.In (performTables draw m.shared.tables q.query).1
      rw [hsame]
      exact hin
  | killed hi => exact .inl ho
  | happened he =>
      obtain ⟨tables, -, heq⟩ := Option.map_eq_some_iff.mp he
      injection heq with hw _
      subst hw
      exact .inl ho

-- =============================================================== results

/-- The tables after the events. -/
abbrev tablesAfter (lib : Libraries) (env : EnvMap)
    (sha256Hex : String → String)
    (wallets : Table WalletRow WalletRow.Clash)
    (vaults : Table VaultRow VaultRow.Clash) (findings : ℕ)
    (es : List ServiceEvent) : Tables :=
  (after lib env sha256Hex wallets vaults findings es).shared.tables

/-- A request of the run prepared the deposit, when the wallet and the
vault were the user's. -/
def PreparedBy (lib : Libraries) (env : EnvMap)
    (sha256Hex : String → String)
    (wallets : Table WalletRow WalletRow.Clash)
    (vaults : Table VaultRow VaultRow.Clash) (findings : ℕ)
    (es : List ServiceEvent) (d : DepositRow) : Prop :=
  ∃ (i : ℕ) (auth : Auth) (idempotencyKey : String) (body : PrepareBody)
      (code : Option (Route Reply)),
    (after lib env sha256Hex wallets vaults findings es).procs[i]?
        = some ⟨.prepare (some auth) idempotencyKey body, code⟩
      ∧ (preparedRow env sha256Hex auth.userId idempotencyKey body).Same d
      ∧ body.source_chain = "arbitrum-sepolia" ∧ 0 < body.amount_usdc_6dp
      ∧ (∃ burn, burnTxRequest lib (settings env) body.amount_usdc_6dp
        = .ok burn)
      ∧ (∃ fs, fs <+: es ∧ userOwnsWallet
        (tablesAfter lib env sha256Hex wallets vaults findings fs)
        auth.userId body.source_wallet_address = true)
      ∧ ∃ fs, fs <+: es ∧ ∃ r ∈ vaultDepositReady
        (tablesAfter lib env sha256Hex wallets vaults findings fs)
        auth.userId body.vault_id, r.ready = true

/-- A request of the run queued the job for a burn of the deposit. -/
def SubmittedBy (lib : Libraries) (env : EnvMap)
    (sha256Hex : String → String)
    (wallets : Table WalletRow WalletRow.Clash)
    (vaults : Table VaultRow VaultRow.Clash) (findings : ℕ)
    (es : List ServiceEvent) (d : DepositRow) (job : JobRow) : Prop :=
  ∃ (i : ℕ) (auth : Auth) (body : BurnBody) (code : Option (Route Reply)),
    (after lib env sha256Hex wallets vaults findings es).procs[i]?
        = some ⟨.burnSubmitted (some auth) d.deposit_id body, code⟩
      ∧ auth.userId = d.user_id
      ∧ Inbound.toLowerCase d.source_wallet_address
        = Inbound.toLowerCase body.source_wallet_address
      ∧ job.queue = .relayer
      ∧ job.idempotency_key = some (burnKey d.deposit_id)
      ∧ job.payload = .userBurn (burnPayload d body)

/-- A deposit in the table was prepared. -/
theorem prepared_run {d : DepositRow}
    (hd : d ∈ (tablesAfter lib env sha256Hex wallets vaults findings
      es).deposits.rows) :
    PreparedBy lib env sha256Hex wallets vaults findings es d := by
  obtain ⟨x, hx, d₀, hsame, hprepares⟩ := numbered.inv.prepared d hd
  obtain ⟨auth, idempotencyKey, body, burn, hrequest, rfl, hchain, hpos,
    hburn, hwallet, hvault⟩ := hprepares
  obtain ⟨code, hcode⟩ := caller_run hx
  rw [hrequest] at hcode
  exact ⟨x.1, auth, idempotencyKey, body, code, hcode, hsame, hchain, hpos,
    ⟨burn, hburn⟩, seen_run hwallet, seen_run hvault⟩

/-- A user-burn job in the queue was submitted. -/
theorem submitted_run {job : JobRow}
    (hjob : job ∈ (tablesAfter lib env sha256Hex wallets vaults findings
      es).jobs.rows) (htype : job.job_type = USER_BURN) :
    ∃ d ∈ (tablesAfter lib env sha256Hex wallets vaults findings
      es).deposits.rows,
      SubmittedBy lib env sha256Hex wallets vaults findings es d job := by
  obtain ⟨hqueue, x, hx, d, hd, key, hkey, hsubmits⟩ :=
    numbered.inv.submitted job hjob htype
  obtain ⟨auth, body, hrequest, huser, hwallet, hpayload, rfl⟩ := hsubmits
  obtain ⟨code, hcode⟩ := caller_run hx
  rw [hrequest] at hcode
  exact ⟨d, hd, x.1, auth, body, code, hcode, huser, hwallet, hqueue, hkey,
    hpayload⟩

/-- However the requests interleave, a job for a burn is of one deposit,
which a request of its user prepared and another submitted a burn for; no
two are of the same deposit. A request that answers `queued` has its job
in the queue, and one that answers `prepared` its deposit in the table. -/
theorem burn_jobs_prepared (lib : Libraries) (env : EnvMap)
    (sha256Hex : String → String)
    (wallets : Table WalletRow WalletRow.Clash)
    (vaults : Table VaultRow VaultRow.Clash) (findings : ℕ)
    (es : List ServiceEvent) :
    let t := tablesAfter lib env sha256Hex wallets vaults findings es
    (∀ job ∈ t.jobs.rows, job.job_type = USER_BURN →
      ∃ d ∈ t.deposits.rows,
        PreparedBy lib env sha256Hex wallets vaults findings es d
          ∧ SubmittedBy lib env sha256Hex wallets vaults findings es d job
          ∧ ∀ job' ∈ t.jobs.rows, job'.job_type = USER_BURN →
            SubmittedBy lib env sha256Hex wallets vaults findings es d
              job' → job' = job)
      ∧ ∀ (i : ℕ) request reply,
        (after lib env sha256Hex wallets vaults findings es).procs[i]?
          = some ⟨request, some (.pure reply)⟩ →
        match reply with
        | .prepared depositId _ _ _ =>
            ∃ d ∈ t.deposits.rows, d.deposit_id = depositId
        | .queued depositId jobId => ∃ job ∈ t.jobs.rows,
            job.job_id = jobId ∧ job.job_type = USER_BURN
              ∧ job.idempotency_key = some (burnKey depositId) := by
  refine ⟨fun job hjob htype => ?_, fun i request reply hi => ?_⟩
  · obtain ⟨d, hd, hsubmitted⟩ := submitted_run hjob htype
    refine ⟨d, hd, prepared_run hd, hsubmitted, fun job' hjob' _ hsub => ?_⟩
    obtain ⟨-, -, -, -, -, -, -, -, hkey, -⟩ := hsubmitted
    obtain ⟨-, -, -, -, -, -, -, -, hkey', -⟩ := hsub
    refine Table.eq_of_clash _ hjob' hjob (.inr ⟨?_, hkey'.trans hkey.symm⟩)
    rw [hkey']
    exact Option.some_ne_none _
  · have hreturned := numbered.finished discipline_lawful hi reply rfl
    cases reply with
    | prepared depositId settings burn amount => exact hreturned
    | queued depositId jobId =>
        obtain ⟨job, hjob, hid, hkey⟩ := hreturned
        exact ⟨job, hjob, hid, numbered.inv.keyed job hjob depositId hkey,
          hkey⟩

-- ============================================================ the relayer

/-- What the route reads and the relayer reads again. -/
def sharedKeys : List String :=
  ["ARB_SEPOLIA_USDC_ADDRESS", "ARB_SEPOLIA_CCTP_TOKEN_MESSENGER",
   "STELLAR_CCTP_FORWARDER_CONTRACT", "SHIELDED_POOL_CONTRACT"]

/-- The relayer is set up, for the same contracts as the route. -/
structure SetUp (relayer env : EnvMap) : Prop where
  same : ∀ key ∈ sharedKeys, relayer key = env key
  filled : ∀ key ∈ sharedKeys, env key ≠ some ""
  pool : (env "SHIELDED_POOL_CONTRACT").isSome = true
  secret : (relayer "STELLAR_RELAYER_SECRET").getD "" ≠ ""

/-- One burn is the other, up to the case of letters and the fee. -/
def SameBurn (a b : Inbound.BurnArgs) : Prop :=
  b.amount = a.amount ∧ b.destinationDomain = a.destinationDomain
    ∧ Inbound.toLowerCase b.mintRecipient
      = Inbound.toLowerCase a.mintRecipient
    ∧ Inbound.toLowerCase b.burnToken = Inbound.toLowerCase a.burnToken
    ∧ Inbound.toLowerCase b.destinationCaller
      = Inbound.toLowerCase a.destinationCaller
    ∧ b.minFinalityThreshold = a.minFinalityThreshold
    ∧ Inbound.toLowerCase b.hookData = Inbound.toLowerCase a.hookData

/-- A variable that is not set to the empty text is its value or the
fallback. -/
theorem orElse_of_filled {key : String} (fallback : String)
    (h : env key ≠ some "") :
    orElse env key fallback = (env key).getD fallback := by
  unfold orElse
  cases hkey : env key with
  | none => rfl
  | some v =>
      have hv : v ≠ "" := fun hv => h (hv ▸ hkey)
      rw [Option.filter_some, if_pos (decide_eq_true hv)]

/-- The relayer falls back to the same contracts. -/
theorem SetUp.reads {relayer : EnvMap} (h : SetUp relayer env)
    {key : String} (hkey : key ∈ sharedKeys) (fallback : String) :
    (relayer key).getD fallback = orElse env key fallback := by
  rw [h.same key hkey, orElse_of_filled fallback (h.filled key hkey)]

/-- The relayer's pool is then the API's. -/
theorem SetUp.relayerPool {relayer : EnvMap} (h : SetUp relayer env)
    (p : BurnPayload) :
    Inbound.relayerPool relayer (relayed p) = .ok (settings env).pool := by
  have hpool : (relayer "SHIELDED_POOL_CONTRACT").getD ""
      = (settings env).pool := h.reads (by decide) ""
  have hsome : (settings env).pool ≠ "" := by
    obtain ⟨pool, hget⟩ := Option.isSome_iff_exists.mp h.pool
    rw [← hpool, h.same _ (by decide), hget]
    exact fun heq => h.filled _ (by decide : _ ∈ sharedKeys)
      (hget.trans (congrArg some heq))
  unfold Inbound.relayerPool
  simp [relayed, Inbound.check, hpool, hsome, h.secret]

/-- The payload of a stored deposit names its amount, and no fee. -/
theorem expectedBurn_payload (d : DepositRow) (body : BurnBody)
    (pool : String) :
    Inbound.expectedBurn (relayed (burnPayload d body)) pool
      = .ok ⟨body.burn_tx_hash, body.source_wallet_address,
        d.amount_usdc_6dp, pool, none,
        some (Inbound.FINALITY_THRESHOLD_CONFIRMED : ℕ)⟩ := by
  have hamount : Inbound.toBigInt (toString d.amount_usdc_6dp)
      = .ok (d.amount_usdc_6dp : ℤ) := by
    rw [Inbound.toBigInt, bigInt_toString]
  unfold Inbound.expectedBurn
  simp only [relayed, burnPayload, hamount]
  rfl

/-- What was prepared is what the relayer compares with. -/
theorem validateBurn_iff {relayer : EnvMap} (h : SetUp relayer env)
    {amount6 : ℕ} {burn : Inbound.BurnArgs}
    (hburn : burnTxRequest lib (settings env) amount6 = .ok burn)
    (burnTxHash sender : String) (tx : Inbound.ArbTx) (status : ℕ) :
    (∃ v, Inbound.validateBurn lib relayer ⟨burnTxHash, sender, amount6,
        (settings env).pool, none,
        some (Inbound.FINALITY_THRESHOLD_CONFIRMED : ℕ)⟩ tx status = .ok v)
      ↔ status = 1
        ∧ Inbound.toLowerCase tx.sender = Inbound.toLowerCase sender
        ∧ Inbound.toLowerCase (tx.target.getD "")
          = Inbound.toLowerCase (settings env).tokenMessenger
        ∧ ∃ args, tx.data = .burn args ∧ SameBurn burn args := by
  have hmessenger := h.reads
    (by decide : "ARB_SEPOLIA_CCTP_TOKEN_MESSENGER" ∈ sharedKeys)
    Inbound.arbitrumSepoliaTokenMessenger
  have husdc := h.reads (by decide : "ARB_SEPOLIA_USDC_ADDRESS" ∈ sharedKeys)
    Inbound.arbitrumSepoliaUsdc
  have hforwarder := h.reads
    (by decide : "STELLAR_CCTP_FORWARDER_CONTRACT" ∈ sharedKeys)
    Inbound.stellarCctpForwarder
  unfold burnTxRequest at hburn
  simp only [Exec.bind_eq_ok, Exec.pure_eq_ok] at hburn
  obtain ⟨mintRecipient, hmint, caller, hcaller, hook, hhook, rfl⟩ := hburn
  obtain rfl : mintRecipient = caller :=
    Except.ok.inj (hmint.symm.trans hcaller)
  have hmint : Inbound.stellarContractToBytes32 lib
      (orElse env "STELLAR_CCTP_FORWARDER_CONTRACT"
        Inbound.stellarCctpForwarder) = .ok mintRecipient := hmint
  unfold Inbound.validateBurn
  cases hdata : tx.data with
  | malformed =>
      simp only [Exec.bind_eq_ok, reduceCtorEq, false_and, exists_false,
        and_false]
  | null =>
      simp only [Exec.bind_eq_ok, reduceCtorEq, false_and, exists_false,
        and_false]
  | burn args =>
      simp only [Exec.bind_eq_ok, Exec.pure_eq_ok, Inbound.check_eq_ok,
        hmessenger, husdc, hforwarder, hmint, hhook, not_not, SameBurn]
      constructor
      · rintro ⟨-, -, hstatus, -, hsender, -, htarget, d, heq, mint, hmint',
          caller, hhook', -, hamount, -, hdomain, -, hrecipient, -, htoken,
          -, hcaller, -, -, -, hfinality, -, hdata', -⟩
        obtain rfl : args = d := Except.ok.inj heq
        obtain rfl : mintRecipient = mint := Except.ok.inj hmint'
        obtain rfl : hook = caller := Except.ok.inj hhook'
        exact ⟨hstatus, hsender, htarget, args, rfl, hamount, hdomain,
          hrecipient, htoken, hcaller,
          Int.ofNat_inj.mp (Option.some.inj hfinality).symm, hdata'⟩
      · rintro ⟨hstatus, hsender, htarget, d, heq, hamount, hdomain,
          hrecipient, htoken, hcaller, hfinality, hdata'⟩
        obtain rfl : args = d := Inbound.Calldata.burn.inj heq
        refine ⟨_, (), hstatus, (), hsender, (), htarget, args, rfl,
          mintRecipient, rfl, hook, rfl, (), hamount, (), hdomain, (),
          hrecipient, (), htoken, (), hcaller, (), ?_, (), ?_, (), hdata',
          rfl⟩
        · rintro ⟨maxFee, hnone, -⟩
          cases hnone
        · rw [hfinality]

/-- A job is of a deposit that a request prepared and another submitted a
burn for, and what the relayer accepts for it is the burn that the user
was given to sign, from his wallet, whatever its fee. -/
theorem user_burn_accepted (lib : Libraries) (env relayer : EnvMap)
    (sha256Hex : String → String)
    (wallets : Table WalletRow WalletRow.Clash)
    (vaults : Table VaultRow VaultRow.Clash) (findings : ℕ)
    (es : List ServiceEvent) (hsetup : SetUp relayer env) {job : JobRow}
    (hjob : job ∈ (tablesAfter lib env sha256Hex wallets vaults findings
      es).jobs.rows) (htype : job.job_type = USER_BURN) :
    ∃ d ∈ (tablesAfter lib env sha256Hex wallets vaults findings
      es).deposits.rows, ∃ payload burn,
      PreparedBy lib env sha256Hex wallets vaults findings es d
        ∧ SubmittedBy lib env sha256Hex wallets vaults findings es d job
        ∧ job.payload = .userBurn payload
        ∧ burnTxRequest lib (settings env) d.amount_usdc_6dp = .ok burn
        ∧ ∀ tx status, (∃ v, relayerAccepts lib relayer payload tx status
            = .ok v)
          ↔ status = 1
            ∧ Inbound.toLowerCase tx.sender
              = Inbound.toLowerCase d.source_wallet_address
            ∧ Inbound.toLowerCase (tx.target.getD "")
              = Inbound.toLowerCase (settings env).tokenMessenger
            ∧ ∃ args, tx.data = .burn args ∧ SameBurn burn args := by
  obtain ⟨d, hd, hsubmitted⟩ := submitted_run hjob htype
  have hparts := hsubmitted
  obtain ⟨i, auth, body, code, -, -, hwallet, -, -, hpayload⟩ := hparts
  have hprepared := prepared_run hd
  obtain ⟨_, _, _, prepareBody, _, -, hsame, -, -, ⟨burn, hburn⟩, -⟩ :=
    hprepared
  have hamount : d.amount_usdc_6dp = prepareBody.amount_usdc_6dp := by
    rw [hsame]
    rfl
  rw [← hamount] at hburn
  refine ⟨d, hd, _, burn, prepared_run hd, hsubmitted, hpayload, hburn,
    fun tx status => ?_⟩
  have haccepts : relayerAccepts lib relayer (burnPayload d body) tx status
      = Inbound.validateBurn lib relayer ⟨body.burn_tx_hash,
        body.source_wallet_address, d.amount_usdc_6dp, (settings env).pool,
        none, some (Inbound.FINALITY_THRESHOLD_CONFIRMED : ℕ)⟩ tx
        status := by
    unfold relayerAccepts
    rw [hsetup.relayerPool]
    show (Inbound.expectedBurn _ _ >>= _) = _
    rw [expectedBurn_payload]
    rfl
  rw [haccepts, validateBurn_iff hsetup hburn, hwallet]

-- ================================================================= a run

namespace Demo

/-- The user of the run. -/
def user : Auth := ⟨"user-1", "did:privy:1"⟩

/-- Their wallet. -/
def wallet : WalletRow where
  id := "wallet-1"
  user_id := "user-1"
  privy_user_id := none
  wallet_type := .EVM
  wallet_source := none
  chain := "arbitrum-sepolia"
  address := "0xUser"
  privy_wallet_id := none
  is_primary := true
  verified_at := some 0

/-- Their vault, backed up and with a sufficient policy. -/
def vault : VaultRow where
  user_id := "user-1"
  privy_user_id := "did:privy:1"
  vault_id := "vault-1"
  envelope := ⟨"vault-1", "did:privy:1", "", "", "", []⟩
  ciphertext := ""
  aad := ""
  backup_status := .verified
  recovery_policy_status := .sufficient
  last_backup_verified_at := some 0
  last_backup_verification := none
  last_restored_at := none
  updated_at := 0

/-- The wallet, as the wallet table. -/
def linked : Table WalletRow WalletRow.Clash :=
  ⟨[wallet], List.pairwise_singleton ..⟩

/-- The vault, as the vault table. -/
def backed : Table VaultRow VaultRow.Clash :=
  ⟨[vault], List.pairwise_singleton ..⟩

/-- `sha256` of the deposit's key and commitment, and of nothing
else. -/
def digests (s : String) : String :=
  if s = "udep\x00k-1\x000xc0" then
    "40555deeb608a016eb9b3c57399aead8d9c9982aca177ad8e89b68907b6d641e"
  else ""

/-- The deposit they prepare: one USDC. -/
def body : PrepareBody where
  amount_usdc_6dp := 1000000
  source_chain := "arbitrum-sepolia"
  source_wallet_address := "0xUser"
  vault_id := "vault-1"
  commitment := "0xc0"
  encrypted_note_payload_hash := "0xe0"
  policy_id := "0x00"

/-- The burn they report, from the same wallet in another spelling. -/
def burnBody : BurnBody := ⟨"0xburn", "0xuser"⟩

/-- The id of that deposit. -/
def depositId : String := "udep_40555deeb608a016eb9b3c57399aead8"

/-- The id every job is given. -/
def uuid : String := "00000000-0000-4000-8000-000000000000"

/-- The request goes on. -/
def go (i : ℕ) : ServiceEvent := .run i (.go ⟨uuid⟩)

/-- A deposit is prepared, and its burn submitted. -/
def events : List ServiceEvent :=
  [.start (.prepare (some user) "k-1" body),
   go 0, go 0, go 0, go 0, go 0, go 0,
   .start (.burnSubmitted (some user) depositId burnBody),
   go 1, go 1, go 1, go 1, go 1, go 1]

/-- The job that is queued for it. -/
def job : JobRow where
  job_id := uuid
  queue := .relayer
  job_type := USER_BURN
  idempotency_key := some "user-burn:udep_40555deeb608a016eb9b3c57399aead8"
  payload := .userBurn
    { deposit_id := depositId
      burn_tx_hash := "0xburn"
      source_wallet_address := "0xuser"
      expected_amount6 := "1000000"
      commitment := "0xc0"
      vault_id := "vault-1"
      expected_finality := 1000
      expected_max_fee6 := none
      encryptedNotePayloadHashHex := "0xe0"
      policyIdHex := "0x00" }

/-- The run ends with the job in the queue. -/
theorem job_queued :
    job ∈ (tablesAfter Inbound.Demo.libraries Inbound.Demo.testnet digests
      linked backed 0 events).jobs.rows := by
  decide +kernel

/-- An environment is the same for both. -/
theorem setUp : SetUp Inbound.Demo.testnet Inbound.Demo.testnet where
  same _ _ := rfl
  filled key hkey := by
    revert key hkey
    decide +kernel
  pool := rfl
  secret := by decide

end Demo

/-- One million of the smallest units, from the user's wallet. -/
theorem user_burn_accepted_once :
    ∃ d ∈ (tablesAfter Inbound.Demo.libraries Inbound.Demo.testnet Demo.digests
      Demo.linked Demo.backed 0 Demo.events).deposits.rows,
      ∃ payload burn,
      PreparedBy Inbound.Demo.libraries Inbound.Demo.testnet Demo.digests
          Demo.linked Demo.backed 0 Demo.events d
        ∧ SubmittedBy Inbound.Demo.libraries Inbound.Demo.testnet
          Demo.digests Demo.linked Demo.backed 0 Demo.events d Demo.job
        ∧ Demo.job.payload = .userBurn payload
        ∧ burnTxRequest Inbound.Demo.libraries
          (settings Inbound.Demo.testnet) d.amount_usdc_6dp = .ok burn
        ∧ ∀ tx status, (∃ v, relayerAccepts Inbound.Demo.libraries
            Inbound.Demo.testnet payload tx status = .ok v)
          ↔ status = 1
            ∧ Inbound.toLowerCase tx.sender
              = Inbound.toLowerCase d.source_wallet_address
            ∧ Inbound.toLowerCase (tx.target.getD "")
              = Inbound.toLowerCase
                (settings Inbound.Demo.testnet).tokenMessenger
            ∧ ∃ args, tx.data = .burn args ∧ SameBurn burn args :=
  user_burn_accepted Inbound.Demo.libraries Inbound.Demo.testnet
    Inbound.Demo.testnet Demo.digests Demo.linked Demo.backed 0 Demo.events
    Demo.setUp Demo.job_queued rfl

end Lumix.Services.UserDeposits
