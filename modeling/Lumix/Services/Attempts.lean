/-
One attempt at an inbound job.

The queue claims the job, the worker processes it from the top, in
whatever state the attempts before left the chains, and a failure puts it
back until its attempts are used up. `Surroundings` say how every call of
the attempt goes.

An operator's job burns in every attempt that comes that far
(`attempt_burns`, `ReachesBurn.burns`); a user's job comes no further
than a mint that has been made (`UserInv.blocked`). When all is well an
attempt registers the note (`Normal.registers_operator`,
`Normal.registers_user`).
-/
import Lumix.Services.Inbound

namespace Lumix.Services.Inbound

open Text
open Proving (GeneratedCoin)

-- ============================================================= history

/-- A job of one of the two kinds. -/
structure InboundJob where
  type : InboundJobType
  payload : InboundPayload

/-- How each call of an attempt goes. No call is made twice, for a read
carries how many tries and polls are left. -/
abbrev Surroundings := Call → Choice

/-- A call in these surroundings. -/
def answer (sur : Surroundings) (q : Call) (w : World) :
    World × Except String q.Answer :=
  exec q (sur q) w

/-- `others`: messages that others have forwarded, balances that have
moved, notes that have been registered. -/
inductive JobEvent
  | attempt (sur : Surroundings)
  | others (received : List Message) (balance : String → ℕ)
      (deposits : List Deposit)

/-- The worker claims the job, which counts as an attempt. -/
def World.claim (w : World) : World :=
  { w with status := .claimed, attempts := w.attempts + 1 }

/-- One attempt at the job, from the claim to its end. -/
def attempt (lib : Libraries) (env : EnvMap) (job : InboundJob)
    (sur : Surroundings) (w : World) : World :=
  (Prog.solo (answer sur) (runClaimed (process lib env job.payload job.type))
    w.claim).1

/-- An attempt is made where the job may be claimed. -/
def jobStep (lib : Libraries) (env : EnvMap) (job : InboundJob) (w : World) :
    JobEvent → Except Unit World
  | .attempt sur =>
      if w.status.claimable then .ok (attempt lib env job sur w)
      else .error ()
  | .others received balance deposits =>
      .ok
        { w with
          received := w.received ++ received
          balance
          deposits := w.deposits ++ deposits }

/-- One event of the job's life, with the worlds around it. -/
abbrev History := Run.Transition World JobEvent

-- ========================================================= what is asked

/-- The pool a job is for. -/
def poolOf (env : EnvMap) (p : InboundPayload) : String :=
  (p.pool <|> env "SHIELDED_POOL_CONTRACT").getD ""

/-- The amount of the burn, as the job states it. -/
def InboundJob.amount6 (job : InboundJob) : Option ℤ :=
  match job.type with
  | .CCTP_INBOUND => bigInt (job.payload.amount6.getD "1000000")
  | .CCTP_INBOUND_AFTER_USER_BURN => bigInt job.payload.expectedAmount6

/-- The note the job is to register. -/
def InboundJob.note (job : InboundJob) : String :=
  match job.type with
  | .CCTP_INBOUND => stripHex job.payload.commitmentHex
  | .CCTP_INBOUND_AFTER_USER_BURN => stripHex job.payload.commitment

/-- What a call is answered when nothing is wrong: the funds suffice, a
burn gets a hash of its own and a message that mints its amount, less a
fee, into the pool, the user's transaction is the one the job expects,
readings are up to date and the proof verifies. -/
def Usual (lib : Libraries) (env : EnvMap) (job : InboundJob) (w : World) :
    Call → Draw → Prop
  | .usdcBalance, d => ∀ n ∈ job.amount6, n ≤ d.amount
  | .depositForBurnWithHook _ _, d =>
      ¬w.Used d.text ∧
        ∀ m, m.burnTxHash = d.text →
          ¬w.Registered (poolOf env job.payload)
            (stripHex (lib.keccak256 m))
  | .pollAttestation _ _, d =>
      d.message.forwardRecipient = poolOf env job.payload
        ∧ 0 < d.message.amount7
        ∧ ∀ n ∈ job.amount6, (d.message.amount7 : ℤ) ≤ usdc6ToStellar7 n
  | .sacBalance _ _ _, d => d.reading = .current
  | .buildDepositProof _ _, d => d.proof.locallyVerified = true
  | .getTransaction _, d =>
      ∀ a, expectedBurn job.payload (poolOf env job.payload) = .ok a →
        ∃ tx v, d.tx = some tx ∧ validateBurn lib env a tx 1 = .ok v
  | .getTransactionReceipt _, d => d.receipt = some 1
  | _, _ => True

/-- Every call of the attempt behaves normally. -/
def Normal (lib : Libraries) (env : EnvMap) (job : InboundJob) (w : World)
    (sur : Surroundings) : Prop :=
  ∀ q, ∃ d, sur q = .go d ∧ Usual lib env job w q d

/-- The attempt registers the job's note. -/
def Registers (env : EnvMap) (job : InboundJob) (w w' : World) : Prop :=
  ∃ args : ReceiveArgs, args.commitment = job.note
    ∧ w'.deposits = w.deposits ++ [⟨poolOf env job.payload, args⟩]

-- ======================================================== the condition

/-- The call goes through and is answered. -/
def Choice.goes : Choice → Prop
  | .go _ => True
  | _ => False

/-- A call takes effect, whether or not its answer arrives. -/
def Choice.takes : Choice → Prop
  | .fail => False
  | _ => True

/-- The contracts and the burn of an operator's job, if its environment
and its payload are in order. -/
def plannedBurn (lib : Libraries) (env : EnvMap) (p : InboundPayload) :
    Except String (Contracts × BurnArgs) := do
  let pool ← relayerPool env p
  check (env "ENABLE_OPERATOR_TESTNET_DEPOSIT" ≠ some "true") "disabled"
  let amount6 ← toBigInt (p.amount6.getD "1000000")
  let c ← readContracts env (some pool)
  let args ← burnArgs lib c amount6 true none
  pure (c, args)

/-- What an attempt of an operator's job passes on its way to the burn,
the burn itself included. -/
structure ReachesBurn (lib : Libraries) (env : EnvMap) (p : InboundPayload)
    (sur : Surroundings) (c : Contracts) (args : BurnArgs) : Prop where
  planned : plannedBurn lib env p = .ok (c, args)
  status : (sur (.updateStatus "burning")).goes
  logged : (sur (.event (.progress "burning"))).goes
  coin : (sur (.readCoin (p.coinPath.getD "undefined"))).goes
  funds : ∃ d, sur .usdcBalance = .go d ∧ args.amount ≤ d.amount
  allowance : ∃ d, sur (.usdcAllowance c.tokenMessenger) = .go d
    ∧ (d.amount < args.amount →
        (sur (.approve c.tokenMessenger (args.amount * 100))).goes
          ∧ (sur .approved).goes)
  burn : (sur (.depositForBurnWithHook c.tokenMessenger args)).takes

-- ======================================================= single calls

variable {lib : Libraries} {env : EnvMap} {job : InboundJob}
  {p : InboundPayload} {sur : Surroundings} {w w' : World}

/-- An answered call went through. -/
theorem goes_of_answered {q : Call} {a : q.Answer}
    (h : (answer sur q w).2 = .ok a) : (sur q).goes := by
  obtain ⟨d, hd, -⟩ := exec_answered h
  rw [hd]
  trivial

/-- Code that only decides leaves the world as it is. -/
@[simp]
theorem solo_ofExcept {α : Type} (x : Except String α) (w : World) :
    Prog.solo (answer sur) (ofExcept x) w = (w, x) := by
  cases x <;> rfl

/-- What needs no call leaves the world as it is. -/
theorem solo_ofExcept_of {α β : Type} {K : World × Except String β → Prop}
    {x : Except String α} {f : α → Flow β}
    (hthrow : ∀ e, x = .error e → K (w, .error e))
    (hreturn : ∀ a, x = .ok a → K (Prog.solo (answer sur) (f a) w)) :
    K (Prog.solo (answer sur) (ofExcept x >>= f) w) := by
  rw [Prog.solo_bind, solo_ofExcept]
  cases x with
  | ok a => exact hreturn a rfl
  | error e => exact hthrow e rfl

/-- So what follows may assume how it decided. -/
theorem solo_ofExcept_keeps {α β : Type} {I : World → Prop}
    {x : Except String α} {f : α → Flow β} (hw : I w)
    (hf : ∀ a, x = .ok a → I (Prog.solo (answer sur) (f a) w).1) :
    I (Prog.solo (answer sur) (ofExcept x >>= f) w).1 :=
  solo_ofExcept_of (K := fun r => I r.1) (fun _ _ => hw) hf

/-- A status was stored only if both its calls went through. -/
theorem setStatus_goes {status : String} {u : Unit}
    (h : (Prog.solo (answer sur) (setStatus status) w).2 = .ok u) :
    (sur (.updateStatus status)).goes
      ∧ (sur (.event (.progress status))).goes := by
  unfold setStatus at h
  rw [Prog.solo_bind, Prog.solo_query] at h
  obtain ⟨v, hup, hlog⟩ := Prog.andThen_eq_ok h
  rw [Prog.solo_query] at hlog
  exact ⟨goes_of_answered hup, goes_of_answered hlog⟩

/-- A burn that takes effect is made, answered or not. -/
theorem burns_of_takes {messenger : String} {args : BurnArgs} {c : Choice}
    (h : c.takes) :
    (exec (.depositForBurnWithHook messenger args) c w).1.burns
      = w.burns ++ [args] := by
  cases c with
  | go d => rfl
  | fail => cases h
  | lost d => rfl

/-- A call that takes no effect fails and changes nothing. -/
theorem exec_of_not_takes {q : Call} {c : Choice} (h : ¬c.takes) :
    exec q c w = (w, .error "failed") := by
  cases c with
  | go d => exact absurd trivial h
  | fail => rfl
  | lost d => exact absurd trivial h

/-- What burns and mints have been made. -/
def Same (w w' : World) : Prop :=
  w'.burns = w.burns ∧ w'.delivered = w.delivered

variable (sur) in
/-- Code that neither burns nor mints leaves burns and mints as they
are. -/
theorem Same.solo {α : Type} {code : Flow α} (h : Same w w')
    (hcode : code.Uses fun q => ¬q.IsBurn ∧ ¬q.IsMint) :
    Same w (Prog.solo (answer sur) code w').1 := by
  refine Prog.solo_keeps (I := Same w) ?_ hcode h
  intro q s hq hs
  have heffect : Effect s q (answer sur q s).1 := effect_exec q (sur q) s
  exact ⟨(heffect.burns hq.1).trans hs.1,
    (heffect.delivered hq.2).trans hs.2⟩

-- ================================================== the operator's burn

/-- The allowance suffices, or is given. -/
theorem approveIfNeeded_goes {messenger : String} {amount6 : ℤ} {u : Unit}
    (h : (Prog.solo (answer sur) (approveIfNeeded messenger amount6) w).2
      = .ok u) :
    ∃ d, sur (.usdcAllowance messenger) = .go d ∧
      (d.amount < amount6 →
        (sur (.approve messenger (amount6 * 100))).goes
          ∧ (sur .approved).goes) := by
  unfold approveIfNeeded at h
  rw [Prog.solo_bind, Prog.solo_query] at h
  obtain ⟨allowance, hallow, h⟩ := Prog.andThen_eq_ok h
  obtain ⟨d, hd, hallow⟩ := exec_answered hallow
  obtain rfl : d.amount = allowance := Except.ok.inj hallow
  refine ⟨d, hd, fun hlow => ?_⟩
  rw [if_pos hlow, Prog.solo_bind, Prog.solo_query] at h
  obtain ⟨_, happrove, hwait⟩ := Prog.andThen_eq_ok h
  rw [Prog.solo_query] at hwait
  exact ⟨goes_of_answered happrove, goes_of_answered hwait⟩

/-- The burn is of the whole amount. -/
theorem burnArgs_amount {c : Contracts} {amount6 : ℤ} {fast : Bool}
    {maxFee6 : Option ℤ} {args : BurnArgs}
    (h : burnArgs lib c amount6 fast maxFee6 = .ok args) :
    args.amount = amount6 := by
  simp only [burnArgs, Exec.bind_eq_ok, Exec.pure_eq_ok] at h
  obtain ⟨_, -, _, -, _, -, rfl⟩ := h
  rfl

/-- What `submitBurn` passes, its burn included. -/
structure Submits (lib : Libraries) (c : Contracts) (q : InboundParams)
    (sur : Surroundings) (args : BurnArgs) : Prop where
  built : burnArgs lib c q.amount6 (q.fast.getD true) q.maxFee6 = .ok args
  funds : ∃ d, sur .usdcBalance = .go d ∧ args.amount ≤ d.amount
  allowance : ∃ d, sur (.usdcAllowance c.tokenMessenger) = .go d
    ∧ (d.amount < args.amount →
        (sur (.approve c.tokenMessenger (args.amount * 100))).goes
          ∧ (sur .approved).goes)
  burn : (sur (.depositForBurnWithHook c.tokenMessenger args)).takes

/-- A program that has thrown before its burn, or has come as far as
that. -/
def BurnsIf (submits : BurnArgs → Prop) {α : Type} (w : World)
    (r : World × Except String α) : Prop :=
  (Same w r.1 ∧ r.2.isOk = false)
    ∨ ∃ args, submits args ∧ r.1.burns = w.burns ++ [args]

variable (sur) in
/-- `submitBurn` burns if it gets to its burn, and once. -/
theorem submitBurn_burns (lib : Libraries) (c : Contracts)
    (q : InboundParams) (w : World) :
    BurnsIf (Submits lib c q sur) w
      (Prog.solo (answer sur) (submitBurn lib c q) w) := by
  have hsame : Same w w := ⟨rfl, rfl⟩
  have hsame := hsame.solo sur
    (Prog.uses_query (q := .usdcBalance) ⟨id, id⟩)
  unfold submitBurn
  refine Prog.solo_bind_of (fun _ _ => .inl ⟨hsame, rfl⟩)
    fun (bal : ℕ) hbal => ?_
  rw [Prog.solo_query] at hbal
  obtain ⟨d, hfunds, hbal⟩ := exec_answered hbal
  obtain rfl : d.amount = bal := Except.ok.inj hbal
  refine solo_ofExcept_of (fun _ _ => .inl ⟨hsame, rfl⟩) fun _ hcheck => ?_
  have henough : ¬(d.amount : ℤ) < q.amount6 := check_eq_ok.mp hcheck
  have hsame := hsame.solo sur
    (uses_approveIfNeeded (fun _ h => ⟨h.1, h.2.1⟩) c.tokenMessenger q.amount6)
  refine Prog.solo_bind_of (fun _ _ => .inl ⟨hsame, rfl⟩) fun _ hallow => ?_
  have hallow := approveIfNeeded_goes hallow
  refine solo_ofExcept_of (fun _ _ => .inl ⟨hsame, rfl⟩) fun args hargs => ?_
  rw [Prog.solo_query, answer]
  rw [← burnArgs_amount hargs] at henough hallow
  by_cases htakes : (sur (.depositForBurnWithHook c.tokenMessenger args)).takes
  · refine .inr ⟨args, ⟨hargs, ⟨d, hfunds, not_lt.mp henough⟩, hallow,
      htakes⟩, ?_⟩
    rw [burns_of_takes htakes, hsame.1]
  · rw [exec_of_not_takes htakes]
    exact .inl ⟨hsame, rfl⟩

/-- Code that does not burn leaves the burns as they are. -/
theorem burns_of_uses {α : Type} {code : Flow α}
    (hcode : code.Uses fun q => ¬q.IsBurn) :
    (Prog.solo (answer sur) code w).1.burns = w.burns := by
  refine Prog.solo_keeps (I := fun s : World => s.burns = w.burns) ?_ hcode rfl
  intro q s hq hs
  exact ((effect_exec q (sur q) s).burns hq).trans hs

/-- After its burn the flow burns no more. -/
theorem runCctpInbound_burns (lib : Libraries) (env : EnvMap)
    (q : InboundParams) (w : World) :
    Same w (Prog.solo (answer sur) (runCctpInbound lib env q) w).1 ∨
      ∃ c args, readContracts env q.targetContract = .ok c
        ∧ Submits lib c q sur args
        ∧ (Prog.solo (answer sur) (runCctpInbound lib env q) w).1.burns
          = w.burns ++ [args] := by
  unfold runCctpInbound
  rw [Prog.solo_bind, solo_ofExcept]
  cases hc : readContracts env q.targetContract with
  | error e => exact .inl ⟨rfl, rfl⟩
  | ok c =>
      rw [Prog.andThen_ok, Prog.solo_bind]
      have hsubmit := submitBurn_burns sur lib c q w
      cases hr : Prog.solo (answer sur) (submitBurn lib c q) w with
      | mk s r =>
          rw [hr] at hsubmit
          cases r with
          | error e =>
              rcases hsubmit with ⟨hsame, -⟩ | ⟨args, hargs, hburns⟩
              · exact .inl hsame
              · exact .inr ⟨c, args, rfl, hargs, hburns⟩
          | ok burnTxHash =>
              rcases hsubmit with ⟨-, hfailed⟩ | ⟨args, hargs, hburns⟩
              · cases hfailed
              · refine .inr ⟨c, args, rfl, hargs, ?_⟩
                refine (burns_of_uses ?_).trans hburns
                exact uses_completeInbound (fun _ h => h.1)
                  (fun _ _ _ => id) (fun _ _ _ => id) lib env c q burnTxHash

/-- Either nothing was burned and nothing minted, or the attempt came as
far as its burn. -/
def BurnsIfReached (lib : Libraries) (env : EnvMap) (p : InboundPayload)
    (sur : Surroundings) (w w' : World) : Prop :=
  Same w w' ∨ ∃ c args, ReachesBurn lib env p sur c args
    ∧ w'.burns = w.burns ++ [args]

/-- So an attempt's burns are decided by the time of its burn. -/
theorem BurnsIfReached.solo {α : Type} {code : Flow α}
    (h : BurnsIfReached lib env p sur w w')
    (hcode : code.Uses fun q => ¬q.IsBurn ∧ ¬q.IsMint) :
    BurnsIfReached lib env p sur w
      (Prog.solo (answer sur) code w').1 := by
  rcases h with hsame | ⟨c, args, hreach, hburns⟩
  · exact .inl (hsame.solo _ hcode)
  · refine .inr ⟨c, args, hreach, ?_⟩
    rw [burns_of_uses (hcode.mono fun _ h => h.1), hburns]

variable (sur) in
/-- The operator's branch burns if it gets to its burn. -/
theorem processCctpInbound_burns (lib : Libraries) (env : EnvMap)
    (p : InboundPayload) (w : World) :
    BurnsIfReached lib env p sur w
      (Prog.solo (answer sur) (processCctpInbound lib env p) w).1 := by
  have hsame : Same w w := ⟨rfl, rfl⟩
  unfold processCctpInbound
  refine solo_ofExcept_keeps (I := BurnsIfReached lib env p sur w)
    (.inl hsame) fun pool hpool => ?_
  refine solo_ofExcept_keeps (I := BurnsIfReached lib env p sur w)
    (.inl hsame) fun _ henabled => ?_
  have hsame := hsame.solo sur
    (uses_setStatus (fun _ h => ⟨h.1, h.2.1⟩) "burning")
  refine Prog.solo_bind_keeps (I := BurnsIfReached lib env p sur w)
    (.inl hsame) fun _ hstatus => ?_
  obtain ⟨hstatus, hlogged⟩ := setStatus_goes hstatus
  refine solo_ofExcept_keeps (I := BurnsIfReached lib env p sur w)
    (.inl hsame) fun amount6 hamount => ?_
  have hsame := hsame.solo sur
    (Prog.uses_query (q := .readCoin (p.coinPath.getD "undefined")) ⟨id, id⟩)
  refine Prog.solo_bind_keeps (I := BurnsIfReached lib env p sur w)
    (.inl hsame) fun coin hcoin => ?_
  rw [Prog.solo_query] at hcoin
  have hrun : ∀ s, Same w s → BurnsIfReached lib env p sur w
      (Prog.solo (answer sur)
        (runCctpInbound lib env (inboundParams p pool amount6 coin)) s).1 := by
    intro s hsame
    rcases runCctpInbound_burns lib env
        (inboundParams p pool amount6 coin) s with
      hrest | ⟨c, args, hc, hargs, hburns⟩
    · exact .inl ⟨hrest.1.trans hsame.1, hrest.2.trans hsame.2⟩
    · refine .inr ⟨c, args, ?_, by rw [hburns, hsame.1]⟩
      refine ⟨?_, hstatus, hlogged, goes_of_answered hcoin, hargs.funds,
        hargs.allowance, hargs.burn⟩
      simp only [plannedBurn, Exec.bind_eq_ok, Exec.pure_eq_ok]
      exact ⟨pool, hpool, (), check_eq_ok.mpr (check_eq_ok.mp henabled),
        amount6, hamount, c, hc, args, hargs.built, rfl⟩
  have hrun := hrun _ hsame
  exact Prog.solo_bind_keeps (I := BurnsIfReached lib env p sur w) hrun
    fun _ _ => hrun

variable (lib env sur w) in
/-- An attempt of an operator's job. -/
theorem attempt_burns (hjob : job.type = .CCTP_INBOUND) :
    BurnsIfReached lib env job.payload sur w
      (attempt lib env job sur w) := by
  have hprocess := processCctpInbound_burns sur lib env job.payload
    w.claim
  unfold attempt runClaimed
  rw [hjob]
  have hplain : ∀ q : Call, q.Plain → ¬q.IsBurn ∧ ¬q.IsMint :=
    fun _ h => ⟨h.1, h.2.1⟩
  have hdone := Prog.solo_bind_keeps
    (I := BurnsIfReached lib env job.payload sur w.claim) hprocess
    fun _ _ => hprocess.solo (uses_complete hplain)
  exact Prog.solo_tryCatch_keeps
    (I := BurnsIfReached lib env job.payload sur w.claim) hdone
    fun _ _ => hdone.solo (uses_fail hplain)

-- the way there, passed

/-- A call that goes through is performed. -/
theorem answer_of_go {q : Call} {d : Draw} (h : sur q = .go d) :
    answer sur q w = perform q d w := by
  rw [answer, h]
  rfl

/-- Something is drawn for it. -/
theorem Choice.goes.exists {c : Choice} (h : c.goes) : ∃ d, c = .go d := by
  cases c with
  | go d => exact ⟨d, rfl⟩
  | fail => cases h
  | lost d => cases h

/-- Storing a status changes the status only. -/
theorem setStatus_of_goes {status : String}
    (hup : (sur (.updateStatus status)).goes)
    (hlog : (sur (.event (.progress status))).goes) :
    Prog.solo (answer sur) (setStatus status) w
      = ({ w with status := .progress status }, .ok ()) := by
  obtain ⟨d, hd⟩ := hup.exists
  obtain ⟨e, he⟩ := hlog.exists
  unfold setStatus
  simp only [Prog.solo_bind, Prog.solo_query, answer_of_go hd, perform,
    Prog.andThen_ok, answer_of_go he]

/-- An approval changes nothing here. -/
theorem approveIfNeeded_of_goes {messenger : String} {amount6 : ℤ}
    {d : Draw} (hd : sur (.usdcAllowance messenger) = .go d)
    (hlow : d.amount < amount6 →
      (sur (.approve messenger (amount6 * 100))).goes
        ∧ (sur .approved).goes) :
    Prog.solo (answer sur) (approveIfNeeded messenger amount6) w
      = (w, .ok ()) := by
  unfold approveIfNeeded
  simp only [Prog.solo_bind, Prog.solo_query, answer_of_go hd, perform,
    Prog.andThen_ok]
  by_cases h : (d.amount : ℤ) < amount6
  · obtain ⟨happrove, hwait⟩ := hlow h
    obtain ⟨e, he⟩ := happrove.exists
    obtain ⟨e', he'⟩ := hwait.exists
    simp only [if_pos h, Prog.solo_bind, Prog.solo_query, answer_of_go he,
      perform, Prog.andThen_ok, answer_of_go he']
  · rw [if_neg h, Prog.solo_pure]

/-- What is left of `submitBurn` is its burn. -/
theorem Submits.solo {c : Contracts} {q : InboundParams} {args : BurnArgs}
    (h : Submits lib c q sur args) (w : World) :
    Prog.solo (answer sur) (submitBurn lib c q) w
      = answer sur (.depositForBurnWithHook c.tokenMessenger args) w := by
  obtain ⟨hbuilt, ⟨d, hd, hfunds⟩, ⟨d', hd', hallow⟩, -⟩ := h
  have hamount := burnArgs_amount hbuilt
  have henough : check ((d.amount : ℤ) < q.amount6)
      ("insufficient USDC: have " ++ toString d.amount ++ ", need "
        ++ toString q.amount6) = .ok () :=
    check_eq_ok.mpr (not_lt.mpr (hamount ▸ hfunds))
  unfold submitBurn
  simp only [Prog.solo_bind, Prog.solo_query, answer_of_go hd, perform,
    Prog.andThen_ok, solo_ofExcept, henough, hbuilt,
    approveIfNeeded_of_goes hd' (hamount ▸ hallow)]

/-- Under `Submits` the burn is made. -/
theorem Submits.burns {c : Contracts} {q : InboundParams} {args : BurnArgs}
    (h : Submits lib c q sur args) (w : World) :
    (Prog.solo (answer sur) (submitBurn lib c q) w).1.burns
      = w.burns ++ [args] := by
  rw [h.solo w]
  exact burns_of_takes h.burn

/-- Under `ReachesBurn` the attempt makes it. -/
theorem ReachesBurn.burns {c : Contracts} {args : BurnArgs}
    (hjob : job.type = .CCTP_INBOUND)
    (h : ReachesBurn lib env job.payload sur c args) (w : World) :
    (attempt lib env job sur w).burns = w.burns ++ [args] := by
  obtain ⟨hplanned, hstatus, hlogged, hcoin, hfunds, hallow, hburn⟩ := h
  simp only [plannedBurn, Exec.bind_eq_ok, Exec.pure_eq_ok] at hplanned
  obtain ⟨pool, hpool, u, henabled, amount6, hamount, c', hc, args', hbuilt,
    heq⟩ := hplanned
  obtain ⟨rfl, rfl⟩ := Prod.mk.inj heq
  have henabled : ∀ message, check
      (env "ENABLE_OPERATOR_TESTNET_DEPOSIT" ≠ some "true") message
        = .ok () :=
    fun message => check_eq_ok.mpr (check_eq_ok.mp henabled)
  obtain ⟨d, hd⟩ := hcoin.exists
  have hsubmits : Submits lib c'
      (inboundParams job.payload pool amount6 d.coin) sur args' :=
    ⟨hbuilt, hfunds, hallow, hburn⟩
  -- the program up to the flow, and what follows the burn
  have hflow : ∀ s : World, (Prog.solo (answer sur)
      (runCctpInbound lib env
        (inboundParams job.payload pool amount6 d.coin)) s).1.burns
      = s.burns ++ [args'] := by
    intro s
    unfold runCctpInbound
    rw [Prog.solo_bind, solo_ofExcept]
    have hc : readContracts env
        (inboundParams job.payload pool amount6 d.coin).targetContract
      = .ok c' := hc
    rw [hc, Prog.andThen_ok]
    refine Prog.solo_bind_keeps
      (I := fun s' : World => s'.burns = s.burns ++ [args'])
      (hsubmits.burns s) fun burnTxHash _ => ?_
    rw [burns_of_uses (uses_completeInbound (fun _ h => h.1)
      (fun _ _ _ => id) (fun _ _ _ => id) lib env c' _ burnTxHash)]
    exact hsubmits.burns s
  have hprocess : (Prog.solo (answer sur)
      (processCctpInbound lib env job.payload) w.claim).1.burns
      = w.burns ++ [args'] := by
    unfold processCctpInbound
    simp only [Prog.solo_bind, solo_ofExcept, hpool, Prog.andThen_ok,
      henabled, setStatus_of_goes hstatus hlogged, hamount,
      Prog.solo_query, answer_of_go hd, perform]
    exact (congrArg World.burns
      (Prog.andThen_pure _ fun _ => ())).trans (hflow _)
  unfold attempt runClaimed
  rw [hjob]
  have hquiet : ∀ {s : World} {α : Type} {code : Flow α},
      s.burns = w.burns ++ [args'] → code.Uses Call.Plain →
      (Prog.solo (answer sur) code s).1.burns = w.burns ++ [args'] :=
    fun hs hcode => (burns_of_uses (hcode.mono fun _ h => h.1)).trans hs
  have hdone := Prog.solo_bind_keeps
    (I := fun s : World => s.burns = w.burns ++ [args']) hprocess
    fun _ _ => hquiet hprocess (uses_complete fun _ h => h)
  exact Prog.solo_tryCatch_keeps
    (I := fun s : World => s.burns = w.burns ++ [args']) hdone
    fun _ _ => hquiet hdone (uses_fail fun _ h => h)

/-- The number it returns is the text's. -/
theorem toBigInt_eq_ok {text : String} {n : ℤ} :
    toBigInt text = .ok n ↔ n ∈ bigInt text := by
  unfold toBigInt
  cases bigInt text with
  | none => simp
  | some m => simp

/-- In a normal attempt every call goes through. -/
theorem Normal.goes (h : Normal lib env job w sur) (q : Call) :
    (sur q).goes := by
  obtain ⟨d, hd, -⟩ := h q
  rw [hd]
  trivial

/-- A call that goes through takes effect. -/
theorem Choice.goes.takes {c : Choice} (h : c.goes) : c.takes := by
  cases c with
  | go d => trivial
  | fail => cases h
  | lost d => trivial

/-- A normal attempt of a job that is in order comes as far as its
burn. -/
theorem Normal.reachesBurn {c : Contracts} {args : BurnArgs}
    (hjob : job.type = .CCTP_INBOUND) (h : Normal lib env job w sur)
    (hplanned : plannedBurn lib env job.payload = .ok (c, args)) :
    ReachesBurn lib env job.payload sur c args := by
  have hamount : args.amount ∈ job.amount6 := by
    simp only [plannedBurn, Exec.bind_eq_ok, Exec.pure_eq_ok] at hplanned
    obtain ⟨_, -, _, -, amount6, hamount, _, -, args', hbuilt, heq⟩ :=
      hplanned
    obtain ⟨rfl, rfl⟩ := Prod.mk.inj heq
    unfold InboundJob.amount6
    rw [hjob, burnArgs_amount hbuilt]
    exact toBigInt_eq_ok.mp hamount
  obtain ⟨d, hd, hfunds⟩ := h .usdcBalance
  obtain ⟨d', hd', -⟩ := h (.usdcAllowance c.tokenMessenger)
  exact ⟨hplanned, h.goes _, h.goes _, h.goes _,
    ⟨d, hd, hfunds _ hamount⟩, ⟨d', hd', fun _ => ⟨h.goes _, h.goes _⟩⟩,
    (h.goes _).takes⟩

-- ======================================================= the user's burn

/-- Every call of the program that mints, mints a message of this
burn. -/
def MintsOnly (burnTxHash : String) : Call → Prop
  | .depositForBurnWithHook _ _ => False
  | .mintAndForward _ _ att => att.message.burnTxHash = burnTxHash
  | _ => True

/-- A call that neither burns nor mints. -/
theorem mintsOnly_of_plain {burnTxHash : String} (q : Call)
    (h : ¬q.IsBurn ∧ ¬q.IsMint) : MintsOnly burnTxHash q := by
  cases q with
  | depositForBurnWithHook messenger args => exact h.1 trivial
  | mintAndForward pool forwarder att => exact absurd trivial h.2
  | _ => trivial

/-- What an attempt of a user's job leaves of the outside: nothing is
burned, and what the relayer has delivered is of this burn, and
received. -/
structure UserInv (burnTxHash : String) (w : World) : Prop where
  burns : w.burns = []
  delivered : ∀ m ∈ w.delivered, m.burnTxHash = burnTxHash
  received : ∀ m ∈ w.delivered, m ∈ w.received

/-- A call of the user's flow keeps its invariant: what it mints was
attested for the one burn. -/
theorem UserInv.exec {burnTxHash : String} (h : UserInv burnTxHash w)
    {q : Call} (hq : MintsOnly burnTxHash q) :
    UserInv burnTxHash (answer sur q w).1 := by
  have heffect : Effect w q (answer sur q w).1 := effect_exec q (sur q) w
  generalize (answer sur q w).1 = w' at heffect ⊢
  cases heffect with
  | quiet _ => exact h
  | burned => cases hq
  | minted _ =>
      refine ⟨h.burns, fun m hm => ?_, fun m hm => ?_⟩
      · rcases List.mem_append.mp hm with hm | hm
        · exact h.delivered m hm
        · rw [List.mem_singleton.mp hm]
          exact hq
      · rcases List.mem_append.mp hm with hm | hm
        · exact List.mem_append_left _ (h.received m hm)
        · exact List.mem_append_right _ hm
  | registered _ => exact ⟨h.burns, h.delivered, h.received⟩
  | moved _ _ => exact ⟨h.burns, h.delivered, h.received⟩

section User

variable {I : World → Prop}

/-- What every call of the flow keeps, the flow keeps. -/
theorem runPostUserBurn_keeps (q : PostUserBurnParams)
    (hcall : ∀ call s, MintsOnly q.burnTxHash call → I s →
      I (answer sur call s).1) (hw : I w) :
    I (Prog.solo (answer sur) (runPostUserBurnCctpInbound lib env q) w).1 := by
  unfold runPostUserBurnCctpInbound
  refine solo_ofExcept_keeps hw fun sac _ => ?_
  refine solo_ofExcept_keeps hw fun _ _ => ?_
  have hpolled : I (answer sur
      (.pollAttestation arbitrumSepoliaDomain q.burnTxHash) w).1 :=
    hcall _ _ trivial hw
  refine Prog.solo_bind_keeps ?_ fun (att : CctpAttestation) hatt => ?_
  · rw [Prog.solo_query]
    exact hpolled
  rw [Prog.solo_query] at hatt ⊢
  obtain ⟨d, -, hatt⟩ := exec_answered hatt
  have hhash : att.message.burnTxHash = q.burnTxHash := by
    rw [← Except.ok.inj hatt]
  have hplain : ∀ call : Call, call.Plain → MintsOnly q.burnTxHash call :=
    fun call h => mintsOnly_of_plain call ⟨h.1, h.2.1⟩
  refine Prog.solo_keeps hcall ?_ hpolled
  exact (uses_mintForward (fun _ => trivial) hhash).bind fun m =>
    (uses_ofExcept _).bind fun _ =>
      uses_registerPostUserBurn hplain (fun _ _ _ => trivial) lib q _ att m

/-- With its message received, the flow comes no further than the mint. -/
theorem runPostUserBurn_blocked (q : PostUserBurnParams)
    (hused : w.Used q.burnTxHash) :
    (Prog.solo (answer sur) (runPostUserBurnCctpInbound lib env q) w).1.deposits
        = w.deposits
      ∧ (Prog.solo (answer sur) (runPostUserBurnCctpInbound lib env q) w).1.Used
        q.burnTxHash := by
  let I (s : World) : Prop :=
    s.deposits = w.deposits ∧ s.Used q.burnTxHash
  have hcall : ∀ call s, ¬call.IsDeposit → I s → I (answer sur call s).1 :=
    fun call s hcall hs =>
      have heffect := effect_exec call (sur call) s
      ⟨(heffect.deposits hcall).trans hs.1, heffect.used hs.2⟩
  have hquiet : ∀ {s : World} {α : Type} {code : Flow α}, I s →
      code.Uses (fun call => ¬call.IsDeposit) →
      I (Prog.solo (answer sur) code s).1 :=
    fun hs hcode => Prog.solo_keeps hcall hcode hs
  show I _
  unfold runPostUserBurnCctpInbound
  refine solo_ofExcept_keeps ⟨rfl, hused⟩ fun sac _ => ?_
  refine solo_ofExcept_keeps ⟨rfl, hused⟩ fun _ _ => ?_
  have hpolled : I (answer sur
      (.pollAttestation arbitrumSepoliaDomain q.burnTxHash) w).1 :=
    hcall _ _ id ⟨rfl, hused⟩
  refine Prog.solo_bind_keeps ?_ fun (att : CctpAttestation) hatt => ?_
  · rw [Prog.solo_query]
    exact hpolled
  rw [Prog.solo_query] at hatt ⊢
  obtain ⟨d, -, hatt⟩ := exec_answered hatt
  have hhash : att.message.burnTxHash = q.burnTxHash := by
    rw [← Except.ok.inj hatt]
  refine Prog.solo_bind_keeps
    (hquiet hpolled (uses_mintForward (fun _ => id) id))
    fun m hm => absurd hm ?_
  -- the mint is made in a state that has received its message
  unfold mintForward
  refine Prog.solo_bind_of (K := fun r => r.2 ≠ .ok m)
    (fun _ _ => nofun) fun before _ => ?_
  have hread : I (Prog.solo (answer sur)
      (sacBalance .before sac q.pool 5) _).1 :=
    hquiet hpolled (uses_sacBalance (fun _ => id) 5)
  refine Prog.solo_bind_of (K := fun r => r.2 ≠ .ok m)
    (fun _ _ => nofun) fun txHash htx => ?_
  rw [Prog.solo_query] at htx
  obtain ⟨e, -, htx⟩ := exec_answered htx
  simp only [perform, hhash, if_pos hread.2] at htx
  cases htx

variable
  (hplain : ∀ call s, call.Plain → I s → I (answer sur call s).1)

include hplain in
/-- What the flow keeps, its branch keeps. -/
theorem processAfterUserBurn_keeps (p : InboundPayload)
    (hflow : ∀ (q : PostUserBurnParams) s, q.burnTxHash = p.burnTxHash →
      I s → I (Prog.solo (answer sur)
        (runPostUserBurnCctpInbound lib env q) s).1) (hw : I w) :
    I (Prog.solo (answer sur) (processAfterUserBurn lib env p) w).1 := by
  have hquiet : ∀ {s : World} {α : Type} {code : Flow α},
      I s → code.Uses Call.Plain → I (Prog.solo (answer sur) code s).1 :=
    fun hs hcode => Prog.solo_keeps hplain hcode hs
  have hstatus : ∀ {s : World} (status : String), I s →
      I (Prog.solo (answer sur) (setStatus status) s).1 :=
    fun status hs => hquiet hs (uses_setStatus (fun _ h => h) status)
  unfold processAfterUserBurn
  refine solo_ofExcept_keeps hw fun pool _ => ?_
  have hw := hstatus "validating_burn" hw
  refine Prog.solo_bind_keeps hw fun _ _ => ?_
  refine solo_ofExcept_keeps hw fun expected _ => ?_
  have hw := hquiet hw
    (uses_validateInboundBurnTx (fun _ h => h) lib env expected)
  refine Prog.solo_bind_keeps hw fun v _ => ?_
  have hw := hstatus "burn_validated" hw
  refine Prog.solo_bind_keeps hw fun _ _ => ?_
  unfold completeUserBurn
  split
  · exact hstatus _ hw
  · rename_i path _
    have hw := hstatus "completing_stellar_side" hw
    refine Prog.solo_bind_keeps hw fun _ _ => ?_
    have hw := hquiet hw
      (Prog.uses_query (q := .readCoin path) ⟨id, id, id⟩)
    refine Prog.solo_bind_keeps hw fun coin _ => ?_
    have hw := hflow (postUserBurnParams p pool v.args.amount coin) _ rfl hw
    exact Prog.solo_bind_keeps hw fun _ _ => hstatus _ hw

include hplain in
/-- What the flow and the queue's calls keep, an attempt keeps. -/
theorem attempt_keeps (hjob : job.type = .CCTP_INBOUND_AFTER_USER_BURN)
    (hflow : ∀ (q : PostUserBurnParams) s,
      q.burnTxHash = job.payload.burnTxHash → I s →
      I (Prog.solo (answer sur) (runPostUserBurnCctpInbound lib env q) s).1)
    (hclaim : I w.claim) : I (attempt lib env job sur w) := by
  have hprocess : I (Prog.solo (answer sur)
      (processAfterUserBurn lib env job.payload) w.claim).1 :=
    processAfterUserBurn_keeps hplain job.payload hflow hclaim
  unfold attempt runClaimed
  rw [hjob]
  have hdone := Prog.solo_bind_keeps hprocess fun _ _ =>
    Prog.solo_keeps hplain (uses_complete fun _ h => h) hprocess
  exact Prog.solo_tryCatch_keeps hdone fun _ _ =>
    Prog.solo_keeps hplain (uses_fail fun _ h => h) hdone

end User

/-- So every attempt at a user's job keeps the invariant. -/
theorem UserInv.attempt (hjob : job.type = .CCTP_INBOUND_AFTER_USER_BURN)
    (h : UserInv job.payload.burnTxHash w) :
    UserInv job.payload.burnTxHash (attempt lib env job sur w) := by
  refine attempt_keeps ?_ hjob ?_ ⟨h.burns, h.delivered, h.received⟩
  · exact fun call s hcall hs =>
      hs.exec (mintsOnly_of_plain call ⟨hcall.1, hcall.2.1⟩)
  · intro q s hq hs
    refine runPostUserBurn_keeps q (fun call s hcall hs => ?_) hs
    exact hs.exec (hq ▸ hcall)

/-- A user's job whose message has been delivered registers nothing. -/
theorem UserInv.blocked (hjob : job.type = .CCTP_INBOUND_AFTER_USER_BURN)
    (h : UserInv job.payload.burnTxHash w) (hdelivered : w.delivered ≠ []) :
    (Inbound.attempt lib env job sur w).deposits = w.deposits := by
  obtain ⟨m, hm⟩ := List.exists_mem_of_ne_nil _ hdelivered
  have hused : w.Used job.payload.burnTxHash :=
    ⟨m, h.received m hm, h.delivered m hm⟩
  let I (s : World) : Prop :=
    s.deposits = w.deposits ∧ s.Used job.payload.burnTxHash
  suffices hkeeps : I (Inbound.attempt lib env job sur w) from hkeeps.1
  refine attempt_keeps ?_ hjob ?_ ⟨rfl, hused⟩
  · intro call s hcall hs
    have heffect := effect_exec call (sur call) s
    exact ⟨(heffect.deposits hcall.2.2).trans hs.1, heffect.used hs.2⟩
  · intro q s hq hs
    obtain ⟨hdeposits, hstill⟩ := runPostUserBurn_blocked q (hq ▸ hs.2)
    exact ⟨hdeposits.trans hs.1, hq ▸ hstill⟩

-- ====================================================== when all is well

/-- A reading that is current is the balance. -/
theorem sacBalance_current {point : ℕ → ReadAt} {sac contract : String}
    (h : ∀ tries, ∃ d, sur (.sacBalance (point tries) sac contract) = .go d
      ∧ d.reading = .current) (tries : ℕ) :
    Prog.solo (answer sur) (sacBalance point sac contract (tries + 1)) w
      = (w, .ok (w.balance contract : ℤ)) := by
  obtain ⟨d, hd, hreading⟩ := h tries
  unfold sacBalance
  simp only [Prog.solo_bind, Prog.solo_query, answer_of_go hd, perform,
    hreading, Reading.shows, Prog.andThen_ok, Prog.solo_pure]

/-- With readings up to date, the mint shows at the first look. -/
theorem mintForward_current {sac pool forwarder : String}
    {att : CctpAttestation} {d : Draw}
    (hread : ∀ point, ∃ d, sur (.sacBalance point sac pool) = .go d
      ∧ d.reading = .current)
    (hmint : sur (.mintAndForward pool forwarder att) = .go d)
    (hnew : ¬w.Used att.message.burnTxHash)
    (hpool : att.message.forwardRecipient = pool)
    (hpos : 0 < att.message.amount7) :
    Prog.solo (answer sur) (mintForward sac pool forwarder att) w
      = (w.mint att.message,
          .ok ⟨d.text, w.balance pool,
            w.balance pool + att.message.amount7⟩) := by
  have hafter : ((w.mint att.message).balance pool : ℤ)
      = w.balance pool + att.message.amount7 := by
    show ((Function.update w.balance att.message.forwardRecipient _ pool : ℕ)
      : ℤ) = _
    rw [hpool, Function.update_self, Nat.cast_add]
  have hshows : ¬((w.balance pool : ℤ) + att.message.amount7
      ≤ w.balance pool) := by omega
  unfold mintForward
  simp only [Prog.solo_bind, Prog.solo_query,
    sacBalance_current (fun tries => hread _) 4, Prog.andThen_ok,
    answer_of_go hmint, perform, if_neg hnew, hafter, pollBalance,
    if_neg hshows, Prog.solo_pure]

/-- Code that makes no deposit leaves the deposits as they are. -/
theorem deposits_of_uses {α : Type} {code : Flow α}
    (hcode : code.Uses fun q => ¬q.IsDeposit) :
    (Prog.solo (answer sur) code w).1.deposits = w.deposits := by
  refine Prog.solo_keeps (I := fun s : World => s.deposits = w.deposits)
    ?_ hcode rfl
  intro q s hq hs
  exact ((effect_exec q (sur q) s).deposits hq).trans hs

/-- The job is in order: what it needs is in its environment and in its
payload, and it names its note. -/
def Ready (lib : Libraries) (env : EnvMap) (job : InboundJob) : Prop :=
  match job.type with
  | .CCTP_INBOUND => ∃ c args, plannedBurn lib env job.payload = .ok (c, args)
  | .CCTP_INBOUND_AFTER_USER_BURN =>
      (relayerPool env job.payload).isOk
        ∧ (expectedBurn job.payload (poolOf env job.payload)).isOk
        ∧ (job.payload.coinPath.filter (· ≠ "")).isSome
        ∧ (need env "STELLAR_TESTNET_USDC_SAC_CONTRACT").isOk

/-- The pool a job is processed for is its pool. -/
theorem relayerPool_eq {pool : String} (h : relayerPool env p = .ok pool) :
    pool = poolOf env p := by
  simp only [relayerPool, Exec.bind_eq_ok, Exec.pure_eq_ok] at h
  obtain ⟨_, -, rfl⟩ := h
  rfl

/-- A normal registration of the user's burn registers one deposit. -/
theorem registerPostUserBurn_deposits (sac : String)
    (att : CctpAttestation) {q : PostUserBurnParams} {m : Minted}
    {coin : GeneratedCoin} (hcoin : q.coin = some coin)
    (h : ∀ call, (sur call).goes)
    (hproof : ∀ binding, ∃ d, sur (.buildDepositProof coin binding) = .go d
      ∧ d.proof.locallyVerified = true)
    (hnew : ¬w.Registered q.pool (stripHex (lib.keccak256 att.message))) :
    ∃ args : ReceiveArgs, args.commitment = stripHex q.commitmentHex ∧
      (Prog.solo (answer sur) (registerPostUserBurn lib q sac att m) w).1.deposits
        = w.deposits ++ [⟨q.pool, args⟩] := by
  choose d hd hverified using hproof
  choose e he using fun call => (h call).exists
  unfold registerPostUserBurn
  simp only [hcoin, Prog.solo_bind, Prog.solo_query, answer_of_go (hd _),
    perform, Prog.andThen_ok, solo_ofExcept, hverified, check,
    Bool.true_eq_false, if_false, answer_of_go (he (.receiveCctpDeposit _ _ _)),
    answer_of_go (he (.readRoot _ _)), if_neg hnew, Prog.solo_pure]
  exact ⟨_, rfl, rfl⟩

variable (env) in
/-- A normal registration of the operator's likewise. -/
theorem registerInbound_deposits (c : Contracts) (burnTxHash : String)
    (att : CctpAttestation) {q : InboundParams} {m : Minted}
    {coin : GeneratedCoin} {pool root : String}
    (htarget : q.targetContract = some pool) (hcoin : q.coin = some coin)
    (hroot : q.newRootHex = some root) (hvault : c.vault = pool)
    (h : ∀ call, (sur call).goes)
    (hproof : ∀ binding, ∃ d, sur (.buildDepositProof coin binding) = .go d
      ∧ d.proof.locallyVerified = true)
    (hnew : ¬w.Registered pool (stripHex (lib.keccak256 att.message))) :
    ∃ args : ReceiveArgs, args.commitment = stripHex q.commitmentHex ∧
      (Prog.solo (answer sur)
        (registerInbound lib env c q burnTxHash att m) w).1.deposits
        = w.deposits ++ [⟨pool, args⟩] := by
  choose d hd hverified using hproof
  choose e he using fun call => (h call).exists
  unfold registerInbound depositProofArgs newRootArg
  simp only [htarget, hcoin, hroot, hvault, Prog.solo_bind, Prog.solo_query,
    answer_of_go (hd _), perform, Prog.andThen_ok, solo_ofExcept,
    hverified, check, Bool.true_eq_false, if_false,
    answer_of_go (he (.receiveCctpDeposit _ _ _)), if_neg hnew,
    Option.elim_some, answer_of_go (he (.readRoot _ _)), Prog.solo_pure]
  exact ⟨_, rfl, rfl⟩

/-- The pool has not seen the burn's message. -/
structure World.Unseen (lib : Libraries) (w : World)
    (pool burnTxHash : String) : Prop where
  used : ¬w.Used burnTxHash
  registered : ∀ m, m.burnTxHash = burnTxHash →
    ¬w.Registered pool (stripHex (lib.keccak256 m))

/-- In a normal attempt the proof verifies, -/
theorem Normal.verified (h : Normal lib env job w sur)
    (coin : GeneratedCoin) (binding : DepositBinding) :
    ∃ d, sur (.buildDepositProof coin binding) = .go d
      ∧ d.proof.locallyVerified = true :=
  h _

/-- and the balance is read as it is. -/
theorem Normal.current (h : Normal lib env job w sur)
    (point : ReadAt) (sac pool : String) :
    ∃ d, sur (.sacBalance point sac pool) = .go d
      ∧ d.reading = .current :=
  h _

/-- A variable that is set is found. -/
theorem need_of_ne {key : String} (h : (env key).getD "" ≠ "") :
    ∃ v, need env key = .ok v := by
  unfold need
  cases hv : env key with
  | none =>
      rw [hv] at h
      exact absurd rfl h
  | some v =>
      rw [hv] at h
      have hne : v ≠ "" := h
      refine ⟨v, ?_⟩
      rw [Option.filter_some, if_pos (decide_eq_true hne)]

/-- The Stellar side of a user's burn. -/
theorem runPostUserBurn_registers {q : PostUserBurnParams}
    {coin : GeneratedCoin} {s : World}
    (h : Normal lib env job w sur)
    (hpool : q.pool = poolOf env job.payload) (hcoin : q.coin = some coin)
    (hsac : ∃ v, need env "STELLAR_TESTNET_USDC_SAC_CONTRACT" = .ok v)
    (hsecret : ∃ v, need env "STELLAR_RELAYER_SECRET" = .ok v)
    (hnew : s.Unseen lib q.pool q.burnTxHash) :
    ∃ args : ReceiveArgs, args.commitment = stripHex q.commitmentHex ∧
      (Prog.solo (answer sur)
        (runPostUserBurnCctpInbound lib env q) s).1.deposits
        = s.deposits ++ [⟨q.pool, args⟩] := by
  obtain ⟨sac, hsac⟩ := hsac
  obtain ⟨secret, hsecret⟩ := hsecret
  obtain ⟨d, hd, hrecipient, hpos, -⟩ :=
    h (.pollAttestation arbitrumSepoliaDomain q.burnTxHash)
  have hpoll : sur (.pollAttestation arbitrumSepoliaDomain q.burnTxHash)
      = .go d := hd
  let att : CctpAttestation :=
    ⟨{ d.message with burnTxHash := q.burnTxHash }, d.text⟩
  obtain ⟨e, he⟩ := (h.goes (.mintAndForward q.pool
    ((env "STELLAR_CCTP_FORWARDER_CONTRACT").getD stellarCctpForwarder)
    att)).exists
  have hmint := mintForward_current (w := s)
    (fun point => h.current point sac q.pool) he hnew.used
    (hrecipient.trans hpool.symm) hpos
  have hshows : ¬((s.balance q.pool : ℤ) + att.message.amount7
      - s.balance q.pool ≤ 0) := by
    have : (0 : ℤ) < att.message.amount7 := Int.natCast_pos.mpr hpos
    omega
  unfold runPostUserBurnCctpInbound
  simp only [Prog.solo_bind, solo_ofExcept, hsac, hsecret, Prog.andThen_ok,
    Prog.solo_query, answer_of_go hpoll, perform]
  have hreg := registerPostUserBurn_deposits sac att
    (m := ⟨e.text, s.balance q.pool,
      s.balance q.pool + att.message.amount7⟩)
    (w := s.mint att.message) hcoin h.goes (h.verified coin)
    (hnew.registered _ rfl)
  obtain ⟨args, hargs, hreg⟩ := hreg
  refine ⟨args, hargs, ?_⟩
  rw [hmint]
  simp only [Prog.andThen_ok, check, if_neg hshows]
  exact hreg

/-- What is registered stays so to the end of the attempt. -/
theorem runClaimed_registers {work : Flow Unit} {s : World}
    {deposits : List Deposit}
    (h : (Prog.solo (answer sur) work s).1.deposits = deposits) :
    (Prog.solo (answer sur) (runClaimed work) s).1.deposits = deposits := by
  unfold runClaimed
  have hdone := Prog.solo_bind_keeps
    (I := fun s : World => s.deposits = deposits) h
    fun _ _ => (deposits_of_uses (uses_complete fun _ h => h.2.2)).trans h
  exact Prog.solo_tryCatch_keeps
    (I := fun s : World => s.deposits = deposits) hdone
    fun _ _ => (deposits_of_uses (uses_fail fun _ h => h.2.2)).trans hdone

/-- An attempt of a user's job that comes as far as its flow: the burn is
validated, and the note is at hand. -/
structure Validated (lib : Libraries) (env : EnvMap) (p : InboundPayload)
    (sur : Surroundings) (v : BurnValidation) (coin : GeneratedCoin) :
    Prop where
  pool : relayerPool env p = .ok (poolOf env p)
  status : ∀ status, (sur (.updateStatus status)).goes
    ∧ (sur (.event (.progress status))).goes
  valid : ∃ a d d' tx, expectedBurn p (poolOf env p) = .ok a
    ∧ sur (.getTransaction a.burnTxHash) = .go d ∧ d.tx = some tx
    ∧ sur (.getTransactionReceipt a.burnTxHash) = .go d'
    ∧ d'.receipt = some 1 ∧ validateBurn lib env a tx 1 = .ok v
  coin : ∃ path d, p.coinPath.filter (· ≠ "") = some path
    ∧ sur (.readCoin path) = .go d ∧ d.coin = coin

/-- The flow, and what the worker does after it. -/
def userFlow (lib : Libraries) (env : EnvMap) (p : InboundPayload)
    (v : BurnValidation) (coin : GeneratedCoin) : Flow Unit := do
  let _result ← runPostUserBurnCctpInbound lib env
    (postUserBurnParams p (poolOf env p) v.args.amount coin)
  setStatus "note_registered"

/-- After its validation an attempt is the user's flow. -/
theorem Validated.attempt {v : BurnValidation} {coin : GeneratedCoin}
    (hjob : job.type = .CCTP_INBOUND_AFTER_USER_BURN)
    (h : Validated lib env job.payload sur v coin) :
    attempt lib env job sur w
      = (Prog.solo (answer sur)
          (runClaimed (userFlow lib env job.payload v coin))
          { w.claim with
            status := .progress "completing_stellar_side" }).1 := by
  obtain ⟨hpool, hstatus, ⟨a, d, d', tx, hexpected, hd, htx, hd', hreceipt,
    hvalid⟩, path, e, hpath, he, rfl⟩ := h
  have hstatus : ∀ (status : String) (s : World),
      Prog.solo (answer sur) (setStatus status) s
        = ({ s with status := .progress status }, .ok ()) :=
    fun status s => setStatus_of_goes (hstatus status).1 (hstatus status).2
  unfold Inbound.attempt runClaimed userFlow
  rw [hjob]
  show (Prog.solo (answer sur)
    (tryCatch (processAfterUserBurn lib env job.payload >>= _) _) _).1 = _
  unfold processAfterUserBurn completeUserBurn validateInboundBurnTx
  simp only [Prog.solo_tryCatch, Prog.solo_bind, solo_ofExcept, hpool,
    Prog.andThen_ok, hstatus, hexpected, Prog.solo_query, answer_of_go hd,
    perform, htx, answer_of_go hd', hreceipt, hvalid, hpath,
    answer_of_go he]

/-- A normal attempt at a job whose burn is ready validates it. -/
theorem Normal.validated (h : Normal lib env job w sur)
    (hjob : job.type = .CCTP_INBOUND_AFTER_USER_BURN)
    (hready : Ready lib env job) :
    ∃ v coin, Validated lib env job.payload sur v coin := by
  unfold Ready at hready
  rw [hjob] at hready
  obtain ⟨hpool, hexpected, hcoin, -⟩ := hready
  obtain ⟨pool, hpool⟩ := Exec.exists_ok_of_isOk hpool
  obtain ⟨expected, hexpected⟩ := Exec.exists_ok_of_isOk hexpected
  obtain ⟨path, hpath⟩ := Option.isSome_iff_exists.mp hcoin
  obtain ⟨d, hd, htx⟩ := h (.getTransaction expected.burnTxHash)
  obtain ⟨tx, v, htx, hvalid⟩ := htx expected hexpected
  obtain ⟨d', hd', hreceipt⟩ := h (.getTransactionReceipt expected.burnTxHash)
  obtain ⟨c, hc⟩ := (h.goes (.readCoin path)).exists
  exact ⟨v, c.coin, relayerPool_eq hpool ▸ hpool,
    fun status => ⟨h.goes _, h.goes _⟩,
    ⟨expected, d, d', tx, hexpected, hd, htx, hd', hreceipt, hvalid⟩,
    path, c, hpath, hc, rfl⟩

/-- A user's job, all being well, registers its note. -/
theorem Normal.registers_user
    (hjob : job.type = .CCTP_INBOUND_AFTER_USER_BURN)
    (h : Normal lib env job w sur) (hready : Ready lib env job)
    (hnew : w.Unseen lib (poolOf env job.payload) job.payload.burnTxHash) :
    Registers env job w (attempt lib env job sur w) := by
  obtain ⟨v, coin, hvalidated⟩ := h.validated hjob hready
  unfold Ready at hready
  rw [hjob] at hready
  obtain ⟨-, -, -, hsac⟩ := hready
  have hsecret : ∃ v, need env "STELLAR_RELAYER_SECRET" = .ok v := by
    have hpool := hvalidated.pool
    simp only [relayerPool, Exec.bind_eq_ok, check_eq_ok] at hpool
    obtain ⟨_, hchecked, -⟩ := hpool
    exact need_of_ne fun hempty => hchecked (.inr hempty)
  obtain ⟨args, hargs, hflow⟩ := runPostUserBurn_registers
    (q := postUserBurnParams job.payload (poolOf env job.payload)
      v.args.amount coin)
    (s := { w.claim with status := .progress "completing_stellar_side" })
    h rfl rfl (Exec.exists_ok_of_isOk hsac) hsecret
    ⟨hnew.used, hnew.registered⟩
  refine ⟨args, ?_, ?_⟩
  · unfold InboundJob.note
    rw [hjob]
    exact hargs
  · rw [hvalidated.attempt hjob]
    refine runClaimed_registers ?_
    exact Prog.solo_bind_keeps
      (I := fun s : World => s.deposits
        = w.deposits ++ [⟨poolOf env job.payload, args⟩]) hflow
      fun _ _ => (deposits_of_uses
        (uses_setStatus (fun _ h => h.2.2) _)).trans hflow

/-- The flow of an operator's job: it burns, and registers what it has
burned. -/
theorem runCctpInbound_registers {q : InboundParams} {c : Contracts}
    {args : BurnArgs} {coin : GeneratedCoin} {root : String} {s : World}
    (hjob : q.amount6 ∈ job.amount6)
    (h : Normal lib env job w sur)
    (hc : readContracts env q.targetContract = .ok c)
    (hsubmits : Submits lib c q sur args)
    (htarget : q.targetContract = some (poolOf env job.payload))
    (hvault : c.vault = poolOf env job.payload)
    (hcoin : q.coin = some coin) (hroot : q.newRootHex = some root)
    (hs : s.received = w.received ∧ s.deposits = w.deposits) :
    ∃ reg : ReceiveArgs, reg.commitment = stripHex q.commitmentHex ∧
      (Prog.solo (answer sur) (runCctpInbound lib env q) s).1.deposits
        = s.deposits ++ [⟨poolOf env job.payload, reg⟩] := by
  obtain ⟨d, hd, hfresh⟩ :=
    h (.depositForBurnWithHook c.tokenMessenger args)
  obtain ⟨d₁, hd₁⟩ := (h.goes (.burnReceipt d.text)).exists
  obtain ⟨d₂, hd₂, hrecipient, hpos, hmax⟩ :=
    h (.pollAttestation arbitrumSepoliaDomain d.text)
  let att : CctpAttestation :=
    ⟨{ d₂.message with burnTxHash := d.text }, d₂.text⟩
  obtain ⟨e, he⟩ := (h.goes (.mintAndForward c.vault c.forwarder att)).exists
  let s₁ : World := { s with burns := s.burns ++ [args] }
  have hunseen : s₁.Unseen lib (poolOf env job.payload) d.text := by
    constructor
    · show ¬∃ m ∈ s.received, m.burnTxHash = d.text
      rw [hs.1]
      exact hfresh.1
    · intro m hm
      show ¬∃ x ∈ s.deposits, _
      rw [hs.2]
      exact hfresh.2 m hm
  have hmint := mintForward_current (w := s₁)
    (fun point => h.current point c.sac c.vault) he hunseen.used
    (hrecipient.trans hvault.symm) hpos
  have hshows : ¬((s₁.balance c.vault : ℤ) + att.message.amount7
        - s₁.balance c.vault ≤ 0
      ∨ (s₁.balance c.vault : ℤ) + att.message.amount7
        - s₁.balance c.vault > usdc6ToStellar7 q.amount6) := by
    have hlow : (0 : ℤ) < att.message.amount7 := Int.natCast_pos.mpr hpos
    have hhigh : (att.message.amount7 : ℤ) ≤ usdc6ToStellar7 q.amount6 :=
      hmax _ hjob
    omega
  obtain ⟨reg, hreg, hdeposits⟩ := registerInbound_deposits env c d.text
    att
    (m := ⟨e.text, s₁.balance c.vault,
      s₁.balance c.vault + att.message.amount7⟩)
    (w := s₁.mint att.message) htarget hcoin hroot hvault h.goes
    (h.verified coin) (hunseen.registered _ rfl)
  refine ⟨reg, hreg, ?_⟩
  unfold runCctpInbound completeInbound
  simp only [Prog.solo_bind, solo_ofExcept, hc, Prog.andThen_ok,
    hsubmits.solo, answer_of_go hd, perform, Prog.solo_query,
    answer_of_go hd₁, answer_of_go hd₂]
  rw [hmint]
  simp only [Prog.andThen_ok, check, if_neg hshows]
  exact hdeposits

/-- An operator's job, all being well, registers its note, whatever it
has done before. -/
theorem Normal.registers_operator (hjob : job.type = .CCTP_INBOUND)
    (h : Normal lib env job w sur) (hready : Ready lib env job) :
    Registers env job w (attempt lib env job sur w) := by
  unfold Ready at hready
  rw [hjob] at hready
  obtain ⟨c, args, hplanned⟩ := hready
  have hreach := h.reachesBurn hjob hplanned
  simp only [plannedBurn, Exec.bind_eq_ok, Exec.pure_eq_ok] at hplanned
  obtain ⟨pool, hpool, _, henabled, amount6, hamount, c', hc, args', hbuilt,
    heq⟩ := hplanned
  obtain ⟨rfl, rfl⟩ := Prod.mk.inj heq
  obtain rfl := relayerPool_eq hpool
  have henabled : ∀ message, check
      (env "ENABLE_OPERATOR_TESTNET_DEPOSIT" ≠ some "true") message
        = .ok () :=
    fun message => check_eq_ok.mpr (check_eq_ok.mp henabled)
  have hvault : c'.vault = poolOf env job.payload := by
    simp only [readContracts, Exec.bind_eq_ok, Exec.pure_eq_ok,
      Option.elim_some] at hc
    obtain ⟨_, -, _, -, vault, hvault, _, -, _, -, rfl⟩ := hc
    exact (Except.ok.inj hvault).symm
  obtain ⟨d, hd⟩ := hreach.coin.exists
  have hparams : amount6 ∈ job.amount6 := by
    unfold InboundJob.amount6
    rw [hjob]
    exact toBigInt_eq_ok.mp hamount
  have hflow := runCctpInbound_registers
    (q := inboundParams job.payload (poolOf env job.payload) amount6 d.coin)
    (s := { w.claim with status := .progress "burning" })
    hparams h hc ⟨hbuilt, hreach.funds, hreach.allowance, hreach.burn⟩
    rfl hvault rfl rfl ⟨rfl, rfl⟩
  obtain ⟨reg, hreg, hflow⟩ := hflow
  refine ⟨reg, ?_, runClaimed_registers ?_⟩
  · unfold InboundJob.note
    rw [hjob]
    exact hreg
  · rw [hjob]
    show (Prog.solo (answer sur)
      (processCctpInbound lib env job.payload) w.claim).1.deposits = _
    unfold processCctpInbound
    simp only [Prog.solo_bind, solo_ofExcept, hpool, Prog.andThen_ok,
      henabled, setStatus_of_goes hreach.status hreach.logged, hamount,
      Prog.solo_query, answer_of_go hd, perform]
    exact (congrArg World.deposits
      (Prog.andThen_pure _ fun _ => ())).trans hflow

end Lumix.Services.Inbound
