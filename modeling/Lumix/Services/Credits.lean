/-
Inbound flows side by side, and the amounts they register.

A flow learns what its message has minted from two readings of the pool's
balance, one before the mint and one after it. From the first to the last
of them it counts on nothing else moving that balance. Nothing sees to
that: other flows mint into the same pool, and users withdraw from it.
So a run in which the balance is left alone while a flow watches it
(`Undisturbed`) credits every deposit with its own mint
(`credited_with_own_mint`), and two flows that overlap do not
(`overlap_miscredits`).
-/
import Lumix.Lib.Interference
import Lumix.Services.Inbound

namespace Lumix.Services.Inbound

open Text (stripHex)
open Proving (GeneratedCoin)

-- ============================================================ the system

/-- A flow as a worker or a script starts it. -/
inductive FlowTask
  | inbound (env : EnvMap) (p : InboundParams)
  | postUserBurn (env : EnvMap) (p : PostUserBurnParams)

/-- The flow of a task. -/
def FlowTask.code (lib : Libraries) : FlowTask → Flow InboundResult
  | .inbound env p => runCctpInbound lib env p
  | .postUserBurn env p => runPostUserBurnCctpInbound lib env p

/-- What else moves a balance: a withdrawal, or a payment to it. -/
inductive ChainEvent
  | withdraw (contract : String) (amount : ℕ)
  | pay (contract : String) (amount : ℕ)

/-- Between the calls somebody withdraws from a contract or pays into
it. -/
def outside : ChainEvent → World → Option (World × List FlowTask)
  | .withdraw contract amount, w =>
      if amount ≤ w.balance contract then
        some ({ w with
          balance := Function.update w.balance contract
            (w.balance contract - amount) }, [])
      else
        none
  | .pay contract amount, w =>
      some ({ w with
        balance := Function.update w.balance contract
          (w.balance contract + amount) }, [])

/-- Any number of flows, over one world. -/
def flows (lib : Libraries) :
    System Call.Answer String InboundResult FlowTask World Choice
      ChainEvent where
  code := FlowTask.code lib
  exec _ := exec
  outside := outside

/-- A state of the system. -/
abbrev Flows := Machine Call.Answer String InboundResult FlowTask World

/-- An event of it. -/
abbrev FlowEvent := MachineEvent FlowTask Choice ChainEvent

-- ========================================================= what is asked

/-- What a message has minted into a contract. -/
def mintedInto (contract : String) (m : Message) : ℤ :=
  if m.forwardRecipient = contract then m.amount7 else 0

/-- A deposit is registered under its own message's nonce, and with what
that message has minted. -/
def CreditsOwnMint (lib : Libraries) : Call → Prop
  | .receiveCctpDeposit message contract args =>
      args.cctpNonce = stripHex (lib.keccak256 message)
        ∧ args.amount = mintedInto contract message
  | _ => True

/-- The contract whose balance a flow counts on while the call is
pending: it has been read before the mint, and not for the last time. -/
def Call.watches : Call → Option String
  | .mintAndForward pool _ _ => some pool
  | .sacBalance (.after _ _ _) _ contract => some contract
  | _ => none

/-- A reading that does not mislead. The first is up to date, and not
empty to the last try; the later ones are up to date, or show no more
than the first did, and are taken again. -/
def FairReading : Call → Choice → World → Prop
  | .sacBalance (.before tries) _ contract, .go d, w =>
      (d.reading.shows (w.balance contract)).elim (tries ≠ 0)
        fun v => v = w.balance contract
  | .sacBalance (.after before _ _) _ contract, .go d, w =>
      ∀ v ∈ d.reading.shows (w.balance contract),
        v = w.balance contract ∨ v ≤ before
  | _, _, _ => True

/-- What a flow counts on while a call is pending. -/
def relying : Reliance Call World Choice where
  Pre _ _ := True
  Rely q w w' := ∀ pool ∈ q.watches, w'.balance pool = w.balance pool
  Allow := FairReading

/-- And what is asked of its calls. -/
def watching (lib : Libraries) : Reliance Call World Choice :=
  { relying with Pre := fun q _ => CreditsOwnMint lib q }

/-- A transition that leaves the balances alone that other flows watch,
and reads fairly. -/
def Undisturbed (t : Run.Transition Flows FlowEvent) : Prop :=
  System.Calm relying t

-- ============================================================ one flow

variable {lib : Libraries}

/-- An undisturbed event disturbs nobody who watches a balance. -/
theorem Undisturbed.calm {t : Run.Transition Flows FlowEvent}
    (h : Undisturbed t) : System.Calm (watching lib) t :=
  ⟨h.spares, h.allows⟩

/-- Watching a balance is a relation between two moments. -/
theorem watching_lawful : (watching lib).Lawful where
  refl _ _ := fun _ _ => rfl
  trans _ _ _ _ h₁ h₂ := fun pool hpool =>
    (h₂ pool hpool).trans (h₁ pool hpool)

/-- Code that only decides is steady. -/
theorem steady_ofExcept {α : Type} {x : Except String α}
    {post : α → World → Prop} {w : World}
    (h : ∀ a, x = .ok a → post a w) :
    (watching lib).Steady exec post (ofExcept x) w := by
  cases x with
  | ok a => exact h a rfl
  | error e => trivial

/-- So is code that makes no deposit. -/
theorem steady_quiet {α : Type} {code : Flow α}
    (h : code.Uses fun q => ¬q.IsDeposit) {w : World} :
    (watching lib).Steady exec (fun _ _ => True) code w := by
  refine Reliance.Steady.of_uses ?_ h
  intro q _ hq
  cases q with
  | receiveCctpDeposit message contract args => exact absurd trivial hq
  | _ => trivial

/-- A read changes nothing. -/
theorem exec_sacBalance (point : ReadAt) (sac contract : String)
    (c : Choice) (w : World) :
    (exec (.sacBalance point sac contract) c w).1 = w := by
  cases c <;> rfl

/-- A fair reading before the mint. -/
theorem before_answered {tries : ℕ} {sac contract : String} {c : Choice}
    {w : World} {v : Option ℕ}
    (hc : FairReading (.sacBalance (.before tries) sac contract) c w)
    (hv : (exec (.sacBalance (.before tries) sac contract) c w).2 = .ok v) :
    (exec (.sacBalance (.before tries) sac contract) c w).1 = w ∧
      v.elim (tries ≠ 0) fun v => v = w.balance contract := by
  refine ⟨exec_sacBalance _ _ _ _ _, ?_⟩
  obtain ⟨d, rfl, hd⟩ := exec_answered hv
  rw [← Except.ok.inj hd]
  exact hc

/-- A fair reading after it. -/
theorem after_answered {before : ℤ} {polls tries : ℕ}
    {sac contract : String} {c : Choice} {w : World} {v : Option ℕ}
    (hc : FairReading (.sacBalance (.after before polls tries) sac contract)
      c w)
    (hv : (exec (.sacBalance (.after before polls tries) sac contract) c
      w).2 = .ok v) :
    (exec (.sacBalance (.after before polls tries) sac contract) c w).1 = w ∧
      ∀ n ∈ v, n = w.balance contract ∨ (n : ℤ) ≤ before := by
  refine ⟨exec_sacBalance _ _ _ _ _, ?_⟩
  obtain ⟨d, rfl, hd⟩ := exec_answered hv
  rw [← Except.ok.inj hd]
  exact hc

/-- The reading before the mint is what the contract holds. -/
theorem steady_before (sac contract : String) (tries : ℕ) (w : World) :
    (watching lib).Steady exec (fun v w => v = (w.balance contract : ℤ))
      (sacBalance .before sac contract (tries + 1)) w := by
  induction tries generalizing w with
  | zero =>
      refine .bind (.query fun w' _ => ⟨trivial, fun c hc v hv => ?_⟩)
      obtain ⟨hsame, hfair⟩ := before_answered hc hv
      rw [hsame]
      cases v with
      | none => exact absurd rfl hfair
      | some v => exact congrArg Nat.cast hfair
  | succ tries ih =>
      refine .bind (.query fun w' _ => ⟨trivial, fun c hc v hv => ?_⟩)
      obtain ⟨hsame, hfair⟩ := before_answered hc hv
      rw [hsame]
      cases v with
      | none => exact ih w'
      | some v => exact congrArg Nat.cast hfair

/-- What a flow knows between the mint and its last reading. -/
def Shown (before minted : ℤ) (contract : String) (v : ℤ) (w : World) :
    Prop :=
  (v = before + minted ∨ v ≤ before)
    ∧ (w.balance contract : ℤ) = before + minted

/-- A balance that is read after the mint, undisturbed, shows the mint
or is read too early. -/
theorem steady_after {sac contract : String} {before minted : ℤ}
    (hbefore : 0 ≤ before) (polls tries : ℕ) (w : World)
    (hw : (w.balance contract : ℤ) = before + minted) :
    (watching lib).Steady exec (Shown before minted contract)
      (sacBalance (.after before polls) sac contract tries) w := by
  induction tries generalizing w with
  | zero => exact ⟨.inr hbefore, hw⟩
  | succ tries ih =>
      refine .bind (.query fun w' hrely => ⟨trivial, fun c hc v hv => ?_⟩)
      obtain ⟨hsame, hfair⟩ := after_answered hc hv
      have hw' : (w'.balance contract : ℤ) = before + minted :=
        (congrArg Nat.cast (hrely contract rfl)).trans hw
      rw [hsame]
      cases v with
      | none => exact ih w' hw'
      | some v =>
          refine ⟨(hfair v rfl).imp_left fun hv => ?_, hw'⟩
          rw [hv, hw']

/-- Polling ends with the mint, or with nothing. -/
theorem steady_poll {sac contract : String} {before minted : ℤ}
    (hbefore : 0 ≤ before) (polls : ℕ) (after : ℤ) (w : World)
    (h : Shown before minted contract after w) :
    (watching lib).Steady exec (Shown before minted contract)
      (pollBalance sac contract before polls after) w := by
  induction polls generalizing after w with
  | zero => exact h
  | succ polls ih =>
      unfold pollBalance
      by_cases hlow : after ≤ before
      · rw [if_pos hlow]
        exact .bind ((steady_after hbefore polls 5 w h.2).mono
          fun again w' h' => ih again w' h')
      · rw [if_neg hlow]
        exact h

/-- A mint that is answered has minted. -/
theorem minted_answered {pool forwarder : String} {att : CctpAttestation}
    {c : Choice} {w : World} {txHash : String}
    (h : (exec (.mintAndForward pool forwarder att) c w).2 = .ok txHash) :
    ((exec (.mintAndForward pool forwarder att) c w).1.balance pool : ℤ)
      = w.balance pool + mintedInto pool att.message := by
  obtain ⟨d, rfl, hd⟩ := exec_answered h
  by_cases hused : w.Used att.message.burnTxHash
  · simp only [perform, if_pos hused] at hd
    cases hd
  · simp only [exec, perform, if_neg hused, World.mint, mintedInto]
    by_cases hpool : att.message.forwardRecipient = pool
    · rw [if_pos hpool, hpool, Function.update_self, Nat.cast_add]
    · rw [if_neg hpool, Function.update_of_ne (Ne.symm hpool), add_zero]

/-- The mint between its two readings: what shows as a gain is what the
message has minted. -/
theorem steady_mintForward (sac pool forwarder : String)
    (att : CctpAttestation) (w : World) :
    (watching lib).Steady exec
      (fun m _ => m.after - m.before = mintedInto pool att.message
        ∨ m.after - m.before ≤ 0)
      (mintForward sac pool forwarder att) w := by
  unfold mintForward
  refine .bind ((steady_before sac pool 4 w).mono fun before w₁ hread => ?_)
  refine .bind (.query fun w₂ hrely => ⟨trivial, fun c _ txHash htx => ?_⟩)
  have hw₂ : (w₂.balance pool : ℤ) = before :=
    (congrArg Nat.cast (hrely pool rfl)).trans hread.symm
  have hminted := minted_answered htx
  rw [hw₂] at hminted
  have hbefore : 0 ≤ before := hw₂ ▸ Int.natCast_nonneg _
  refine .bind ((steady_after hbefore 10 5 _ hminted).mono
    fun first w₃ hfirst => ?_)
  refine .bind ((steady_poll hbefore 10 first w₃ hfirst).mono
    fun after w₄ hafter => ?_)
  rcases hafter.1 with hgain | hnone
  · refine .inl ?_
    show after - before = _
    omega
  · refine .inr ?_
    show after - before ≤ 0
    omega

/-- Past the readings a flow counts on nothing. -/
theorem steady_registerInbound {env : EnvMap} {c : Contracts}
    {p : InboundParams} {burnTxHash : String} {att : CctpAttestation}
    {m : Minted} (h : m.after - m.before = mintedInto c.vault att.message)
    (w : World) :
    (watching lib).Steady exec (fun _ _ => True)
      (registerInbound lib env c p burnTxHash att m) w := by
  unfold registerInbound
  refine .bind (.mono (steady_quiet ?_) fun proof w₁ _ => ?_)
  · unfold depositProofArgs
    split
    · trivial
    · split
      · trivial
      · exact (Prog.uses_query id).bind fun dep =>
          (uses_ofExcept _).bind fun _ => trivial
  refine .bind (steady_ofExcept fun newRoot _ => ?_)
  refine .bind (.query fun w₂ _ => ⟨⟨rfl, h⟩, fun _ _ receive _ => ?_⟩)
  refine steady_quiet ?_
  exact (uses_ofExcept _).bind fun _ =>
    (Prog.uses_query id).bind fun _ => trivial

/-- The user's registration credits what was minted. -/
theorem steady_registerPostUserBurn {p : PostUserBurnParams} {sac : String}
    {att : CctpAttestation} {m : Minted}
    (h : m.after - m.before = mintedInto p.pool att.message) (w : World) :
    (watching lib).Steady exec (fun _ _ => True)
      (registerPostUserBurn lib p sac att m) w := by
  unfold registerPostUserBurn
  split
  · trivial
  · refine .bind (.mono (steady_quiet (Prog.uses_query id))
      fun dep w₁ _ => ?_)
    refine .bind (steady_ofExcept fun _ _ => ?_)
    refine .bind (.query fun w₂ _ => ⟨⟨rfl, h⟩, fun _ _ receive _ => ?_⟩)
    refine steady_quiet ?_
    exact (Prog.uses_query id).bind fun _ => trivial

/-- A burn credits nothing. -/
theorem steady_submitBurn {c : Contracts} {p : InboundParams} (w : World) :
    (watching lib).Steady exec (fun _ _ => True) (submitBurn lib c p) w := by
  refine steady_quiet ?_
  exact (Prog.uses_query id).bind fun _ => (uses_ofExcept _).bind fun _ =>
    (uses_approveIfNeeded (fun _ h => h.2.2) _ _).bind fun _ =>
      (uses_ofExcept _).bind fun _ => Prog.uses_query id

/-- A flow that registers has seen its mint. -/
theorem steady_code (lib : Libraries) (t : FlowTask) (w : World) :
    (watching lib).Steady exec (fun _ _ => True) (t.code lib) w := by
  cases t with
  | inbound env p =>
      show (watching lib).Steady exec _ (runCctpInbound lib env p) w
      unfold runCctpInbound
      refine .bind (steady_ofExcept fun c _ => ?_)
      refine .bind ((steady_submitBurn w).mono fun burnTxHash w₁ _ => ?_)
      unfold completeInbound
      refine .bind (.mono (steady_quiet (Prog.uses_query id))
        fun _ w₂ _ => ?_)
      refine .bind (.mono (steady_quiet (Prog.uses_query id))
        fun att w₃ _ => ?_)
      refine .bind ((steady_mintForward c.sac c.vault c.forwarder att
        w₃).mono fun m w₄ hm => ?_)
      refine .bind (steady_ofExcept fun _ hcheck => ?_)
      have hgain := check_eq_ok.mp hcheck
      exact steady_registerInbound
        (hm.resolve_right fun hnone => hgain (.inl hnone)) w₄
  | postUserBurn env p =>
      show (watching lib).Steady exec _ (runPostUserBurnCctpInbound lib env p) w
      unfold runPostUserBurnCctpInbound
      refine .bind (steady_ofExcept fun sac _ => ?_)
      refine .bind (steady_ofExcept fun _ _ => ?_)
      refine .bind (.mono (steady_quiet (Prog.uses_query id))
        fun att w₁ _ => ?_)
      refine .bind ((steady_mintForward sac p.pool _ att w₁).mono
        fun m w₂ hm => ?_)
      refine .bind (steady_ofExcept fun _ hcheck => ?_)
      exact steady_registerPostUserBurn
        (hm.resolve_right (check_eq_ok.mp hcheck)) w₂

-- =============================================================== theorem

/-- Where no balance moves under a flow that watches it, every flow that
comes to `receive_cctp_deposit` passes its own message's nonce, and what
that message has minted into the pool. -/
theorem credited_with_own_mint (lib : Libraries) (w : World)
    (es : List FlowEvent)
    (hes : ∀ t ∈ Run.accepted (flows lib).step ⟨w, []⟩ es, Undisturbed t)
    {i : ℕ} {message : Message} {contract : String} {args : ReceiveArgs}
    (hi : (Run.run (flows lib).step ⟨w, []⟩ es).next i
      = some (.receiveCctpDeposit message contract args)) :
    args.cctpNonce = stripHex (lib.keccak256 message)
      ∧ args.amount = mintedInto contract message := by
  have hsteady : System.AllSteady (watching lib) exec
      (Run.run (flows lib).step ⟨w, []⟩ es) := by
    refine System.steady_run watching_lawful (fun _ => rfl)
      (steady_code lib) ?_ fun t ht => (hes t ht).calm
    intro i t c hi
    cases hi
  exact hsteady.pre watching_lawful hi

/-- Readings that are up to date are fair. -/
theorem fair_current {d : Draw} (h : d.reading = .current) (q : Call)
    (w : World) : FairReading q (.go d) w := by
  cases q with
  | sacBalance point sac contract =>
      cases point with
      | before tries =>
          simp only [FairReading, h, Reading.shows]
          exact rfl
      | after before polls tries =>
          intro v hv
          rw [h] at hv
          exact .inl (Option.some.inj hv).symm
  | _ => trivial

/-- No flow but `i` counts on a balance. -/
def Unwatched (p : Flows) (i : ℕ) : Prop :=
  ∀ j q, p.next j = some q → j ≠ i → q.watches = none

/-- A flow that alone counts on a balance is not disturbed. -/
theorem undisturbed_run {p p' : Flows} {i : ℕ} {d : Draw}
    (hp : Unwatched p i) (h : d.reading = .current) :
    Undisturbed ⟨p, .run i (.go d), p'⟩ where
  spares j q hq hne := by
    have hji : j ≠ i := by
      rintro rfl
      exact hne _ rfl
    intro pool hpool
    rw [hp j q hq hji] at hpool
    cases hpool
  allows k c q he _ := by
    injection he with _ hc
    exact hc ▸ fair_current h q _

/-- Nor is it by the steps that follow. -/
theorem undisturbed_runs {lib : Libraries} {p : Flows} {i : ℕ}
    (hp : Unwatched p i) {ds : List Draw}
    (hds : ∀ d ∈ ds, d.reading = .current) :
    ∀ t ∈ Run.accepted (flows lib).step p
      (ds.map fun d => .run i (.go d)), Undisturbed t := by
  induction ds generalizing p with
  | nil => exact fun t ht => by cases ht
  | cons d ds ih =>
      intro t ht
      have hrest := fun d' hd' => hds d' (List.mem_cons_of_mem _ hd')
      simp only [List.map_cons, Run.accepted] at ht
      cases hstep : (flows lib).step p (.run i (.go d)) with
      | error e =>
          rw [hstep] at ht
          exact ih hp hrest t ht
      | ok p' =>
          rw [hstep] at ht
          rcases List.mem_cons.mp ht with rfl | ht
          · exact undisturbed_run hp (hds d List.mem_cons_self)
          · refine ih ?_ hrest t ht
            cases System.step_cases hstep with
            | ran hi =>
                intro j q hq hji
                refine hp j q ?_ hji
                simpa only [Machine.next, List.getElem?_set_ne hji.symm]
                  using hq

/-- What happens while no flow counts on a balance disturbs none. -/
theorem undisturbed_idle {p p' : Flows} {e : FlowEvent}
    (hp : ∀ j q, p.next j = some q → q.watches = none)
    (he : ∀ i c, e ≠ .run i c) : Undisturbed ⟨p, e, p'⟩ where
  spares j q hq _ := by
    intro pool hpool
    rw [hp j q hq] at hpool
    cases hpool
  allows i c q h _ := absurd h (he i c)

namespace Credits

/-- Every variable is set. -/
def env (_ : String) : Option String := some "set"

/-- The hash of a message is the hash of its burn. -/
def libraries : Libraries :=
  ⟨fun _ => true, fun _ => [], Message.burnTxHash⟩

/-- The coin both deposits are for. -/
def coin : GeneratedCoin := ⟨"coin.json", "0xc0", "192", "100", ""⟩

/-- A user's burn of ten. -/
def params (burnTxHash : String) : PostUserBurnParams where
  burnTxHash := burnTxHash
  pool := "pool"
  amount6 := 10
  commitmentHex := "0xc0"
  encryptedNotePayloadHashHex := "0xe0"
  policyIdHex := "0x00"
  newRootHex := "0x01"
  coin := some coin
  poolId := none
  chainId := none

/-- All is well; the message mints `amount7` into the pool. -/
def draw (amount7 : ℕ) : Draw where
  amount := 0
  text := "text"
  leafIndex := "0"
  reading := .current
  message := ⟨"", "pool", amount7⟩
  tx := none
  receipt := none
  coin := coin
  proof := ⟨"aa", "bb", true⟩

/-- Nothing has happened. -/
def world : World where
  burns := []
  received := []
  delivered := []
  balance := fun _ => 0
  deposits := []
  status := .queued
  attempts := 0
  maxAttempts := 3

/-- A flow from its attestation to its deposit: the attestation, the
reading, the mint, the reading again, the proof. -/
def steps (i amount7 : ℕ) : List FlowEvent :=
  (List.replicate 5 (draw amount7)).map fun d => .run i (.go d)

/-- Two flows, each for its own burn. -/
def starts : List FlowEvent :=
  [.start (.postUserBurn env (params "first")),
   .start (.postUserBurn env (params "second"))]

/-- The first flow in its turn. -/
def first : List FlowEvent := starts ++ steps 0 100

/-- And a withdrawal. -/
def between : List FlowEvent := first ++ [.outside (.withdraw "pool" 30)]

/-- And the second flow. -/
def inTurn : List FlowEvent := between ++ steps 1 50

/-- Two flows that both read the balance before either mints. -/
def overlap : List FlowEvent :=
  starts ++
  [.run 0 (.go (draw 100)), .run 0 (.go (draw 100)),
   .run 1 (.go (draw 50)), .run 1 (.go (draw 50)),
   .run 0 (.go (draw 100)), .run 1 (.go (draw 50)),
   .run 0 (.go (draw 100)), .run 0 (.go (draw 100)),
   .run 1 (.go (draw 50)), .run 1 (.go (draw 50))]

end Credits

namespace Credits

/-- The system after the events. -/
abbrev after (es : List FlowEvent) : Flows :=
  Run.run (flows libraries).step ⟨world, []⟩ es

/-- The calls the two flows come to. -/
theorem pending (es : List FlowEvent) {q₀ q₁ : Call}
    (hlength : (after es).procs.length = 2)
    (h₀ : (after es).next 0 = some q₀) (h₁ : (after es).next 1 = some q₁) :
    ∀ j q, (after es).next j = some q →
      (j = 0 ∧ q = q₀) ∨ (j = 1 ∧ q = q₁) := by
  intro j q hq
  match j with
  | 0 => exact .inl ⟨rfl, Option.some.inj (hq.symm.trans h₀)⟩
  | 1 => exact .inr ⟨rfl, Option.some.inj (hq.symm.trans h₁)⟩
  | j + 2 =>
      have hnone : (after es).procs[j + 2]? = none :=
        List.getElem?_eq_none (by omega)
      rw [Machine.next, hnone] at hq
      cases hq

/-- Starting a flow disturbs nobody. -/
theorem undisturbed_starts :
    ∀ t ∈ Run.accepted (flows libraries).step ⟨world, []⟩ starts,
      Undisturbed t := by
  intro t ht
  rcases List.mem_cons.mp ht with rfl | ht
  · exact undisturbed_idle (fun j q hq => by cases hq) (fun i c => nofun)
  · rw [List.mem_singleton.mp ht]
    refine undisturbed_idle (fun j q hq => ?_) (fun i c => nofun)
    match j with
    | 0 => cases hq; rfl
    | j + 1 => cases hq

/-- A flow that runs while nobody watches a balance disturbs nobody. -/
theorem undisturbed_steps {es : List FlowEvent} {i : ℕ} (amount7 : ℕ)
    (h : Unwatched (after es) i) :
    ∀ t ∈ Run.accepted (flows libraries).step (after es)
      (steps i amount7), Undisturbed t := by
  refine undisturbed_runs h fun d hd => ?_
  rw [List.eq_of_mem_replicate hd]
  rfl

/-- The first flow runs before the second has read anything, -/
theorem undisturbed_first :
    ∀ t ∈ Run.accepted (flows libraries).step ⟨world, []⟩ first,
      Undisturbed t := by
  intro t ht
  rw [first, Run.accepted_append, List.mem_append] at ht
  rcases ht with ht | ht
  · exact undisturbed_starts t ht
  · have hidle : Unwatched (after starts) 0 := by
      intro j q hq hj
      rcases pending _ rfl rfl rfl j q hq with ⟨rfl, rfl⟩ | ⟨rfl, rfl⟩
      · exact absurd rfl hj
      · rfl
    exact undisturbed_steps 100 hidle t ht

/-- the withdrawal comes after its mint is registered, -/
theorem undisturbed_between :
    ∀ t ∈ Run.accepted (flows libraries).step ⟨world, []⟩ between,
      Undisturbed t := by
  intro t ht
  rw [between, Run.accepted_append, List.mem_append] at ht
  rcases ht with ht | ht
  · exact undisturbed_first t ht
  · rw [List.mem_singleton.mp ht]
    refine undisturbed_idle (fun j q hq => ?_) (fun i c => nofun)
    rcases pending first rfl rfl rfl j q hq with
      ⟨rfl, rfl⟩ | ⟨rfl, rfl⟩ <;> rfl

/-- and the second runs when the first is through. -/
theorem undisturbed_inTurn :
    ∀ t ∈ Run.accepted (flows libraries).step ⟨world, []⟩ inTurn,
      Undisturbed t := by
  intro t ht
  rw [inTurn, Run.accepted_append, List.mem_append] at ht
  rcases ht with ht | ht
  · exact undisturbed_between t ht
  · have hidle : Unwatched (after between) 1 := by
      intro j q hq hj
      rcases pending _ rfl rfl rfl j q hq with ⟨rfl, rfl⟩ | ⟨rfl, rfl⟩
      · rfl
      · exact absurd rfl hj
    exact undisturbed_steps 50 hidle t ht

end Credits

/-- Two flows of 100 and of 50, a withdrawal of 30 between them: each
registers its own. -/
theorem credited_inTurn :
    ∃ (m m' : Message) (a b : ReceiveArgs),
      (Credits.after Credits.inTurn).next 0
        = some (.receiveCctpDeposit m "pool" a)
      ∧ (Credits.after Credits.inTurn).next 1
        = some (.receiveCctpDeposit m' "pool" b)
      ∧ mintedInto "pool" m = 100 ∧ a.amount = mintedInto "pool" m
      ∧ mintedInto "pool" m' = 50 ∧ b.amount = mintedInto "pool" m' := by
  refine ⟨_, _, _, _, rfl, rfl, ?_, ?_, ?_, ?_⟩
  · decide
  · exact (credited_with_own_mint Credits.libraries Credits.world
      Credits.inTurn Credits.undisturbed_inTurn (i := 0) rfl).2
  · decide
  · exact (credited_with_own_mint Credits.libraries Credits.world
      Credits.inTurn Credits.undisturbed_inTurn (i := 1) rfl).2

/-- Two flows of 100 and of 50, and both register 150. -/
theorem overlap_miscredits :
    ∃ (m m' : Message) (a b : ReceiveArgs),
      (Credits.after Credits.overlap).next 0
        = some (.receiveCctpDeposit m "pool" a)
      ∧ (Credits.after Credits.overlap).next 1
        = some (.receiveCctpDeposit m' "pool" b)
      ∧ a.amount = 150 ∧ mintedInto "pool" m = 100
      ∧ b.amount = 150 ∧ mintedInto "pool" m' = 50 := by
  refine ⟨_, _, _, _, rfl, rfl, ?_, ?_, ?_, ?_⟩
  all_goals decide

end Lumix.Services.Inbound
