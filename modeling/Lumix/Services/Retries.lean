/-
An inbound job, from its first attempt to its last.

The history of a job is the list of the attempts the queue makes, with
what others do on the chains in between. Nothing is recorded from one
attempt to the next: an operator's job burns again, and a user's job
cannot pass a mint that has been made. `acts_once_iff` says which
histories are spared.
-/
import Lumix.Services.Attempts

namespace Lumix.Services.Inbound

open Text
open Proving (GeneratedCoin)

-- ========================================================= what is asked

/-- One burn at most, and no attempt that follows a successful mint and
goes well otherwise leaves the note unregistered. -/
structure ActsOnce (lib : Libraries) (env : EnvMap) (job : InboundJob)
    (w : World) (es : List JobEvent) : Prop where
  burns : (Run.run (jobStep lib env job) w es).burns.length ≤ 1
  completes : ∀ t ∈ Run.accepted (jobStep lib env job) w es,
    ∀ sur, t.event = .attempt sur → t.before.delivered ≠ [] →
      Normal lib env job t.before sur → Registers env job t.before t.after

/-- An attempt that does not undo the property: an operator's job does
not come as far as the burn when it has burned before, and a user's does
not go normally when its message has been delivered before. -/
def Spared (lib : Libraries) (env : EnvMap) (job : InboundJob) (w : World)
    (sur : Surroundings) : Prop :=
  match job.type with
  | .CCTP_INBOUND =>
      w.burns ≠ [] → ¬∃ c args, ReachesBurn lib env job.payload sur c args
  | .CCTP_INBOUND_AFTER_USER_BURN =>
      w.delivered ≠ [] → ¬Normal lib env job w sur

variable {lib : Libraries} {env : EnvMap} {job : InboundJob}
  {p : InboundPayload} {sur : Surroundings} {w w' : World}

-- ============================================================ histories

/-- Nothing has been done for the job. -/
structure World.Fresh (w : World) : Prop where
  burns : w.burns = []
  delivered : w.delivered = []

/-- Everything an accepted event can do. -/
theorem jobStep_cases {e : JobEvent}
    (h : jobStep lib env job w e = .ok w') :
    (∃ sur, e = .attempt sur ∧ w' = attempt lib env job sur w) ∨
      ∃ received balance deposits, e = .others received balance deposits ∧
        w' = { w with
          received := w.received ++ received
          balance
          deposits := w.deposits ++ deposits } := by
  cases e with
  | attempt sur =>
      simp only [jobStep] at h
      split at h
      · injection h with h
        exact .inl ⟨sur, rfl, h.symm⟩
      · cases h
  | others received balance deposits =>
      injection h with h
      exact .inr ⟨received, balance, deposits, rfl, h.symm⟩

/-- What an operator's job has burned it had planned, and it mints what
it has burned. -/
structure OperatorInv (lib : Libraries) (env : EnvMap) (p : InboundPayload)
    (w : World) : Prop where
  burned : w.delivered ≠ [] → w.burns ≠ []
  planned : w.burns ≠ [] → ∃ c args, plannedBurn lib env p = .ok (c, args)

/-- Every event of an operator's job keeps its invariant. -/
theorem OperatorInv.step (hjob : job.type = .CCTP_INBOUND)
    (h : OperatorInv lib env job.payload w) {e : JobEvent}
    (hstep : jobStep lib env job w e = .ok w') :
    OperatorInv lib env job.payload w' := by
  rcases jobStep_cases hstep with
    ⟨sur, rfl, rfl⟩ | ⟨received, balance, deposits, rfl, rfl⟩
  · rcases attempt_burns lib env sur w hjob with
      ⟨hburns, hdelivered⟩ | ⟨c, args, hreach, hburns⟩
    · exact ⟨hburns.symm ▸ hdelivered.symm ▸ h.burned,
        hburns.symm ▸ h.planned⟩
    · refine ⟨fun _ => ?_, fun _ => ⟨c, args, hreach.planned⟩⟩
      rw [hburns]
      exact List.concat_ne_nil _ _
  · exact ⟨h.burned, h.planned⟩

/-- Every event of a user's job keeps its invariant. -/
theorem UserInv.step (hjob : job.type = .CCTP_INBOUND_AFTER_USER_BURN)
    (h : UserInv job.payload.burnTxHash w) {e : JobEvent}
    (hstep : jobStep lib env job w e = .ok w') :
    UserInv job.payload.burnTxHash w' := by
  rcases jobStep_cases hstep with
    ⟨sur, rfl, rfl⟩ | ⟨received, balance, deposits, rfl, rfl⟩
  · exact h.attempt hjob
  · exact ⟨h.burns, h.delivered,
      fun m hm => List.mem_append_left _ (h.received m hm)⟩

/-- A fresh world has nothing burnt or minted, -/
theorem World.Fresh.operator (h : w.Fresh) :
    OperatorInv lib env p w :=
  ⟨fun hne => absurd h.delivered hne, fun hne => absurd h.burns hne⟩

/-- for either kind of job. -/
theorem World.Fresh.user (h : w.Fresh) (burnTxHash : String) :
    UserInv burnTxHash w :=
  ⟨h.burns, fun _ hm => absurd (h.delivered ▸ hm) List.not_mem_nil,
    fun _ hm => absurd (h.delivered ▸ hm) List.not_mem_nil⟩

/-- Burns are not undone. -/
theorem burns_mono {e : JobEvent} (hjob : job.type = .CCTP_INBOUND)
    (hstep : jobStep lib env job w e = .ok w') :
    w.burns.length ≤ w'.burns.length := by
  rcases jobStep_cases hstep with
    ⟨sur, rfl, rfl⟩ | ⟨received, balance, deposits, rfl, rfl⟩
  · rcases attempt_burns lib env sur w hjob with
      ⟨hburns, -⟩ | ⟨c, args, -, hburns⟩
    · rw [hburns]
    · rw [hburns, List.length_append]
      exact Nat.le_add_right ..
  · exact le_refl _

/-- If the event is an attempt, the job was spared in it. -/
def SparedAt (lib : Libraries) (env : EnvMap) (job : InboundJob)
    (t : History) : Prop :=
  ∀ sur, t.event = .attempt sur → Spared lib env job t.before sur

/-- The attempts of a history, as the condition sees them. -/
def AllSpared (lib : Libraries) (env : EnvMap) (job : InboundJob)
    (w : World) (es : List JobEvent) : Prop :=
  ∀ t ∈ Run.accepted (jobStep lib env job) w es, SparedAt lib env job t

/-- A claimable job is attempted. -/
theorem accepted_attempt {es : List JobEvent}
    (h : w.status.claimable = true) :
    Run.accepted (jobStep lib env job) w (.attempt sur :: es)
      = ⟨w, .attempt sur, attempt lib env job sur w⟩
        :: Run.accepted (jobStep lib env job)
          (attempt lib env job sur w) es := by
  simp only [Run.accepted, jobStep, if_pos h]

/-- What an accepted attempt leaves. -/
theorem after_attempt {es : List JobEvent} {t : History}
    {sur : Surroundings} (ht : t ∈ Run.accepted (jobStep lib env job) w es)
    (hsur : t.event = .attempt sur) :
    t.after = attempt lib env job sur t.before := by
  have hstep := Run.step_of_mem_accepted ht
  rw [hsur] at hstep
  rcases jobStep_cases hstep with ⟨sur', heq, hafter⟩ | ⟨_, _, _, heq, -⟩
  · injection heq with heq
    exact heq ▸ hafter
  · cases heq

/-- A job that acted once was spared in every attempt. -/
theorem spared_of_actsOnce {es : List JobEvent} (hw : w.Fresh)
    (h : ActsOnce lib env job w es) : AllSpared lib env job w es := by
  intro t ht sur hsur
  have hafter := after_attempt ht hsur
  unfold Spared
  cases hjob : job.type with
  | CCTP_INBOUND =>
      intro hburned hreach
      obtain ⟨c, args, hreach⟩ := hreach
      -- a second burn, which the last state still shows
      have hlast := Run.after_accepted
        (fun s s' : World => s.burns.length ≤ s'.burns.length)
        (fun _ => le_refl _) (fun _ _ _ => le_trans)
        (fun t ht => burns_mono hjob (Run.step_of_mem_accepted ht)) t ht
      have hsecond : t.after.burns.length = t.before.burns.length + 1 := by
        rw [hafter, hreach.burns hjob t.before, List.length_append]
        rfl
      have hfirst := List.length_pos_of_ne_nil hburned
      have hone := h.burns
      omega
  | CCTP_INBOUND_AFTER_USER_BURN =>
      intro hdelivered hnormal
      have hinv : UserInv job.payload.burnTxHash t.before :=
        Run.before_accepted _ (hw.user _)
          (fun _ _ _ hs => UserInv.step hjob hs) ht
      obtain ⟨args, -, hregistered⟩ :=
        h.completes t ht sur hsur hdelivered hnormal
      rw [hafter, hinv.blocked hjob hdelivered] at hregistered
      exact List.cons_ne_nil _ _
        (List.self_eq_append_right.mp hregistered)

/-- A job that is spared in every attempt acts once. -/
theorem actsOnce_of_spared {es : List JobEvent} (hw : w.Fresh)
    (h : AllSpared lib env job w es) : ActsOnce lib env job w es := by
  cases hjob : job.type with
  | CCTP_INBOUND =>
      have hinv : ∀ t ∈ Run.accepted (jobStep lib env job) w es,
          OperatorInv lib env job.payload t.before := fun t ht =>
        Run.before_accepted _ hw.operator
          (fun _ _ _ hs => OperatorInv.step hjob hs) ht
      constructor
      · refine Run.history_induction_of
          (SparedAt lib env job)
          (fun _ s => s.burns.length ≤ 1) ?_ ?_ es h
        · rw [hw.burns]
          exact Nat.zero_le 1
        · intro _ s s' e hone hstep _ hspared
          rcases jobStep_cases hstep with
            ⟨sur, rfl, rfl⟩ | ⟨_, _, _, rfl, rfl⟩
          · have hspared := hspared sur rfl
            unfold Spared at hspared
            rw [hjob] at hspared
            rcases attempt_burns lib env sur s hjob with
              ⟨hburns, -⟩ | ⟨c, args, hreach, hburns⟩
            · rw [hburns]
              exact hone
            · have hnone : s.burns = [] := by
                by_contra hne
                exact hspared hne ⟨c, args, hreach⟩
              rw [hburns, hnone]
              exact le_refl 1
          · exact hone
      · intro t ht sur hsur hdelivered hnormal
        -- what has been minted has been burned for, and this attempt
        -- comes as far again
        have hburned := (hinv t ht).burned hdelivered
        obtain ⟨c, args, hplanned⟩ := (hinv t ht).planned hburned
        have hspared := h t ht sur hsur
        unfold Spared at hspared
        rw [hjob] at hspared
        exact absurd ⟨c, args, hnormal.reachesBurn hjob hplanned⟩
          (hspared hburned)
  | CCTP_INBOUND_AFTER_USER_BURN =>
      constructor
      · have hinv : UserInv job.payload.burnTxHash
            (Run.run (jobStep lib env job) w es) :=
          Run.run_induction _ (hw.user _)
            (fun _ _ _ hs => UserInv.step hjob hs) es
        rw [hinv.burns]
        exact Nat.zero_le 1
      · intro t ht sur hsur hdelivered hnormal
        have hspared := h t ht sur hsur
        unfold Spared at hspared
        rw [hjob] at hspared
        exact absurd hnormal (hspared hdelivered)

/-- An inbound job acts once exactly when no attempt of it undoes
that. -/
theorem acts_once_iff (lib : Libraries) (env : EnvMap) (job : InboundJob)
    (w : World) (hw : w.Fresh) (es : List JobEvent) :
    ActsOnce lib env job w es ↔ AllSpared lib env job w es :=
  ⟨spared_of_actsOnce hw, actsOnce_of_spared hw⟩

-- ======================================================= two jobs, retried

namespace Demo

/-- The pool of the testnet. -/
def pool : String :=
  "CBJ6MTCKKZG73PMDZCJMSFRD7DQEMI4FKDH7CGDSV4W6FHCRBCQAVVJY"

/-- The packages, at the two contracts of the example and its one
message. -/
def libraries : Libraries where
  isValidContract s := s = pool ∨ s = stellarCctpForwarder
  decodeContract s :=
    if s = pool then
      [83, 230, 76, 74, 86, 77, 253, 189, 131, 200, 146, 201, 22, 35, 248,
       224, 70, 35, 133, 80, 207, 241, 24, 114, 175, 45, 226, 156, 81, 8,
       160, 10]
    else
      [61, 232, 106, 197, 11, 71, 234, 242, 132, 15, 226, 62, 72, 23, 149,
       81, 102, 15, 209, 7, 47, 186, 111, 68, 93, 74, 107, 215, 175, 74,
       185, 62]
  keccak256 _ := "0xnonce"

/-- The relayer's environment. -/
def testnet : EnvMap
  | "SHIELDED_POOL_CONTRACT" => some pool
  | "STELLAR_RELAYER_SECRET" => some "secret"
  | "ENABLE_OPERATOR_TESTNET_DEPOSIT" => some "true"
  | "ARB_SEPOLIA_PRIVATE_KEY" => some "0xkey"
  | "STELLAR_CCTP_FORWARDER_CONTRACT" => some stellarCctpForwarder
  | "STELLAR_TESTNET_USDC_SAC_CONTRACT" => some "usdc"
  | _ => none

/-- The payload of either job. -/
def payload : InboundPayload where
  pool := none
  amount6 := none
  commitmentHex := "0xc0"
  commitment := "0xc0"
  encryptedNotePayloadHashHex := "0xe0"
  policyIdHex := "0x00"
  newRootHex := "0x01"
  coinPath := some "coin.json"
  burnTxHash := "0xburn"
  sourceWalletAddress := "0xUser"
  expectedAmount6 := "1000000"
  expectedMaxFee6 := some "1000"
  expectedFinality := none

/-- The operator's job. -/
def operatorJob : InboundJob := ⟨.CCTP_INBOUND, payload⟩

/-- The user's job. -/
def userJob : InboundJob := ⟨.CCTP_INBOUND_AFTER_USER_BURN, payload⟩

/-- The forwarder, as a burn names it. -/
def forwarderBytes : String :=
  "0x" ++ bytesHex (libraries.decodeContract stellarCctpForwarder)

/-- The pool, as the hook names it. -/
def hook : String :=
  "0x" ++ bytesHex (List.replicate 24 0 ++ List.replicate 4 0
    ++ bigEndian32 pool.toUTF8.data.toList.length ++ pool.toUTF8.data.toList)

/-- The user's burn of one USDC. -/
def userBurn : BurnArgs where
  amount := 1000000
  destinationDomain := stellarDomain
  mintRecipient := forwarderBytes
  burnToken := arbitrumSepoliaUsdc
  destinationCaller := forwarderBytes
  maxFee := 1000
  minFinalityThreshold := FINALITY_THRESHOLD_CONFIRMED
  hookData := hook

/-- The transaction that made it. -/
def userTx : ArbTx :=
  ⟨"0xUser", some arbitrumSepoliaTokenMessenger, .burn userBurn⟩

/-- What it is compared with. -/
def expected : ExpectedBurn :=
  ⟨"0xburn", "0xUser", 1000000, pool, some 1000, none⟩

/-- All is well; a transaction has the hash `text`. -/
def draw (text : String) : Draw where
  amount := 5000000
  text := text
  leafIndex := "0"
  reading := .current
  message := ⟨"", pool, 9990000⟩
  tx := some userTx
  receipt := some 1
  coin := ⟨"coin.json", "0xc0", "192", "9990000", ""⟩
  proof := ⟨"aa", "bb", true⟩

/-- Every call goes through, with draws of this text. -/
def usual (text : String) : Surroundings := fun _ => .go (draw text)

/-- The forwarder does not get as far as the mint. -/
def unminted (text : String) : Surroundings
  | .mintAndForward _ _ _ => .fail
  | _ => .go (draw text)

/-- The pool refuses the deposit, for its root has moved. -/
def refused (text : String) : Surroundings
  | .receiveCctpDeposit _ _ _ => .fail
  | _ => .go (draw text)

/-- Nothing has happened. -/
def world : World where
  burns := []
  received := []
  delivered := []
  balance := fun _ => 0
  deposits := []
  status := .queued
  attempts := 0
  maxAttempts := 3

/-- The world is fresh. -/
theorem world_fresh : world.Fresh := ⟨rfl, rfl⟩

/-- The forwarder is a contract. -/
theorem forwarder_valid :
    stellarContractToBytes32 libraries stellarCctpForwarder
      = .ok forwarderBytes :=
  if_pos (by decide +kernel)

/-- So is the pool. -/
theorem pool_valid : encodeStellarForwardHook libraries pool = .ok hook :=
  if_pos (by decide +kernel)

/-- The payload expects the user's burn. -/
theorem expected_payload : expectedBurn payload pool = .ok expected := by
  decide +kernel

/-- And the transaction is that burn. -/
theorem userTx_valid : validateBurn libraries testnet expected userTx 1
    = .ok ⟨"0xburn", "0xUser", userBurn⟩ := by
  have hmessenger : testnet "ARB_SEPOLIA_CCTP_TOKEN_MESSENGER" = none := rfl
  have hforwarder : testnet "STELLAR_CCTP_FORWARDER_CONTRACT"
    = some stellarCctpForwarder := rfl
  have husdc : testnet "ARB_SEPOLIA_USDC_ADDRESS" = none := rfl
  have hfinality : testnet "EXPECTED_CCTP_FINALITY_THRESHOLD" = none := rfl
  simp [validateBurn, check, hmessenger, hforwarder, husdc, hfinality,
    forwarder_valid, pool_valid, userTx, userBurn, expected]

/-- A refused attempt, and one that goes well. -/
def retried : List JobEvent :=
  [.attempt (refused "0xfirst"), .attempt (usual "0xsecond")]

/-- With an attestation that is not used up, such an attempt is
normal. -/
theorem usual_normal (job : InboundJob) (hjob : job.payload = payload)
    {text : String} {w : World} (hused : ¬w.Used text)
    (hdeposits : w.deposits = []) :
    Normal libraries testnet job w (usual text) := by
  have hamount : ∀ n ∈ job.amount6, n = 1000000 := by
    unfold InboundJob.amount6
    rw [hjob]
    cases job.type with
    | CCTP_INBOUND => decide +kernel
    | CCTP_INBOUND_AFTER_USER_BURN => decide +kernel
  intro q
  refine ⟨draw text, rfl, ?_⟩
  cases q with
  | usdcBalance =>
      intro n hn
      rw [hamount n hn]
      show (1000000 : ℤ) ≤ (5000000 : ℕ)
      decide
  | depositForBurnWithHook messenger args =>
      refine ⟨hused, fun m _ hm => ?_⟩
      obtain ⟨d, hd, -⟩ := hm
      rw [hdeposits] at hd
      cases hd
  | pollAttestation domain burnTxHash =>
      refine ⟨?_, ?_, fun n hn => ?_⟩
      · rw [hjob]
        rfl
      · show 0 < 9990000
        decide
      · rw [hamount n hn]
        show (9990000 : ℕ) ≤ (1000000 * 10 : ℤ)
        decide
  | getTransaction burnTxHash =>
      intro a ha
      rw [hjob] at ha
      obtain rfl : expected = a :=
        Except.ok.inj (expected_payload.symm.trans ha)
      exact ⟨userTx, _, rfl, userTx_valid⟩
  | getTransactionReceipt burnTxHash => rfl
  | sacBalance point sac contract => rfl
  | buildDepositProof coin binding => rfl
  | _ => trivial

/-- The user's job comes as far as its flow, refused or not. -/
theorem user_validated {sur : Surroundings} {text : String}
    (h : ∀ q, q.Plain → sur q = .go (draw text)) :
    Validated libraries testnet payload sur ⟨"0xburn", "0xUser", userBurn⟩
      (draw text).coin := by
  have hgoes : ∀ q, q.Plain → (sur q).goes := fun q hq => by
    rw [h q hq]
    trivial
  exact ⟨rfl, fun status => ⟨hgoes _ ⟨id, id, id⟩, hgoes _ ⟨id, id, id⟩⟩,
    ⟨expected, draw text, draw text, userTx, expected_payload,
      h _ ⟨id, id, id⟩, rfl, h _ ⟨id, id, id⟩, rfl, userTx_valid⟩,
    "coin.json", draw text, rfl, h _ ⟨id, id, id⟩, rfl⟩

/-- The refused attempt has minted, and the job is up for another. -/
theorem user_refused :
    (attempt libraries testnet userJob (refused "0xfirst") world).delivered ≠ []
      ∧ (attempt libraries testnet userJob (refused "0xfirst")
          world).status.claimable = true
      ∧ (attempt libraries testnet userJob (refused "0xfirst")
          world).deposits = []
      ∧ ¬(attempt libraries testnet userJob (refused "0xfirst")
          world).Used "0xsecond" := by
  have hvalidated : Validated libraries testnet userJob.payload
      (refused "0xfirst") ⟨"0xburn", "0xUser", userBurn⟩
      (draw "0xfirst").coin := by
    refine user_validated fun q hq => ?_
    cases q with
    | receiveCctpDeposit message contract args => exact absurd trivial hq.2.2
    | _ => rfl
  rw [hvalidated.attempt rfl]
  decide +kernel

/-- An attempt that fails before the mint has minted nothing, and the job
is up for another. -/
theorem user_unminted :
    (attempt libraries testnet userJob (unminted "0xfirst") world).delivered
        = []
      ∧ (attempt libraries testnet userJob (unminted "0xfirst")
          world).status.claimable = true := by
  have hvalidated : Validated libraries testnet userJob.payload
      (unminted "0xfirst") ⟨"0xburn", "0xUser", userBurn⟩
      (draw "0xfirst").coin := by
    refine user_validated fun q hq => ?_
    cases q with
    | mintAndForward pool forwarder att => exact absurd trivial hq.2.1
    | _ => rfl
  rw [hvalidated.attempt rfl]
  decide +kernel

end Demo

/-- A job of each kind, refused by the pool and retried: the operator
burns twice, and the user's note is not registered. -/
theorem retried_jobs :
    Demo.world.Fresh
      ∧ ¬ActsOnce Demo.libraries Demo.testnet Demo.operatorJob Demo.world
          Demo.retried
      ∧ ¬ActsOnce Demo.libraries Demo.testnet Demo.userJob Demo.world
          Demo.retried := by
  refine ⟨Demo.world_fresh, fun h => absurd h.burns (by decide +kernel),
    fun h => ?_⟩
  obtain ⟨hdelivered, hclaimable, hdeposits, hunused⟩ := Demo.user_refused
  have hspared := spared_of_actsOnce Demo.world_fresh h
  generalize hw : attempt Demo.libraries Demo.testnet Demo.userJob
    (Demo.refused "0xfirst") Demo.world = w at *
  have hhistory : ∃ t, Run.accepted
      (jobStep Demo.libraries Demo.testnet Demo.userJob) Demo.world Demo.retried
        = [t, ⟨w, .attempt (Demo.usual "0xsecond"),
            attempt Demo.libraries Demo.testnet Demo.userJob
              (Demo.usual "0xsecond") w⟩] := by
    refine ⟨⟨Demo.world, .attempt (Demo.refused "0xfirst"), w⟩, ?_⟩
    unfold Demo.retried
    rw [accepted_attempt (show Demo.world.status.claimable = true from rfl),
      hw, accepted_attempt hclaimable, Run.accepted_nil]
  obtain ⟨t, hhistory⟩ := hhistory
  have hsecond := hspared ⟨w, .attempt (Demo.usual "0xsecond"), _⟩
    (by
      rw [hhistory]
      exact List.mem_cons_of_mem _ (List.mem_singleton_self _)) _ rfl
  exact hsecond hdelivered
    (Demo.usual_normal Demo.userJob rfl hunused hdeposits)

/-- An attempt that fails before the mint, and the one that follows it:
the job acts once. -/
theorem acts_once_unminted :
    ActsOnce Demo.libraries Demo.testnet Demo.userJob Demo.world
      [.attempt (Demo.unminted "0xfirst"),
       .attempt (Demo.usual "0xsecond")] := by
  obtain ⟨hdelivered, hclaimable⟩ := Demo.user_unminted
  refine (acts_once_iff Demo.libraries Demo.testnet Demo.userJob Demo.world
    Demo.world_fresh [.attempt (Demo.unminted "0xfirst"),
      .attempt (Demo.usual "0xsecond")]).mpr ?_
  intro t ht sur _
  show t.before.delivered ≠ [] → _
  intro hminted
  rw [accepted_attempt (show Demo.world.status.claimable = true from rfl),
    accepted_attempt hclaimable] at ht
  rcases List.mem_cons.mp ht with rfl | ht
  · exact absurd Demo.world_fresh.delivered hminted
  · rw [List.mem_singleton.mp ht] at hminted
    exact absurd hdelivered hminted

end Lumix.Services.Inbound
