/-
The coordinator: requests, the timer, and matching rounds that suspend
at network calls while both go on.

Two deployments run the same state. In the combined process a round is
one synchronous call. In the standalone coordinator it waits for the
nodes twice, so a round in progress is a record of where it stands, and
between any two of its stretches anything else may happen. The timer's
callback awaits each round before it goes on with its own list of open
sessions, read once when it fired: `ticks` holds what such callbacks
have left to do.

An event is one uninterrupted stretch of execution, or one message. A
message that gets lost, a reply that comes too late and a callback that
is never resumed are events that do not happen.
-/
import Lumix.Committee.Round
import Lumix.Lib.Run

namespace Lumix.Committee

open Exec

-- ========================================================= deployment

/-- Whether the nodes are one process or several. -/
inductive Mode
  | combined
  | standalone
deriving DecidableEq

/-- The committee as deployed. `endpoints` are the node ids of the
configured URLs, and the `i`-th URL leads to the `i`-th node. `pathParam`
is the `:intentId` a node's router reads off the path `/shares/<id>`, if
that path reaches the route at all: the id is put into the URL as it
is. -/
structure Config (Key Plain : Type) where
  mode : Mode
  nodes : List (CommitteeNodeKeyPair Key)
  endpoints : List String
  crypto : Crypto Key Plain
  pathParam : String → Option String

/-- The number of shares an intent must bring. -/
def Config.size {Key Plain : Type} (cfg : Config Key Plain) : ℕ :=
  match cfg.mode with
  | .combined => cfg.nodes.length
  | .standalone => cfg.endpoints.length

/-- A share on its way to a node. -/
structure Delivery where
  node : ℕ
  intentId : String
  share : EncryptedShare

/-- A round that was started. `rest` is what the timer callback that
waits for it has left, `none` when a request waits. -/
structure Round (Plain : Type) where
  session : Ref
  rest : Option (List Ref)
  phase : Phase Plain

/-- `rounds` lists every round ever started, in order; `stores` are the
nodes' own shares. -/
structure World (Plain : Type) where
  committee : CommitteeState Plain
  rounds : List (Round Plain)
  ticks : List (List Ref)
  inFlight : List Delivery
  stores : List (OrderedMap String EncryptedShare)
  uses : List Use

/-- What can happen to the coordinator and its nodes. -/
inductive Event
  | submit (intent : MpcIntent) (clock : Clock)
  | requestMatch (sessionId batchId : String)
  | tick (batchId : String)
  | resumeTick (k : ℕ) (batchId : String)
  | deliver (k : ℕ)
  | answerDecrypt (k i : ℕ)
  | answerSign (k i : ℕ)
  | loseAnswer (k i : ℕ)
  | settle (k : ℕ) (batchId : String)

/-- The submission an event is, if it is one. -/
def Event.submission : Event → Option (MpcIntent × Clock)
  | submit intent clock => some (intent, clock)
  | _ => none

/-- Why an event is refused. -/
inductive Refusal
  | intentIdRequired
  | wrongShareCount
  | sessionNotFound
  | alreadyIn (status : Status)
  | refused (reason : String)
  | noSuch
deriving DecidableEq

variable {Key Plain : Type}

-- ======================================================== submissions

/-- One message per share whose node is configured. -/
def distributeShares (cfg : Config Key Plain) (intent : MpcIntent) :
    List Delivery :=
  match cfg.mode with
  | .combined => []
  | .standalone =>
      intent.encryptedShares.filterMap fun share =>
        (cfg.endpoints.findIdx? fun n => n = share.nodeId).bind fun node =>
          (cfg.pathParam intent.intentId).map fun intentId =>
            { node, intentId, share }

/-- `POST /v1/mpc/intents` -/
def submit (cfg : Config Key Plain) (w : World Plain) (intent : MpcIntent)
    (clock : Clock) : Except Refusal (World Plain) := do
  panicIf (intent.intentId = "") .intentIdRequired
  panicIf (intent.encryptedShares.length ≠ cfg.size) .wrongShareCount
  pure
    { w with
      committee := (w.committee.addIntent intent clock).1
      inFlight := w.inFlight ++ distributeShares cfg intent }

/-- A node's `POST /shares/:intentId`. -/
def deliver (cfg : Config Key Plain) (w : World Plain) (k : ℕ) :
    Except Refusal (World Plain) :=
  match w.inFlight[k]? with
  | none => .error .noSuch
  | some d =>
      match cfg.nodes[d.node]?, w.stores[d.node]? with
      | some node, some store =>
          if d.share.nodeId ≠ node.nodeId then
            .error .noSuch
          else
            .ok
              { w with
                inFlight := w.inFlight.eraseIdx k
                stores := w.stores.set d.node
                  (store.set d.intentId d.share) }
      | _, _ => .error .noSuch

-- ======================================================= round starts

/-- The stretch of a round that runs with the trigger. -/
def Config.start (cfg : Config Key Plain) (batchId : String)
    (s : SessionState Plain) : Except String (Progress Plain) :=
  match cfg.mode with
  | .combined => runMatchingRound cfg.crypto cfg.nodes batchId s
  | .standalone => startRemote cfg.endpoints s

/-- The callback that waited goes on once its round has returned; a
throw ends it. -/
def resumed (rest : Option (List Ref)) (phase : Phase Plain) :
    List (List Ref) :=
  match phase with
  | .returned .threw => []
  | .returned _ => rest.toList
  | _ => []

/-- The world after the first stretch of a round on the session at `r`. -/
def World.startRound (w : World Plain) (r : Ref)
    (rest : Option (List Ref)) (p : Progress Plain) : World Plain :=
  { w with
    committee := w.committee.put r p.session
    rounds := w.rounds ++ [⟨r, rest, p.phase⟩]
    ticks := w.ticks ++ resumed rest p.phase
    uses := w.uses ++ p.uses }

/-- `POST /v1/mpc/sessions/:sessionId/match` -/
def requestMatch (cfg : Config Key Plain) (w : World Plain)
    (sessionId batchId : String) : Except Refusal (World Plain) :=
  match w.committee.getSession sessionId with
  | none => .error .sessionNotFound
  | some (r, s) =>
      if s.status ≠ .opened then
        .error (.alreadyIn s.status)
      else
        match cfg.start batchId s with
        | .error reason => .error (.refused reason)
        | .ok p => .ok (w.startRound r none p)

/-- The timer's loop up to its first `await`. The list was read when the
timer fired and the status is not looked at again. -/
def matchOpen (cfg : Config Key Plain) (w : World Plain)
    (batchId : String) : List Ref → World Plain
  | [] => w
  | r :: rest =>
      match w.committee.heap[r]? with
      | none => matchOpen cfg w batchId rest
      | some s =>
          if s.intents.size < 2 then
            matchOpen cfg w batchId rest
          else
            match cfg.start batchId s with
            | .error _ => matchOpen cfg w batchId rest
            | .ok p => w.startRound r (some rest) p

-- ==================================================== round progress

/-- A node's `POST /internal/decrypt`: every share it has and can
decrypt, null for the others. Assigning the property "__proto__" of an
object adds no property. -/
def nodeDecrypt (crypto : Crypto Key Plain)
    (node : CommitteeNodeKeyPair Key)
    (store : OrderedMap String EncryptedShare) (intentIds : List String) :
    DecryptReply Plain where
  nodeId := node.nodeId
  shares :=
    (intentIds.filter fun id => id ≠ "__proto__").map fun id =>
      (id, (store.get id).bind fun enc =>
        match crypto.decryptShare enc node.secretKey with
        | .ok plain => plain
        | .error _ => none)

/-- The shares that request hands to `decryptShare`. -/
def nodeUses (store : OrderedMap String EncryptedShare)
    (intentIds : List String) : List Use :=
  intentIds.filterMap fun id => (store.get id).map (.decrypted id)

/-- A node answers a decryption request from its own store. -/
def answerDecrypt (cfg : Config Key Plain) (w : World Plain) (k i : ℕ) :
    Except Refusal (World Plain) :=
  match w.rounds[k]? with
  | some ⟨r, rest, .decrypting intentIds answers⟩ =>
      match answers[i]?, cfg.nodes[i]?, w.stores[i]? with
      | some .waiting, some node, some store =>
          let reply := nodeDecrypt cfg.crypto node store intentIds
          .ok
            { w with
              rounds := w.rounds.set k
                ⟨r, rest, .decrypting intentIds (answers.set i (.got reply))⟩
              uses := w.uses ++ nodeUses store intentIds }
      | _, _, _ => .error .noSuch
  | _ => .error .noSuch

/-- A node answers a signing request. -/
def answerSign (cfg : Config Key Plain) (w : World Plain) (k i : ℕ) :
    Except Refusal (World Plain) :=
  match w.rounds[k]? with
  | some ⟨r, rest, .signing batchId matchResults batchHash answers⟩ =>
      match answers[i]?, cfg.nodes[i]? with
      | some .waiting, some node =>
          let sig := cfg.crypto.signBatch batchId matchResults node
          .ok
            { w with
              rounds := w.rounds.set k
                ⟨r, rest, .signing batchId matchResults batchHash
                  (answers.set i (.got sig))⟩ }
      | _, _ => .error .noSuch
  | _ => .error .noSuch

/-- A request that timed out, was refused or never arrived. -/
def loseAnswer (w : World Plain) (k i : ℕ) :
    Except Refusal (World Plain) :=
  match w.rounds[k]? with
  | some ⟨r, rest, .decrypting intentIds answers⟩ =>
      match answers[i]? with
      | some .waiting =>
          .ok
            { w with
              rounds := w.rounds.set k
                ⟨r, rest, .decrypting intentIds (answers.set i .lost)⟩ }
      | _ => .error .noSuch
  | some ⟨r, rest, .signing batchId matchResults batchHash answers⟩ =>
      match answers[i]? with
      | some .waiting =>
          .ok
            { w with
              rounds := w.rounds.set k
                ⟨r, rest, .signing batchId matchResults batchHash
                  (answers.set i .lost)⟩ }
      | _ => .error .noSuch
  | _ => .error .noSuch

/-- The next stretch of a round, once every answer of its `Promise.all`
is in. -/
def Config.continue (cfg : Config Key Plain) (batchId : String)
    (s : SessionState Plain) : Phase Plain → Option (Progress Plain)
  | .decrypting _ answers =>
      if answers.all Answer.settled then
        some (collectDecrypts cfg.crypto cfg.endpoints batchId answers s)
      else
        none
  | .signing batchId matchResults batchHash answers =>
      if answers.all Answer.settled then
        some (collectSignatures cfg.endpoints batchId matchResults
          batchHash answers s)
      else
        none
  | .returned _ => none

/-- The world after a further stretch of its `k`-th round. -/
def World.continueRound (w : World Plain) (k : ℕ) (rd : Round Plain)
    (p : Progress Plain) : World Plain :=
  { w with
    committee := w.committee.put rd.session p.session
    rounds := w.rounds.set k { rd with phase := p.phase }
    ticks := w.ticks ++ resumed rd.rest p.phase
    uses := w.uses ++ p.uses }

/-- A round whose answers have come goes on. -/
def settle (cfg : Config Key Plain) (w : World Plain) (k : ℕ)
    (batchId : String) : Except Refusal (World Plain) :=
  match w.rounds[k]? with
  | none => .error .noSuch
  | some rd =>
      match w.committee.heap[rd.session]? with
      | none => .error .noSuch
      | some s =>
          match cfg.continue batchId s rd.phase with
          | none => .error .noSuch
          | some p => .ok (w.continueRound k rd p)

-- =============================================================== steps

/-- One event. -/
def step (cfg : Config Key Plain) (w : World Plain) :
    Event → Except Refusal (World Plain)
  | .submit intent clock => submit cfg w intent clock
  | .requestMatch sessionId batchId =>
      requestMatch cfg w sessionId batchId
  | .tick batchId =>
      .ok (matchOpen cfg w batchId
        (w.committee.getOpenSessions.map Prod.fst))
  | .resumeTick k batchId =>
      match w.ticks[k]? with
      | none => .error .noSuch
      | some rest =>
          .ok (matchOpen cfg { w with ticks := w.ticks.eraseIdx k } batchId
            rest)
  | .deliver k => deliver cfg w k
  | .answerDecrypt k i => answerDecrypt cfg w k i
  | .answerSign k i => answerSign cfg w k i
  | .loseAnswer k i => loseAnswer w k i
  | .settle k batchId => settle cfg w k batchId

/-- Coordinator and nodes have just started. -/
def World.boot (cfg : Config Key Plain) : World Plain where
  committee := CommitteeState.empty
  rounds := []
  ticks := []
  inFlight := []
  stores := cfg.nodes.map fun _ => OrderedMap.empty
  uses := []

-- ======================================================== what a step is

/-- What made a round start: a request that found the session open, the
timer going through the sessions it found open, or a timer callback
going on with what it had left. -/
inductive Trigger (w : World Plain) (r : Ref) (s : SessionState Plain) :
    Option (List Ref) → List (List Ref) → Prop
  | request (hopen : s.status = .opened) : Trigger w r s none w.ticks
  | timer {rest : List Ref}
      (h : r :: rest <:+ w.committee.getOpenSessions.map Prod.fst) :
      Trigger w r s (some rest) w.ticks
  | resumed {k : ℕ} {left rest : List Ref} (hk : w.ticks[k]? = some left)
      (h : r :: rest <:+ left) :
      Trigger w r s (some rest) (w.ticks.eraseIdx k)

/-- Only the answers of a phase differ. -/
inductive Phase.Answered : Phase Plain → Phase Plain → Prop
  | decrypting (intentIds : List String)
      (a a' : List (Answer (DecryptReply Plain))) :
      Answered (.decrypting intentIds a) (.decrypting intentIds a')
  | signing (batchId : String) (matchResults : List MatchResult)
      (batchHash : String) (a a' : List (Answer NodeSignature)) :
      Answered (.signing batchId matchResults batchHash a)
        (.signing batchId matchResults batchHash a')

/-- Everything an accepted event can do. -/
inductive Stepped (cfg : Config Key Plain) (w : World Plain) :
    Event → World Plain → Prop
  | submitted {intent : MpcIntent} {clock : Clock}
      {committee : CommitteeState Plain} {sid : String}
      (hadd : w.committee.addIntent intent clock = (committee, sid)) :
      Stepped cfg w (.submit intent clock)
        { w with
          committee
          inFlight := w.inFlight ++ distributeShares cfg intent }
  | started {e : Event} {batchId : String} {r : Ref}
      {s : SessionState Plain} {rest : Option (List Ref)}
      {ticks : List (List Ref)} {p : Progress Plain}
      (he : e.submission = none)
      (hs : w.committee.heap[r]? = some s)
      (ht : Trigger w r s rest ticks) (hp : cfg.start batchId s = .ok p) :
      Stepped cfg w e (World.startRound { w with ticks } r rest p)
  | idle {e : Event} {ticks : List (List Ref)}
      (he : e.submission = none)
      (ht : ticks ⊆ w.ticks) : Stepped cfg w e { w with ticks }
  | delivered {k : ℕ} {d : Delivery}
      {store : OrderedMap String EncryptedShare}
      (hd : w.inFlight[k]? = some d)
      (hstore : w.stores[d.node]? = some store) :
      Stepped cfg w (.deliver k)
        { w with
          inFlight := w.inFlight.eraseIdx k
          stores := w.stores.set d.node (store.set d.intentId d.share) }
  | answered {e : Event} {k : ℕ} {rd : Round Plain} {phase : Phase Plain}
      {uses : List Use} (he : e.submission = none)
      (hrd : w.rounds[k]? = some rd) (hphase : rd.phase.Answered phase)
      (huses : ∀ u ∈ uses, ∃ store ∈ w.stores, ∃ id ∈ rd.phase.asked,
        ∃ share, store.get id = some share ∧ u = .decrypted id share) :
      Stepped cfg w e
        { w with
          rounds := w.rounds.set k { rd with phase }
          uses := w.uses ++ uses }
  | continued {k : ℕ} {batchId : String} {rd : Round Plain}
      {s : SessionState Plain} {p : Progress Plain}
      (hrd : w.rounds[k]? = some rd)
      (hs : w.committee.heap[rd.session]? = some s)
      (hp : cfg.continue batchId s rd.phase = some p) :
      Stepped cfg w (.settle k batchId) (w.continueRound k rd p)

/-- What the timer's loop can do with a list: nothing, or start a round
on an entry and keep what follows it. -/
inductive Swept (cfg : Config Key Plain) (w : World Plain)
    (batchId : String) (l : List Ref) : World Plain → Prop
  | nothing : Swept cfg w batchId l w
  | started {r : Ref} {s : SessionState Plain} {rest : List Ref}
      {p : Progress Plain} (hsuf : r :: rest <:+ l)
      (hs : w.committee.heap[r]? = some s)
      (hp : cfg.start batchId s = .ok p) :
      Swept cfg w batchId l (w.startRound r (some rest) p)

/-- A tick that passes a session over. -/
theorem Swept.cons {cfg : Config Key Plain} {w w' : World Plain}
    {batchId : String} {l : List Ref} (h : Swept cfg w batchId l w')
    (r : Ref) : Swept cfg w batchId (r :: l) w' := by
  cases h with
  | nothing => exact .nothing
  | started hsuf hs hp =>
      exact .started (hsuf.trans (List.suffix_cons ..)) hs hp

/-- What a tick does to the open sessions. -/
theorem swept_matchOpen (cfg : Config Key Plain) (w : World Plain)
    (batchId : String) (l : List Ref) :
    Swept cfg w batchId l (matchOpen cfg w batchId l) := by
  induction l with
  | nil => exact .nothing
  | cons r l ih =>
      rw [matchOpen]
      cases hs : w.committee.heap[r]? with
      | none => exact ih.cons r
      | some s =>
          by_cases hfew : s.intents.size < 2
          · simp only [if_pos hfew]
            exact ih.cons r
          · simp only [if_neg hfew]
            cases hp : cfg.start batchId s with
            | error reason => exact ih.cons r
            | ok p => exact .started (List.suffix_refl _) hs hp

/-- A node uses the shares it stores. -/
theorem mem_nodeUses {store : OrderedMap String EncryptedShare}
    {intentIds : List String} {u : Use}
    (h : u ∈ nodeUses store intentIds) :
    ∃ id ∈ intentIds, ∃ share,
      store.get id = some share ∧ u = .decrypted id share := by
  obtain ⟨id, hid, hu⟩ := List.mem_filterMap.mp h
  obtain ⟨share, hshare, rfl⟩ := Option.map_eq_some_iff.mp hu
  exact ⟨id, hid, share, hshare, rfl⟩

/-- What a submission does, when it is accepted; -/
theorem stepped_submit {cfg : Config Key Plain} {w w' : World Plain}
    {intent : MpcIntent} {clock : Clock}
    (h : submit cfg w intent clock = .ok w') :
    Stepped cfg w (.submit intent clock) w' := by
  simp only [submit, bind_eq_ok, panicIf_eq_ok, pure_eq_ok] at h
  obtain ⟨-, -, -, -, rfl⟩ := h
  exact .submitted rfl

/-- a matching request; -/
theorem stepped_requestMatch {cfg : Config Key Plain}
    {w w' : World Plain} {sessionId batchId : String}
    (h : requestMatch cfg w sessionId batchId = .ok w') :
    Stepped cfg w (.requestMatch sessionId batchId) w' := by
  unfold requestMatch at h
  cases hg : w.committee.getSession sessionId with
  | none => rw [hg] at h; cases h
  | some p =>
      obtain ⟨r, s⟩ := p
      rw [hg] at h
      by_cases hopen : s.status = .opened
      · simp only [hopen, ne_eq, not_true, if_false] at h
        cases hp : cfg.start batchId s with
        | error reason => rw [hp] at h; cases h
        | ok p =>
            rw [hp] at h
            injection h with h
            subst h
            exact .started rfl
              (CommitteeState.getSession_eq_some.mp hg).2
              (.request hopen) hp
      · simp only [hopen, ne_eq, not_false_eq_true, if_true] at h
        cases h

/-- a delivery; -/
theorem stepped_deliver {cfg : Config Key Plain} {w w' : World Plain}
    {k : ℕ} (h : deliver cfg w k = .ok w') :
    Stepped cfg w (.deliver k) w' := by
  unfold deliver at h
  cases hd : w.inFlight[k]? with
  | none => rw [hd] at h; cases h
  | some d =>
      simp only [hd] at h
      cases hnode : cfg.nodes[d.node]? with
      | none => rw [hnode] at h; cases h
      | some node =>
          cases hstore : w.stores[d.node]? with
          | none => rw [hnode, hstore] at h; cases h
          | some store =>
              simp only [hnode, hstore] at h
              by_cases hid : d.share.nodeId = node.nodeId
              · simp only [hid, ne_eq, not_true, if_false] at h
                injection h with h
                subst h
                exact .delivered hd hstore
              · simp only [hid, ne_eq, not_false_eq_true, if_true] at h
                cases h

/-- An answer for which nothing was decrypted. -/
theorem stepped_quietAnswer {cfg : Config Key Plain} {w : World Plain}
    {e : Event} {k : ℕ} {rd : Round Plain} {phase : Phase Plain}
    (he : e.submission = none)
    (hrd : w.rounds[k]? = some rd) (hphase : rd.phase.Answered phase) :
    Stepped cfg w e
      { w with rounds := w.rounds.set k { rd with phase } } := by
  have hanswered : Stepped cfg w e
      { w with
        rounds := w.rounds.set k { rd with phase }
        uses := w.uses ++ [] } :=
    .answered he hrd hphase (fun u hu => by cases hu)
  rw [List.append_nil] at hanswered
  exact hanswered

/-- an answer to a decryption request; -/
theorem stepped_answerDecrypt {cfg : Config Key Plain}
    {w w' : World Plain} {k i : ℕ}
    (h : answerDecrypt cfg w k i = .ok w') :
    Stepped cfg w (.answerDecrypt k i) w' := by
  unfold answerDecrypt at h
  split at h
  · rename_i r rest intentIds answers hrd
    split at h
    · rename_i node store ha hnode hstore
      injection h with h
      subst h
      refine .answered rfl hrd
        (.decrypting intentIds answers _) ?_
      intro u hu
      obtain ⟨id, hid, share, hget, rfl⟩ := mem_nodeUses hu
      exact ⟨store, List.mem_of_getElem? hstore, id, hid, share, hget, rfl⟩
    · cases h
  · cases h

/-- to a signing request; -/
theorem stepped_answerSign {cfg : Config Key Plain} {w w' : World Plain}
    {k i : ℕ} (h : answerSign cfg w k i = .ok w') :
    Stepped cfg w (.answerSign k i) w' := by
  unfold answerSign at h
  split at h
  · rename_i r rest batchId matchResults batchHash answers hrd
    split at h
    · rename_i node ha hnode
      injection h with h
      subst h
      exact stepped_quietAnswer rfl hrd
        (.signing batchId matchResults batchHash answers _)
    · cases h
  · cases h

/-- an answer that is lost; -/
theorem stepped_loseAnswer {cfg : Config Key Plain} {w w' : World Plain}
    {k i : ℕ} (h : loseAnswer w k i = .ok w') :
    Stepped cfg w (.loseAnswer k i) w' := by
  unfold loseAnswer at h
  split at h
  · rename_i r rest intentIds answers hrd
    split at h
    · injection h with h
      subst h
      exact stepped_quietAnswer rfl hrd
        (.decrypting intentIds answers _)
    · cases h
  · rename_i r rest batchId matchResults batchHash answers hrd
    split at h
    · injection h with h
      subst h
      exact stepped_quietAnswer rfl hrd
        (.signing batchId matchResults batchHash answers _)
    · cases h
  · cases h

/-- and a round that goes on. -/
theorem stepped_settle {cfg : Config Key Plain} {w w' : World Plain}
    {k : ℕ} {batchId : String} (h : settle cfg w k batchId = .ok w') :
    Stepped cfg w (.settle k batchId) w' := by
  unfold settle at h
  cases hrd : w.rounds[k]? with
  | none => rw [hrd] at h; cases h
  | some rd =>
      simp only [hrd] at h
      cases hs : w.committee.heap[rd.session]? with
      | none => rw [hs] at h; cases h
      | some s =>
          simp only [hs] at h
          cases hp : cfg.continue batchId s rd.phase with
          | none => rw [hp] at h; cases h
          | some p =>
              rw [hp] at h
              injection h with h
              subst h
              exact .continued hrd hs hp

/-- The inversion of one accepted event. -/
theorem step_cases {cfg : Config Key Plain} {w w' : World Plain}
    {e : Event} (h : step cfg w e = .ok w') : Stepped cfg w e w' := by
  cases e with
  | submit intent clock => exact stepped_submit h
  | requestMatch sessionId batchId => exact stepped_requestMatch h
  | tick batchId =>
      injection h with h
      have hswept := swept_matchOpen cfg w batchId
        (w.committee.getOpenSessions.map Prod.fst)
      rw [h] at hswept
      cases hswept with
      | nothing => exact .idle rfl (List.Subset.refl _)
      | started hsuf hs hp => exact .started rfl hs (.timer hsuf) hp
  | resumeTick k batchId =>
      simp only [step] at h
      cases hk : w.ticks[k]? with
      | none => rw [hk] at h; cases h
      | some rest =>
          rw [hk] at h
          injection h with h
          have hswept := swept_matchOpen cfg
            { w with ticks := w.ticks.eraseIdx k } batchId rest
          rw [h] at hswept
          cases hswept with
          | nothing => exact .idle rfl (List.eraseIdx_subset ..)
          | started hsuf hs hp =>
              exact .started rfl hs (.resumed hk hsuf) hp
  | deliver k => exact stepped_deliver h
  | answerDecrypt k i => exact stepped_answerDecrypt h
  | answerSign k i => exact stepped_answerSign h
  | loseAnswer k i => exact stepped_loseAnswer h
  | settle k batchId => exact stepped_settle h

-- ================================================== a committee of three

namespace Demo

/-- Shares of a polynomial whose random coefficient came out zero: the
`y` of every share is the amount, here the length of the ciphertext. -/
def crypto : Crypto ℕ (ℕ × ℕ) where
  decryptShare := fun share x => .ok (some (x, share.ciphertext.length))
  reconstructAmount
    | (x₁, y₁) :: (x₂, y₂) :: _ =>
        some ((y₁ * x₂ - y₂ * x₁) / (x₂ - x₁))
    | _ => none
  computeBatchHash := fun batchId _ => batchId
  signBatch := fun batchId _ node =>
    { nodeId := node.nodeId
      signingPubkey := node.nodeId
      signature := batchId }

/-- Three nodes. -/
def nodes : List (CommitteeNodeKeyPair ℕ) :=
  [⟨"node-1", 1⟩, ⟨"node-2", 2⟩, ⟨"node-3", 3⟩]

/-- In one process, -/
def combined : Config ℕ (ℕ × ℕ) where
  mode := .combined
  nodes := nodes
  endpoints := []
  crypto := crypto
  pathParam := some

/-- or each on its own. -/
def standalone : Config ℕ (ℕ × ℕ) :=
  { combined with
    mode := .standalone
    endpoints := nodes.map (·.nodeId) }

/-- An intent with the same ciphertext for each node. -/
def intent (intentId inputAsset outputAsset ciphertext : String) :
    MpcIntent where
  intentId := intentId
  inputAsset := inputAsset
  outputAsset := outputAsset
  encryptedShares := nodes.map fun node =>
    { ciphertext, nonce := "", senderPubkey := "", nodeId := node.nodeId }

/-- A clock that stands. -/
def clockAt (now : ℤ) : Clock := ⟨now, now⟩

end Demo

/-- Two complementary intents cross for the smaller amount. -/
example :
    ((Run.run (step Demo.combined) (World.boot Demo.combined)
      [.submit (Demo.intent "a" "X" "Y" "....") (Demo.clockAt 7),
       .submit (Demo.intent "b" "Y" "X" "......") (Demo.clockAt 8),
       .tick "batch"]).committee.batches.map
        SignedMatchBatch.matchResults)
      = [[⟨"a", "b", "4", "X", "Y"⟩]] := by
  decide +kernel

end Lumix.Committee
