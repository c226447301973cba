/-
An open session is matched by the next round of the combined process.

While a session is open nobody decrypts anything in it, so every entry is
as it was submitted. If each submission brings a whole sharing of its
amount, one share for every node, the open session carries a sharing of
each of its intents as it was submitted last (`opened_run`): a submission of an
id that is there already, of another amount perhaps, overwrites the
shares at every node. The next request or tick signs the matches of the
true amounts (`matched_next`).
-/
import Lumix.Committee.Batches
import Lumix.Committee.Quorum
import Lumix.Committee.Sessions

namespace Lumix.Committee

open Exec Run

variable {Key Plain : Type}

-- ========================================================= submissions

/-- An intent brings for every node, in their order, one share of a
2-of-n sharing of the amount, and that node can open it. -/
structure BringsSharing (cfg : Config Key Plain) (decode : Plain → Option Share)
    (amount : ℕ) (intent : MpcIntent) : Prop where
  amount_lt : amount < P
  nodeIds : intent.encryptedShares.map EncryptedShare.nodeId
    = cfg.nodes.map (·.nodeId)
  shares : ∃ draws shares,
    shamirSplit draws amount 2 cfg.nodes.length = .ok shares
      ∧ ∀ (i : ℕ) node, cfg.nodes[i]? = some node →
        ∃ sh plain share, intent.encryptedShares[i]? = some sh
          ∧ cfg.crypto.decryptShare sh node.secretKey = .ok (some plain)
          ∧ decode plain = some share ∧ shares[i]? = some share

-- ============================================================= entries

section

variable
  {m : OrderedMap String (OrderedMap String (NodeShareEntry Plain))}
  {intentId n id : String}

/-- The other entries are left alone by a stored share. -/
theorem entry_storeShare_ne {sh : EncryptedShare}
    (h : sh.nodeId ≠ n ∨ intentId ≠ id) :
    ((SessionState.storeShare intentId m sh).get n).bind
        (fun x => x.get id)
      = (m.get n).bind fun x => x.get id := by
  rw [SessionState.storeShare, OrderedMap.get_set]
  by_cases hn : sh.nodeId = n
  · subst hn
    have hid : intentId ≠ id := h.resolve_left (fun hne => hne rfl)
    rw [if_pos rfl, Option.bind_some, OrderedMap.get_set, if_neg hid]
    cases m.get sh.nodeId with
    | none => rfl
    | some x => rfl
  · rw [if_neg hn]

/-- Storing shares of another intent, or for other nodes, leaves this
entry alone. -/
theorem entry_storeShares_ne {l : List EncryptedShare}
    (h : (∀ sh ∈ l, sh.nodeId ≠ n) ∨ intentId ≠ id) :
    ((l.foldl (SessionState.storeShare intentId) m).get n).bind
        (fun x => x.get id)
      = (m.get n).bind fun x => x.get id := by
  induction l generalizing m with
  | nil => rfl
  | cons sh l ih =>
      rw [List.foldl_cons, ih (h.imp_left fun hl sh' hsh' =>
        hl sh' (List.mem_cons_of_mem _ hsh'))]
      exact entry_storeShare_ne
        (h.imp_left fun hl => hl sh (List.mem_cons_self ..))

/-- Each share is stored where it is for one node only. -/
theorem entry_storeShares {l : List EncryptedShare}
    (hnodup : (l.map EncryptedShare.nodeId).Nodup) {sh : EncryptedShare}
    (hsh : sh ∈ l) :
    ((l.foldl (SessionState.storeShare intentId) m).get sh.nodeId).bind
        (fun x => x.get intentId)
      = some
        { intentId
          nodeId := sh.nodeId
          encryptedShare := sh.toSealedShare
          decryptedShare := none } := by
  induction l generalizing m with
  | nil => cases hsh
  | cons sh' l ih =>
      rw [List.map_cons, List.nodup_cons] at hnodup
      rw [List.foldl_cons]
      rcases List.mem_cons.mp hsh with rfl | hsh
      · rw [entry_storeShares_ne (.inl fun s hs heq =>
          hnodup.1 (List.mem_map.mpr ⟨s, hs, heq⟩))]
        rw [SessionState.storeShare, OrderedMap.get_set_self,
          Option.bind_some, OrderedMap.get_set_self]
      · exact ih hnodup.2 hsh

end

-- ======================================================= open sessions

variable {cfg : Config Key Plain} {decode : Plain → Option Share}
  {amount : MpcIntent → ℕ}

/-- The amounts of a session's intents, by their ids. -/
def SessionState.amounts (s : SessionState Plain)
    (amount : MpcIntent → ℕ) (id : String) : ℕ :=
  ((s.intents.get id).map amount).getD 0

/-- A session that is as it was submitted. -/
structure SessionState.Ready (cfg : Config Key Plain)
    (decode : Plain → Option Share) (amount : MpcIntent → ℕ)
    (s : SessionState Plain) : Prop where
  untouched : s.Untouched
  carries : ∀ id i, s.intents.get id = some i →
    Carries cfg.crypto decode cfg.nodes s id (amount i)

/-- A ready session carries the amounts of its intents. -/
theorem SessionState.Ready.carries_amounts {s : SessionState Plain}
    (h : s.Ready cfg decode amount) :
    ∀ id ∈ s.intents.keys,
      Carries cfg.crypto decode cfg.nodes s id (s.amounts amount id) := by
  intro id hid
  obtain ⟨i, hi⟩ := OrderedMap.mem_keys.mp hid
  rw [SessionState.amounts, hi, Option.map_some, Option.getD_some]
  exact h.carries id i hi

/-- A fresh session is ready. -/
theorem ready_fresh (sessionId : String) (started : ℤ) :
    (SessionState.fresh sessionId started : SessionState Plain).Ready cfg
      decode amount where
  untouched := untouched_fresh sessionId started
  carries := fun id i hi => by cases hi

/-- It stays so when an intent brings its sharing. -/
theorem ready_addIntent (hdistinct : (cfg.nodes.map (·.nodeId)).Nodup)
    {s : SessionState Plain} (h : s.Ready cfg decode amount)
    {intent : MpcIntent}
    (hshared : BringsSharing cfg decode (amount intent) intent) :
    (s.addIntent intent).Ready cfg decode amount where
  untouched := untouched_addIntent h.untouched intent
  carries := by
    intro id i hi
    rw [SessionState.get_intents_addIntent] at hi
    by_cases hsame : intent.intentId = id
    · rw [if_pos hsame] at hi
      injection hi with hi
      subst hi hsame
      obtain ⟨draws, shares, hsplit, hopen⟩ := hshared.shares
      refine ⟨hshared.amount_lt, draws, shares, hsplit, ?_⟩
      intro j node hnode
      obtain ⟨sh, plain, share, hsh, hdecrypt, hdecode, hshare⟩ :=
        hopen j node hnode
      have hid : sh.nodeId = node.nodeId := by
        have hat := congrArg (·[j]?) hshared.nodeIds
        simp only [List.getElem?_map, hsh, hnode, Option.map_some] at hat
        exact Option.some.inj hat
      have hentry : (s.addIntent intent).entry sh.nodeId intent.intentId
          = some _ :=
        entry_storeShares (hshared.nodeIds ▸ hdistinct)
          (List.mem_of_getElem? hsh)
      rw [hid] at hentry
      refine ⟨_, plain, share, hentry, ?_, hdecode, hshare⟩
      have hforNode : sh.toSealedShare.forNode node.nodeId = sh := by
        rw [← hid]
        rfl
      exact hforNode ▸ hdecrypt
    · rw [if_neg hsame] at hi
      obtain ⟨hlt, draws, shares, hsplit, hopen⟩ := h.carries id i hi
      refine ⟨hlt, draws, shares, hsplit, fun j node hnode => ?_⟩
      obtain ⟨e, plain, share, he, hrest⟩ := hopen j node hnode
      exact ⟨e, plain, share,
        (entry_storeShares_ne (.inr hsame)).trans he, hrest⟩

/-- Every open session is. -/
def CommitteeState.Opened (cfg : Config Key Plain)
    (decode : Plain → Option Share) (amount : MpcIntent → ℕ)
    (c : CommitteeState Plain) : Prop :=
  ∀ (r : Ref) s, c.heap[r]? = some s → s.status = .opened →
    s.Ready cfg decode amount

variable {w w' : World Plain} {e : Event}

/-- Only a submission touches an open session. -/
theorem Protocol.opened_kept (h : Protocol w)
    (hstep : Stepped cfg w e w') (he : e.submission = none) {r : Ref}
    {s : SessionState Plain} (hs : w'.committee.heap[r]? = some s)
    (hopen : s.status = .opened) : w.committee.heap[r]? = some s := by
  cases hstep with
  | submitted hadd => cases he
  | started he hs₁ ht hp =>
      obtain ⟨hopen₁, -, -⟩ := h.trigger hs₁ ht
      have hsound := Config.start_sound (h.orderly.opens _ _ hs₁ hopen₁).2 hp
      rcases CommitteeState.cell_of_put hs₁ hs with ⟨rfl, rfl⟩ | ⟨-, hs⟩
      · exact absurd hopen hsound.phase.stands.not_opened
      · exact hs
  | idle he ht => exact hs
  | delivered hd hstore => exact hs
  | answered he hrd hphase huses => exact hs
  | continued hrd hs₁ hp =>
      have hsound := h.continue_sound hrd hs₁ hp
      rcases CommitteeState.cell_of_put hs₁ hs with ⟨rfl, rfl⟩ | ⟨-, hs⟩
      · exact absurd hopen hsound.phase.stands.not_opened
      · exact hs

/-- So every open session is, whichever the intent is added to. -/
theorem opened_added (hdistinct : (cfg.nodes.map (·.nodeId)).Nodup)
    {c c' : CommitteeState Plain} (h : c.Opened cfg decode amount)
    {intent : MpcIntent}
    (hshared : BringsSharing cfg decode (amount intent) intent)
    {clock : Clock} {sid : String}
    (hadd : CommitteeState.Added c intent clock c' sid) :
    c'.Opened cfg decode amount := by
  intro r s hs hopen
  cases hadd with
  | found hmem hopen₁ =>
      obtain ⟨-, hs₁⟩ := CommitteeState.mem_allSessions.mp hmem
      rcases CommitteeState.cell_of_put hs₁ hs with ⟨rfl, rfl⟩ | ⟨-, hs⟩
      · exact ready_addIntent hdistinct (h r _ hs₁ hopen₁) hshared
      · exact h r s hs hopen
  | created hnone =>
      rcases Nat.lt_or_ge r c.heap.length with hlt | hge
      · rw [List.getElem?_append_left hlt] at hs
        exact h r s hs hopen
      · rw [List.getElem?_append_right hge] at hs
        rw [List.mem_singleton.mp (List.mem_of_getElem? hs)]
        exact ready_addIntent hdistinct (ready_fresh _ _) hshared

/-- What one accepted event keeps. -/
theorem opened_step (hdistinct : (cfg.nodes.map (·.nodeId)).Nodup)
    (hprotocol : Protocol w) (h : w.committee.Opened cfg decode amount)
    (he : ∀ intent clock, e = .submit intent clock →
      BringsSharing cfg decode (amount intent) intent)
    (hstep : step cfg w e = .ok w') :
    w'.committee.Opened cfg decode amount := by
  have hstepped := step_cases hstep
  cases hsub : e.submission with
  | none =>
      intro r s hs hopen
      exact h r s (hprotocol.opened_kept hstepped hsub hs hopen) hopen
  | some p =>
      cases e with
      | submit intent clock =>
          obtain ⟨sid, hadd⟩ := hstepped.added
          exact opened_added hdistinct h (he intent clock rfl) hadd
      | requestMatch | tick | resumeTick | deliver | answerDecrypt
      | answerSign | loseAnswer | settle => cases hsub

/-- In every run to which only whole sharings were submitted. -/
theorem opened_run (hdistinct : (cfg.nodes.map (·.nodeId)).Nodup)
    {es : List Event}
    (hes : ∀ intent clock, .submit intent clock ∈ es →
      BringsSharing cfg decode (amount intent) intent) :
    (run (step cfg) (World.boot cfg) es).committee.Opened cfg decode
      amount := by
  have hrun : Protocol (run (step cfg) (World.boot cfg) es)
      ∧ (run (step cfg) (World.boot cfg) es).committee.Opened cfg decode
        amount := by
    refine history_induction_of
      (fun t => ∀ intent clock, t.event = .submit intent clock →
        BringsSharing cfg decode (amount intent) intent)
      (fun _ w => Protocol w ∧ w.committee.Opened cfg decode amount)
      ⟨Protocol.boot cfg, fun r s hs => by cases hs⟩ ?_ es ?_
    · intro _ w w' e h hstep _ he
      exact ⟨h.1.next (step_cases hstep),
        opened_step hdistinct h.1 h.2 he hstep⟩
    · intro t ht intent clock heq
      exact hes intent clock (heq ▸ event_of_mem_accepted ht)
  exact hrun.2

-- ========================================================== the next round

/-- The session at `r` is signed, with these matches, and its batch
served. -/
def World.SignedWith (w : World Plain) (r : Ref)
    (matchResults : List MatchResult) : Prop :=
  ∃ s batch, w.committee.heap[r]? = some s ∧ s.status = .signed
    ∧ s.signedBatch = some batch ∧ batch.matchResults = matchResults
    ∧ batch ∈ w.committee.batches

/-- A round that signs at once has its session signed. -/
theorem signedWith_startRound {r : Ref} {s : SessionState Plain}
    {sessionId : String} (hmap : w.committee.sessions.get sessionId = some r)
    (hs : w.committee.heap[r]? = some s) {rest : Option (List Ref)}
    {p : Progress Plain} {matchResults : List MatchResult}
    (h : SignsMatches (.ok p) matchResults) :
    (w.startRound r rest p).SignedWith r matchResults := by
  obtain ⟨p', batch, heq, -, hstatus, hbatch, hmatch⟩ := h
  injection heq with heq
  subst heq
  obtain ⟨hlt, -⟩ := List.getElem?_eq_some_iff.mp hs
  have hcell : (w.startRound r rest p).committee.heap[r]?
      = some p.session := List.getElem?_set_self hlt
  exact ⟨p.session, batch, hcell, hstatus, hbatch, hmatch,
    mem_batches.mpr ⟨sessionId, r, p.session, hmap, hcell, hstatus,
      hbatch⟩⟩

/-- The combined process signs an open session of at least two intents:
at the next request for it, and at the next tick of the timer. -/
theorem matched_next (hmode : cfg.mode = .combined)
    (hcrypto : cfg.crypto.reconstructAmount = reconstructAmount decode)
    (hdistinct : (cfg.nodes.map (·.nodeId)).Nodup)
    (hn : 2 ≤ cfg.nodes.length) (hn' : cfg.nodes.length < 2 ^ 32)
    (hprotocol : Protocol w) (h : w.committee.Opened cfg decode amount)
    {r : Ref} {s : SessionState Plain}
    (hs : w.committee.heap[r]? = some s) (hopen : s.status = .opened)
    (hsize : 2 ≤ s.intents.size) (batchId : String) :
    (∃ w', step cfg w (.requestMatch s.sessionId batchId) = .ok w'
        ∧ w'.SignedWith r (matchIntents (trueRows s (s.amounts amount))))
      ∧ ∃ w', step cfg w (.tick batchId) = .ok w'
        ∧ w'.SignedWith r (matchIntents (trueRows s (s.amounts amount))) := by
  have hready := h r s hs hopen
  have hsigns := runMatchingRound_signs hcrypto hdistinct hn hn'
    hready.untouched hsize hready.carries_amounts batchId
  have hstart : cfg.start batchId s
      = runMatchingRound cfg.crypto cfg.nodes batchId s := by
    rw [Config.start, hmode]
  obtain ⟨p, batch, hp, hrest⟩ := hsigns
  have hsigned : SignsMatches (.ok p)
      (matchIntents (trueRows s (s.amounts amount))) :=
    ⟨p, batch, rfl, hrest⟩
  rw [hp] at hstart
  have hmap := (hprotocol.orderly.opens r s hs hopen).1
  refine ⟨⟨w.startRound r none p, ?_, signedWith_startRound hmap hs hsigned⟩,
    w.startRound r (some []) p, ?_, signedWith_startRound hmap hs hsigned⟩
  · have hget : w.committee.getSession s.sessionId = some (r, s) :=
      CommitteeState.getSession_eq_some.mpr ⟨hmap, hs⟩
    simp only [step, requestMatch, hget, hopen, ne_eq, not_true_eq_false,
      if_false, hstart]
  · have hlist : w.committee.getOpenSessions.map Prod.fst = [r] := by
      have hmem : (r, s) ∈ w.committee.getOpenSessions :=
        CommitteeState.mem_getOpenSessions.mpr
          ⟨⟨⟨_, hmap⟩, hs⟩, hopen⟩
      have hr : r ∈ w.committee.getOpenSessions.map Prod.fst :=
        List.mem_map_of_mem hmem
      cases hl : w.committee.getOpenSessions.map Prod.fst with
      | nil => rw [hl] at hr; cases hr
      | cons r' rest =>
          have hsuf : r' :: rest
              <:+ w.committee.getOpenSessions.map Prod.fst := by
            rw [hl]
          obtain ⟨rfl, -⟩ := hprotocol.orderly.openSessions_cons hsuf
          rw [hl] at hr
          rw [List.mem_singleton.mp hr]
    have hmany : ¬s.intents.size < 2 := not_lt.mpr hsize
    simp only [step, hlist, matchOpen, hs, if_neg hmany, hstart]

end Lumix.Committee
