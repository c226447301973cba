/-
What is matched are the true amounts, in every run.

A share is on its way four times: in the request that submits it, in the
message to its node, in the node's store, and, opened, in the answer to
the coordinator. `Carried` says of all these places at once that what is
there is a point of its intent's amount: of the same intent, and of the
node that says so. Two points of different nodes are enough for the
amount (`PointsAgree`), so whichever answers come, late or not at all, the rows
of a session are the true ones, and the batch it serves is their matching
(`carried_served`).
-/
import Lumix.Committee.Batches
import Lumix.Committee.Quorum

namespace Lumix.Committee

open Exec Run

variable {Key Plain : Type}

-- ========================================================== the entries

section

variable {P : String → String → NodeShareEntry Plain → Prop}

/-- A property of every entry, by its node and its intent. -/
def EveryEntry (P : String → String → NodeShareEntry Plain → Prop)
    (m : OrderedMap String (OrderedMap String (NodeShareEntry Plain))) :
    Prop :=
  ∀ n id e, (m.get n).bind (fun x => x.get id) = some e → P n id e

variable
  {m : OrderedMap String (OrderedMap String (NodeShareEntry Plain))}

/-- Storing a share asks only for the new entry. -/
theorem everyEntry_storeShare (h : EveryEntry P m) {intentId : String}
    {sh : EncryptedShare}
    (hnew : P sh.nodeId intentId
      { intentId, nodeId := sh.nodeId, encryptedShare := sh.toSealedShare,
        decryptedShare := none }) :
    EveryEntry P (SessionState.storeShare intentId m sh) := by
  intro n id e he
  rw [SessionState.storeShare, OrderedMap.get_set] at he
  by_cases hn : sh.nodeId = n
  · subst hn
    rw [if_pos rfl, Option.bind_some, OrderedMap.get_set] at he
    by_cases hid : intentId = id
    · subst hid
      rw [if_pos rfl] at he
      exact Option.some.inj he ▸ hnew
    · rw [if_neg hid] at he
      apply h sh.nodeId id e
      cases hg : m.get sh.nodeId with
      | none => rw [hg] at he; cases he
      | some x => rw [hg] at he; exact he
  · rw [if_neg hn] at he
    exact h n id e he

/-- One node's entries rewritten. -/
theorem everyEntry_modify (h : EveryEntry P m) {n : String}
    {f : OrderedMap String (NodeShareEntry Plain) →
      OrderedMap String (NodeShareEntry Plain)}
    (hf : ∀ x, (∀ id e, x.get id = some e → P n id e) →
      ∀ id e, (f x).get id = some e → P n id e) :
    EveryEntry P (m.modify n f) := by
  intro n' id e he
  rw [OrderedMap.get_modify] at he
  by_cases hn : n = n'
  · subst hn
    rw [if_pos rfl] at he
    cases hg : m.get n with
    | none => rw [hg] at he; cases he
    | some x =>
        rw [hg] at he
        refine hf x (fun id e hx => h n id e ?_) id e he
        rw [hg]
        exact hx
  · rw [if_neg hn] at he
    exact h n' id e he

end

-- ====================================================== what is carried

/-- What a share opens to, at the node it is for, is a point of its
intent. -/
def Good (cfg : Config Key Plain) (Point : String → String → Plain → Prop)
    (id : String) (sh : EncryptedShare) : Prop :=
  ∀ node ∈ cfg.nodes, node.nodeId = sh.nodeId → ∀ plain,
    cfg.crypto.decryptShare sh node.secretKey = .ok (some plain) →
    Point id sh.nodeId plain

/-- The points of two nodes give no other amount. -/
def PointsAgree (crypto : Crypto Key Plain)
    (Point : String → String → Plain → Prop) (amount : String → ℕ) :
    Prop :=
  ∀ id n m p q, n ≠ m → Point id n p → Point id m q →
    ∀ a, crypto.reconstructAmount [p, q] = some a → a = amount id

variable {cfg : Config Key Plain}
  {Point : String → String → Plain → Prop} {amount : String → ℕ}

/-- The share is good, and what was decrypted is its point. -/
def EntryGood (cfg : Config Key Plain)
    (Point : String → String → Plain → Prop) (n id : String)
    (e : NodeShareEntry Plain) : Prop :=
  Good cfg Point id (e.encryptedShare.forNode n)
    ∧ ∀ plain, e.decryptedShare = some plain → Point id n plain

/-- Every entry of the session is good. -/
def SessionState.Carries (cfg : Config Key Plain)
    (Point : String → String → Plain → Prop) (s : SessionState Plain) :
    Prop :=
  EveryEntry (EntryGood cfg Point) s.shares

/-- What a node answers are its own points. -/
def DecryptReply.Points (Point : String → String → Plain → Prop)
    (reply : DecryptReply Plain) : Prop :=
  ∀ p ∈ reply.shares, ∀ plain, p.2 = some plain →
    Point p.1 reply.nodeId plain

/-- Where a round stands, on a session `s`. -/
def Phase.TrueOn (Point : String → String → Plain → Prop)
    (amount : String → ℕ) (s : SessionState Plain) : Phase Plain → Prop
  | .decrypting _ answers =>
      ∀ reply, .got reply ∈ answers → reply.Points Point
  | .signing _ matchResults _ _ =>
      matchResults = matchIntents (trueRows s amount)
  | .returned (.ok batch) =>
      batch.matchResults = matchIntents (trueRows s amount)
  | .returned _ => True

/-- The invariant: at every place a share can be. -/
structure Carried (cfg : Config Key Plain)
    (Point : String → String → Plain → Prop) (amount : String → ℕ)
    (w : World Plain) : Prop where
  sessions : ∀ s ∈ w.committee.heap, s.Carries cfg Point
  inFlight : ∀ d ∈ w.inFlight, Good cfg Point d.intentId d.share
  stores : ∀ (i : ℕ) node store, cfg.nodes[i]? = some node →
    w.stores[i]? = some store → ∀ id sh, store.get id = some sh →
    Good cfg Point id sh ∧ sh.nodeId = node.nodeId
  rounds : ∀ rd ∈ w.rounds, ∀ s,
    w.committee.heap[rd.session]? = some s →
    rd.phase.TrueOn Point amount s

-- ========================================================== the sessions

/-- A fresh session has none. -/
theorem carries_fresh (sessionId : String) (started : ℤ) :
    (SessionState.fresh sessionId started :
      SessionState Plain).Carries cfg Point :=
  fun n id e he => by cases he

/-- An intent with good shares adds good entries. -/
theorem carries_addIntent {s : SessionState Plain}
    (h : s.Carries cfg Point) {intent : MpcIntent}
    (hshares : ∀ sh ∈ intent.encryptedShares,
      Good cfg Point intent.intentId sh) :
    (s.addIntent intent).Carries cfg Point := by
  refine List.foldlRecOn intent.encryptedShares _
    (motive := EveryEntry (EntryGood cfg Point)) h ?_
  intro m hm sh hsh
  exact everyEntry_storeShare hm ⟨hshares sh hsh, nofun⟩

/-- An entry keeps its share and shows a point, or nothing. -/
theorem entryGood_write {n id : String} {e : NodeShareEntry Plain}
    (h : EntryGood cfg Point n id e) {plain : Option Plain}
    (hplain : ∀ p, plain = some p → Point id n p) :
    EntryGood cfg Point n id { e with decryptedShare := plain } :=
  ⟨h.1, hplain⟩

/-- Clearing keeps them good, -/
theorem carries_clearShares {s : SessionState Plain}
    (h : s.Carries cfg Point) (nodeIds : List String) :
    (clearShares nodeIds s).Carries cfg Point := by
  refine List.foldlRecOn nodeIds _
    (motive := EveryEntry (EntryGood cfg Point)) h ?_
  intro m hm n _
  refine everyEntry_modify hm fun x hx id e he => ?_
  rw [OrderedMap.get_mapValues, Option.map_eq_some_iff] at he
  obtain ⟨e₀, he₀, rfl⟩ := he
  exact entryGood_write (hx id e₀ he₀) nofun

/-- One node's entry written with a point of its own. -/
theorem carries_write {m : OrderedMap String (NodeShareEntry Plain)}
    {n k : String} {plain : Option Plain}
    (h : ∀ id e, m.get id = some e → EntryGood cfg Point n id e)
    (hplain : ∀ p, plain = some p → Point k n p) :
    ∀ id e, (m.modify k fun e =>
      { e with decryptedShare := plain }).get id = some e →
      EntryGood cfg Point n id e := by
  intro id e he
  rw [OrderedMap.get_modify] at he
  by_cases hk : k = id
  · subst hk
    rw [if_pos rfl, Option.map_eq_some_iff] at he
    obtain ⟨e₀, he₀, rfl⟩ := he
    exact entryGood_write (h k e₀ he₀) hplain
  · rw [if_neg hk] at he
    exact h id e he

/-- so does a reply with points, -/
theorem carries_applyReply {s : SessionState Plain}
    (h : s.Carries cfg Point) {reply : DecryptReply Plain}
    (hreply : reply.Points Point) :
    (applyReply s reply).Carries cfg Point := by
  refine everyEntry_modify h fun x hx => ?_
  refine List.foldlRecOn reply.shares _
    (motive := fun (m : OrderedMap String (NodeShareEntry Plain)) =>
      ∀ id e, m.get id = some e →
        EntryGood cfg Point reply.nodeId id e) hx ?_
  intro m hm p hp
  exact carries_write hm (hreply p hp)

/-- and so do several. -/
theorem carries_replies {s : SessionState Plain}
    (h : s.Carries cfg Point) {replies : List (DecryptReply Plain)}
    (hreplies : ∀ reply ∈ replies, reply.Points Point) :
    (replies.foldl applyReply s).Carries cfg Point :=
  List.foldlRecOn replies applyReply
    (motive := SessionState.Carries cfg Point) h
    fun _ hs reply hreply => carries_applyReply hs (hreplies reply hreply)

-- ============================================================ decrypting

/-- A node that holds its own shares answers its own points. -/
theorem nodeDecrypt_points {node : CommitteeNodeKeyPair Key}
    (hnode : node ∈ cfg.nodes)
    {store : OrderedMap String EncryptedShare}
    (hstore : ∀ id sh, store.get id = some sh →
      Good cfg Point id sh ∧ sh.nodeId = node.nodeId)
    (intentIds : List String) :
    (nodeDecrypt cfg.crypto node store intentIds).Points Point := by
  intro p hp plain hplain
  obtain ⟨id, -, rfl⟩ := List.mem_map.mp hp
  obtain ⟨enc, henc, hopen⟩ := Option.bind_eq_some_iff.mp hplain
  obtain ⟨hgood, hid⟩ := hstore id enc henc
  cases hd : cfg.crypto.decryptShare enc node.secretKey with
  | error err => rw [hd] at hopen; cases hopen
  | ok opened =>
      rw [hd] at hopen
      have hpoint := hgood node hnode hid.symm plain (hopen ▸ hd)
      rw [hid] at hpoint
      exact hpoint

/-- Decrypting a good entry gives its point, -/
theorem carries_decryptEntry {node : CommitteeNodeKeyPair Key}
    (hnode : node ∈ cfg.nodes) {kv : String × NodeShareEntry Plain}
    (hkv : EntryGood cfg Point node.nodeId kv.1 kv.2)
    {w : SessionState Plain × List Use} (hw : w.1.Carries cfg Point) :
    (∀ w', decryptEntry cfg.crypto node w kv = .ok w' →
        w'.1.Carries cfg Point)
      ∧ ∀ e, decryptEntry cfg.crypto node w kv = .error e →
          e.1.1.Carries cfg Point := by
  simp only [decryptEntry]
  cases hd : cfg.crypto.decryptShare
      (kv.2.encryptedShare.forNode node.nodeId) node.secretKey with
  | error err =>
      refine ⟨fun w' hw' => (by cases hw'), fun e he => ?_⟩
      injection he with he
      exact he ▸ hw
  | ok plain =>
      refine ⟨fun w' hw' => ?_, fun e he => (by cases he)⟩
      injection hw' with hw'
      rw [← hw']
      refine everyEntry_modify hw fun x hx => carries_write hx ?_
      rintro p rfl
      exact hkv.1 node hnode rfl p hd

/-- entry by entry. -/
theorem carries_decryptNode {node : CommitteeNodeKeyPair Key}
    (hnode : node ∈ cfg.nodes) {w : SessionState Plain × List Use}
    (hw : w.1.Carries cfg Point) :
    (∀ w', decryptNode cfg.crypto w node = .ok w' →
        w'.1.Carries cfg Point)
      ∧ ∀ e, decryptNode cfg.crypto w node = .error e →
          e.1.1.Carries cfg Point := by
  unfold decryptNode
  cases hn : w.1.shares.get node.nodeId with
  | none =>
      refine ⟨fun w' hw' => ?_, nofun⟩
      injection hw' with hw'
      exact hw' ▸ hw
  | some nodeShares =>
      have hentries : ∀ kv ∈ nodeShares.entries,
          EntryGood cfg Point node.nodeId kv.1 kv.2 := by
        intro kv hkv
        refine hw node.nodeId kv.1 kv.2 ?_
        rw [hn]
        exact OrderedMap.mem_entries.mp hkv
      exact foldlM_cases
        (fun w : SessionState Plain × List Use => w.1.Carries cfg Point)
        (fun e => e.1.1.Carries cfg Point) hw
        (fun kv hkv w₁ w₂ h₁ =>
          (carries_decryptEntry hnode (hentries kv hkv) h₁).1 w₂)
        (fun kv hkv w₁ e h₁ =>
          (carries_decryptEntry hnode (hentries kv hkv) h₁).2 e)

-- ======================================================= reconstruction

/-- What a session shows of an intent gives its amount or none. -/
theorem reconstructAmount_true {nodeIds : List String}
    (hnodup : nodeIds.Nodup) (hagree : PointsAgree cfg.crypto Point amount)
    {s : SessionState Plain} (hs : s.Carries cfg Point) {id : String}
    (hlen : ¬(availableShares nodeIds s id).length < 2) {a : ℕ}
    (ha : cfg.crypto.reconstructAmount (availableShares nodeIds s id)
      = some a) : a = amount id := by
  have hpoint : ∀ n p, (s.entry n id).bind NodeShareEntry.decryptedShare
      = some p → Point id n p := by
    intro n p hp
    obtain ⟨e, he, hplain⟩ := Option.bind_eq_some_iff.mp hp
    exact (hs n id e he).2 p hplain
  obtain ⟨i, j, n, m, p, q, hij, hi, hj, hp, hq, htake⟩ :=
    filterMap_take_two (l := nodeIds)
      (f := fun n => (s.entry n id).bind NodeShareEntry.decryptedShare)
      (by rw [availableShares, List.length_take] at hlen; omega)
  have hne : n ≠ m := by
    rintro rfl
    obtain ⟨hlt, rfl⟩ := List.getElem?_eq_some_iff.mp hi
    obtain ⟨hlt', hsame⟩ := List.getElem?_eq_some_iff.mp hj
    exact hij (hnodup.getElem_inj_iff.mp hsame).symm
  have hread : availableShares nodeIds s id = [p, q] := htake
  exact hagree id n m p q hne (hpoint n p hp) (hpoint m q hq) a
    (hread ▸ ha)

/-- The rows that come out are the true ones. -/
theorem reconstruct_true {nodeIds : List String}
    (hnodup : nodeIds.Nodup) (hagree : PointsAgree cfg.crypto Point amount)
    {s : SessionState Plain} (hs : s.Carries cfg Point)
    {rows : List Reconstructed}
    (h : s.intents.entries.foldlM
      (reconstructIntent cfg.crypto nodeIds s) [] = .ok rows) :
    rows = trueRows s amount := by
  have hfold : ∀ (l : List (String × MpcIntent)) acc rows,
      l.foldlM (reconstructIntent cfg.crypto nodeIds s) acc = .ok rows →
      rows = acc ++ l.map fun kv =>
        { intentId := kv.1
          amount7dp := amount kv.1
          inputAsset := kv.2.inputAsset
          outputAsset := kv.2.outputAsset } := by
    intro l
    induction l with
    | nil =>
        intro acc rows h
        rw [List.foldlM_nil, pure_eq_ok] at h
        rw [← h, List.map_nil, List.append_nil]
    | cons kv l ih =>
        intro acc rows h
        rw [List.foldlM_cons, bind_eq_ok] at h
        obtain ⟨acc', hstep, h⟩ := h
        simp only [reconstructIntent] at hstep
        split at hstep
        · cases hstep
        · rename_i hlen
          split at hstep
          · cases hstep
          · rename_i a ha
            injection hstep with hstep
            obtain rfl :=
              reconstructAmount_true hnodup hagree hs hlen ha
            rw [ih acc' rows h, ← hstep, List.append_assoc]
            rfl
  exact hfold s.intents.entries [] rows h

-- ============================================================ a stretch

/-- What a stretch of a round leaves. -/
structure Progress.True (cfg : Config Key Plain)
    (Point : String → String → Plain → Prop) (amount : String → ℕ)
    (p : Progress Plain) : Prop where
  session : p.session.Carries cfg Point
  phase : p.phase.TrueOn Point amount p.session

/-- What follows the matches of true amounts may assume them. -/
theorem matchSession_true {nodeIds : List String}
    (hnodup : nodeIds.Nodup) (hagree : PointsAgree cfg.crypto Point amount)
    {s : SessionState Plain} (hs : s.Carries cfg Point) {uses : List Use}
    {next : SessionState Plain → List MatchResult →
      SessionState Plain × Phase Plain}
    (hnext : ∀ s' matchResults, s'.Carries cfg Point →
      matchResults = matchIntents (trueRows s' amount) →
      (next s' matchResults).1.Carries cfg Point
        ∧ (next s' matchResults).2.TrueOn Point amount
            (next s' matchResults).1) :
    (matchSession cfg.crypto nodeIds s uses next).True cfg Point
      amount := by
  unfold matchSession
  split
  · exact ⟨hs, trivial⟩
  · exact ⟨hs, trivial⟩
  · rename_i rows hrows
    obtain rfl := reconstruct_true hnodup hagree hs hrows
    obtain ⟨hsession, hphase⟩ :=
      hnext (clearShares nodeIds s) (matchIntents (trueRows s amount))
        (carries_clearShares hs nodeIds) rfl
    exact ⟨hsession, hphase⟩

/-- So the round in one process matches true amounts, -/
theorem runMatchingRound_true (hnodup : (cfg.nodes.map (·.nodeId)).Nodup)
    (hagree : PointsAgree cfg.crypto Point amount) {s : SessionState Plain}
    (hs : s.Carries cfg Point) {batchId : String} {p : Progress Plain}
    (h : runMatchingRound cfg.crypto cfg.nodes batchId s = .ok p) :
    p.True cfg Point amount := by
  have hloop : (∀ w, cfg.nodes.foldlM (decryptNode cfg.crypto)
        ({ s with status := .matching }, []) = .ok w →
        w.1.Carries cfg Point)
      ∧ ∀ e, cfg.nodes.foldlM (decryptNode cfg.crypto)
          ({ s with status := .matching }, []) = .error e →
        e.1.1.Carries cfg Point :=
    foldlM_cases
      (fun w : SessionState Plain × List Use => w.1.Carries cfg Point)
      (fun e => e.1.1.Carries cfg Point) hs
      (fun node hnode w w' hw => (carries_decryptNode hnode hw).1 w')
      (fun node hnode w e hw => (carries_decryptNode hnode hw).2 e)
  unfold runMatchingRound at h
  split at h
  · cases h
  split at h
  · rename_i herror
    injection h with h
    rw [← h]
    exact ⟨hloop.2 _ herror, trivial⟩
  · rename_i hok
    injection h with h
    rw [← h]
    exact matchSession_true hnodup hagree (hloop.1 _ hok)
      fun s' matchResults hs' heq => ⟨hs', heq⟩

/-- the start of a round -/
theorem start_true (hnodup : (cfg.nodes.map (·.nodeId)).Nodup)
    (hagree : PointsAgree cfg.crypto Point amount) {s : SessionState Plain}
    (hs : s.Carries cfg Point) {batchId : String} {p : Progress Plain}
    (h : cfg.start batchId s = .ok p) : p.True cfg Point amount := by
  unfold Config.start at h
  split at h
  · exact runMatchingRound_true hnodup hagree hs h
  · unfold startRemote at h
    split at h
    · cases h
    · injection h with h
      rw [← h]
      refine ⟨hs, fun reply hreply => ?_⟩
      obtain ⟨-, -, hgot⟩ := List.mem_map.mp hreply
      cases hgot

/-- and its going on. -/
theorem continue_true (hnodup : cfg.endpoints.Nodup)
    (hagree : PointsAgree cfg.crypto Point amount) {s : SessionState Plain}
    (hs : s.Carries cfg Point) {phase : Phase Plain}
    (hphase : phase.TrueOn Point amount s) {batchId : String}
    {p : Progress Plain} (h : cfg.continue batchId s phase = some p) :
    p.True cfg Point amount := by
  unfold Config.continue at h
  split at h
  · rename_i answers
    split at h
    · injection h with h
      rw [← h]
      unfold collectDecrypts
      dsimp only
      split
      · exact ⟨hs, trivial⟩
      · have hreplies : ∀ reply ∈ answers.filterMap Answer.value,
            reply.Points Point := by
          intro reply hreply
          obtain ⟨answer, hanswer, hvalue⟩ := List.mem_filterMap.mp hreply
          cases answer with
          | waiting | lost => cases hvalue
          | got reply' =>
              injection hvalue with hvalue
              exact hvalue ▸ hphase reply' hanswer
        exact matchSession_true hnodup hagree (carries_replies hs hreplies)
          fun s' matchResults hs' heq => ⟨hs', heq⟩
    · cases h
  · split at h
    · injection h with h
      rw [← h]
      unfold collectSignatures
      dsimp only
      split
      · exact ⟨hs, trivial⟩
      · exact ⟨hs, hphase⟩
    · cases h
  · cases h

-- =============================================================== steps

/-- No session of `w'` has other intents than in `w`. -/
def Kept (w w' : World Plain) : Prop :=
  ∀ (r : Ref) s', w'.committee.heap[r]? = some s' →
    ∃ s, w.committee.heap[r]? = some s ∧ s'.intents = s.intents

/-- The true rows of a session are those of its intents. -/
theorem Phase.TrueOn.of_intents {s s' : SessionState Plain}
    (heq : s'.intents = s.intents) {phase : Phase Plain}
    (h : phase.TrueOn Point amount s) : phase.TrueOn Point amount s' := by
  have hrows : trueRows s' amount = trueRows s amount := by
    rw [trueRows, heq, ← trueRows]
  cases phase with
  | decrypting intentIds answers => exact h
  | signing batchId matchResults batchHash answers =>
      exact h.trans (congrArg matchIntents hrows.symm)
  | returned result =>
      cases result with
      | ok batch => exact h.trans (congrArg matchIntents hrows.symm)
      | failed reason => trivial
      | threw => trivial

variable {w w' : World Plain}

/-- A round stays true while its session keeps its intents. -/
theorem Carried.round_kept (h : Carried cfg Point amount w)
    (hkept : Kept w w') {rd : Round Plain} (hrd : rd ∈ w.rounds)
    {s' : SessionState Plain}
    (hs' : w'.committee.heap[rd.session]? = some s') :
    rd.phase.TrueOn Point amount s' := by
  obtain ⟨s, hs, heq⟩ := hkept rd.session s' hs'
  exact (h.rounds rd hrd s hs).of_intents heq

/-- What a submission brings: good shares, and an id that a path
carries. -/
structure Brings (cfg : Config Key Plain)
    (Point : String → String → Plain → Prop) (intent : MpcIntent) :
    Prop where
  shares : ∀ sh ∈ intent.encryptedShares, Good cfg Point intent.intentId sh
  path : cfg.mode = .standalone →
    ∀ id, cfg.pathParam intent.intentId = some id → id = intent.intentId

/-- An intent that brings points leaves every session good. -/
theorem carried_added {intent : MpcIntent}
    (hbrings : Brings cfg Point intent) {c c' : CommitteeState Plain}
    (h : ∀ s ∈ c.heap, s.Carries cfg Point) {clock : Clock}
    {sid : String} (hadd : CommitteeState.Added c intent clock c' sid) :
    ∀ s ∈ c'.heap, s.Carries cfg Point := by
  intro s hs
  cases hadd with
  | found hmem hopen =>
      obtain ⟨-, hs₁⟩ := CommitteeState.mem_allSessions.mp hmem
      rcases List.mem_or_eq_of_mem_set hs with hold | rfl
      · exact h s hold
      · exact carries_addIntent (h _ (List.mem_of_getElem? hs₁))
          hbrings.shares
  | created hnone =>
      rcases List.mem_append.mp hs with hold | hnew
      · exact h s hold
      · rw [List.mem_singleton.mp hnew]
        exact carries_addIntent (carries_fresh _ _) hbrings.shares

/-- What is sent to the nodes is good. -/
theorem good_distributed {intent : MpcIntent}
    (hbrings : Brings cfg Point intent) :
    ∀ d ∈ distributeShares cfg intent, Good cfg Point d.intentId d.share := by
  intro d hd
  unfold distributeShares at hd
  split at hd
  · cases hd
  · rename_i hmode
    obtain ⟨sh, hsh, hd⟩ := List.mem_filterMap.mp hd
    obtain ⟨node, -, hd⟩ := Option.bind_eq_some_iff.mp hd
    obtain ⟨id, hid, rfl⟩ := Option.map_eq_some_iff.mp hd
    rw [hbrings.path hmode id hid]
    exact hbrings.shares sh hsh

/-- A submission keeps all amounts true, -/
theorem carried_submit (hprotocol : Protocol w)
    (h : Carried cfg Point amount w) {intent : MpcIntent}
    (hbrings : Brings cfg Point intent) {clock : Clock}
    (hstep : submit cfg w intent clock = .ok w') :
    Carried cfg Point amount w' := by
  have hstepped := stepped_submit hstep
  obtain ⟨sid, hadd⟩ := hstepped.added
  simp only [submit, bind_eq_ok, panicIf_eq_ok, pure_eq_ok] at hstep
  obtain ⟨-, -, -, -, rfl⟩ := hstep
  refine ⟨carried_added hbrings h.sessions hadd, ?_, h.stores, ?_⟩
  · intro d hd
    rcases List.mem_append.mp hd with hold | hnew
    · exact h.inFlight d hold
    · exact good_distributed hbrings d hnew
  · intro rd hrd s hs
    rw [hprotocol.submit_frame hstepped hrd] at hs
    exact h.rounds rd hrd s hs

/-- A cell overwritten and a round put at the end. -/
theorem carried_startRound (h : Carried cfg Point amount w) {r : Ref}
    {s : SessionState Plain} (hs : w.committee.heap[r]? = some s)
    {rest : Option (List Ref)} {p : Progress Plain}
    (hp : p.True cfg Point amount)
    (hkept : Kept w (w.startRound r rest p)) :
    Carried cfg Point amount (w.startRound r rest p) := by
  refine ⟨?_, h.inFlight, h.stores, ?_⟩
  · intro s' hs'
    rcases List.mem_or_eq_of_mem_set hs' with hold | rfl
    · exact h.sessions s' hold
    · exact hp.session
  · intro rd hrd s' hs'
    rcases List.mem_append.mp hrd with hold | hnew
    · exact h.round_kept hkept hold hs'
    · rw [List.mem_singleton.mp hnew] at hs' ⊢
      rcases CommitteeState.cell_of_put hs hs' with ⟨-, rfl⟩ | ⟨hne, -⟩
      · exact hp.phase
      · exact absurd rfl hne

/-- a tick -/
theorem carried_swept (hnodup : (cfg.nodes.map (·.nodeId)).Nodup)
    (hagree : PointsAgree cfg.crypto Point amount)
    (h : Carried cfg Point amount w) {batchId : String} {l : List Ref}
    (hswept : Swept cfg w batchId l w') (hkept : Kept w w') :
    Carried cfg Point amount w' := by
  cases hswept with
  | nothing => exact h
  | started hsuf hs hp =>
      exact carried_startRound h hs
        (start_true hnodup hagree (h.sessions _ (List.mem_of_getElem? hs))
          hp) hkept

/-- and a request. -/
theorem carried_requestMatch (hnodup : (cfg.nodes.map (·.nodeId)).Nodup)
    (hagree : PointsAgree cfg.crypto Point amount)
    (h : Carried cfg Point amount w) {sessionId batchId : String}
    (hstep : requestMatch cfg w sessionId batchId = .ok w')
    (hkept : Kept w w') : Carried cfg Point amount w' := by
  unfold requestMatch at hstep
  split at hstep
  · cases hstep
  rename_i r s hsession
  obtain ⟨-, hs⟩ := CommitteeState.getSession_eq_some.mp hsession
  split at hstep
  · cases hstep
  split at hstep
  · cases hstep
  · rename_i hp
    injection hstep with hstep
    subst hstep
    exact carried_startRound h hs
      (start_true hnodup hagree (h.sessions _ (List.mem_of_getElem? hs)) hp)
      hkept

/-- The store a message comes to. -/
theorem carried_deliver (h : Carried cfg Point amount w) {k : ℕ}
    (hstep : deliver cfg w k = .ok w') : Carried cfg Point amount w' := by
  unfold deliver at hstep
  split at hstep
  · cases hstep
  rename_i d hd
  split at hstep
  · rename_i node store hnode hstore
    split at hstep
    · cases hstep
    · rename_i hid
      injection hstep with hstep
      subst hstep
      refine ⟨h.sessions, fun d' hd' =>
        h.inFlight d' (List.mem_of_mem_eraseIdx hd'), ?_, h.rounds⟩
      intro i node' store' hnode' hstore' id sh hget
      by_cases hi : d.node = i
      · subst hi
        obtain ⟨hlt, -⟩ := List.getElem?_eq_some_iff.mp hstore
        obtain rfl : node = node' := by
          rw [hnode] at hnode'
          exact Option.some.inj hnode'
        rw [List.getElem?_set_self hlt] at hstore'
        injection hstore' with hstore'
        subst hstore'
        rw [OrderedMap.get_set] at hget
        by_cases hsame : d.intentId = id
        · rw [if_pos hsame] at hget
          injection hget with hget
          subst hget
          refine ⟨hsame ▸ h.inFlight d (List.mem_of_getElem? hd), ?_⟩
          exact not_not.mp hid
        · rw [if_neg hsame] at hget
          exact h.stores d.node node store hnode hstore id sh hget
      · rw [List.getElem?_set_ne hi] at hstore'
        exact h.stores i node' store' hnode' hstore' id sh hget
  · cases hstep

/-- A round moved on in its place, with its session or without. -/
theorem Carried.set (h : Carried cfg Point amount w) {k : ℕ}
    {rd : Round Plain} {c : CommitteeState Plain} {uses : List Use}
    {ticks : List (List Ref)}
    (hc : ∀ s ∈ c.heap, s.Carries cfg Point)
    (hkept : Kept w { w with committee := c })
    (hrd : ∀ s, c.heap[rd.session]? = some s →
      rd.phase.TrueOn Point amount s) :
    Carried cfg Point amount
      { w with
        committee := c
        rounds := w.rounds.set k rd
        ticks
        uses } := by
  refine ⟨hc, h.inFlight, h.stores, ?_⟩
  intro rd' hrd' s' hs'
  rcases List.mem_or_eq_of_mem_set hrd' with hold | rfl
  · exact h.round_kept hkept hold hs'
  · exact hrd s' hs'

/-- A moment in which nothing happened. -/
theorem Kept.refl (w : World Plain) : Kept w w :=
  fun _ s' hs' => ⟨s', hs', rfl⟩

/-- So does an answer to a decryption request, -/
theorem carried_answerDecrypt (h : Carried cfg Point amount w) {k i : ℕ}
    (hstep : answerDecrypt cfg w k i = .ok w') :
    Carried cfg Point amount w' := by
  unfold answerDecrypt at hstep
  split at hstep
  · rename_i r rest intentIds answers hk
    split at hstep
    · rename_i node store hwaiting hnode hstore
      injection hstep with hstep
      subst hstep
      refine h.set h.sessions (Kept.refl w) fun s hs reply hreply => ?_
      rcases List.mem_or_eq_of_mem_set hreply with hold | heq
      · exact h.rounds _ (List.mem_of_getElem? hk) s hs reply hold
      · injection heq with heq
        rw [heq]
        exact nodeDecrypt_points (List.mem_of_getElem? hnode)
          (h.stores i node store hnode hstore) intentIds
    · cases hstep
  · cases hstep

/-- to a signing request, -/
theorem carried_answerSign (h : Carried cfg Point amount w) {k i : ℕ}
    (hstep : answerSign cfg w k i = .ok w') :
    Carried cfg Point amount w' := by
  unfold answerSign at hstep
  split at hstep
  · rename_i hk
    split at hstep
    · injection hstep with hstep
      subst hstep
      exact h.set h.sessions (Kept.refl w) fun s hs =>
        h.rounds _ (List.mem_of_getElem? hk) s hs
    · cases hstep
  · cases hstep

/-- a lost answer -/
theorem carried_loseAnswer (h : Carried cfg Point amount w) {k i : ℕ}
    (hstep : loseAnswer w k i = .ok w') : Carried cfg Point amount w' := by
  unfold loseAnswer at hstep
  split at hstep
  · rename_i hk
    split at hstep
    · injection hstep with hstep
      subst hstep
      refine h.set h.sessions (Kept.refl w) fun s hs reply hreply => ?_
      rcases List.mem_or_eq_of_mem_set hreply with hold | heq
      · exact h.rounds _ (List.mem_of_getElem? hk) s hs reply hold
      · cases heq
    · cases hstep
  · rename_i hk
    split at hstep
    · injection hstep with hstep
      subst hstep
      exact h.set h.sessions (Kept.refl w) fun s hs =>
        h.rounds _ (List.mem_of_getElem? hk) s hs
    · cases hstep
  · cases hstep

/-- and a round that goes on. -/
theorem carried_settle (hnodup : cfg.endpoints.Nodup)
    (hagree : PointsAgree cfg.crypto Point amount)
    (h : Carried cfg Point amount w) {k : ℕ} {batchId : String}
    (hstep : settle cfg w k batchId = .ok w') (hkept : Kept w w') :
    Carried cfg Point amount w' := by
  unfold settle at hstep
  split at hstep
  · cases hstep
  rename_i rd hrd
  split at hstep
  · cases hstep
  rename_i s hs
  split at hstep
  · cases hstep
  · rename_i p hp
    injection hstep with hstep
    subst hstep
    have hp := continue_true hnodup hagree
      (h.sessions s (List.mem_of_getElem? hs))
      (h.rounds rd (List.mem_of_getElem? hrd) s hs) hp
    refine h.set ?_ hkept ?_
    · intro s' hs'
      rcases List.mem_or_eq_of_mem_set hs' with hold | rfl
      · exact h.sessions s' hold
      · exact hp.session
    · intro s' hs'
      rcases CommitteeState.cell_of_put hs hs' with ⟨-, rfl⟩ | ⟨hne, -⟩
      · exact hp.phase
      · exact absurd rfl hne

/-- A deployment whose nodes have different ids. -/
structure Distinct (cfg : Config Key Plain) : Prop where
  nodes : (cfg.nodes.map (·.nodeId)).Nodup
  endpoints : cfg.endpoints.Nodup

/-- What one accepted event keeps. -/
theorem carried_step (hdistinct : Distinct cfg)
    (hagree : PointsAgree cfg.crypto Point amount) (hprotocol : Protocol w)
    (h : Carried cfg Point amount w) {e : Event}
    (he : ∀ intent clock, e = .submit intent clock →
      Brings cfg Point intent)
    (hstep : step cfg w e = .ok w') : Carried cfg Point amount w' := by
  have hkept : e.submission = none → Kept w w' := fun hnone r s' =>
    hprotocol.intents_kept (step_cases hstep) hnone
  cases e with
  | submit intent clock =>
      exact carried_submit hprotocol h (he intent clock rfl) hstep
  | requestMatch sessionId batchId =>
      exact carried_requestMatch hdistinct.nodes hagree h hstep (hkept rfl)
  | tick batchId =>
      injection hstep with hstep
      subst hstep
      exact carried_swept hdistinct.nodes hagree h
        (swept_matchOpen cfg w batchId _) (hkept rfl)
  | resumeTick k batchId =>
      have hkept := hkept rfl
      simp only [step] at hstep
      split at hstep
      · cases hstep
      · injection hstep with hstep
        subst hstep
        exact carried_swept
          (w := { w with ticks := w.ticks.eraseIdx k })
          hdistinct.nodes hagree
          ⟨h.sessions, h.inFlight, h.stores, h.rounds⟩
          (swept_matchOpen cfg _ batchId _) hkept
  | deliver k => exact carried_deliver h hstep
  | answerDecrypt k i => exact carried_answerDecrypt h hstep
  | answerSign k i => exact carried_answerSign h hstep
  | loseAnswer k i => exact carried_loseAnswer h hstep
  | settle k batchId =>
      exact carried_settle hdistinct.endpoints hagree h hstep (hkept rfl)

-- ================================================================ runs

/-- There is nothing to begin with. -/
theorem carried_boot (cfg : Config Key Plain)
    (Point : String → String → Plain → Prop) (amount : String → ℕ) :
    Carried cfg Point amount (World.boot cfg) where
  sessions := nofun
  inFlight := nofun
  stores := by
    intro i node store hnode hstore id sh hget
    have hmem := List.mem_of_getElem? hstore
    obtain ⟨-, -, rfl⟩ := List.mem_map.mp hmem
    cases hget
  rounds := nofun

/-- What is in the world of a run to which only such submissions were
brought. -/
theorem carried_run (hdistinct : Distinct cfg)
    (hagree : PointsAgree cfg.crypto Point amount) {es : List Event}
    (hes : ∀ intent clock, .submit intent clock ∈ es →
      Brings cfg Point intent) :
    Carried cfg Point amount (run (step cfg) (World.boot cfg) es) := by
  have hrun : Protocol (run (step cfg) (World.boot cfg) es)
      ∧ Carried cfg Point amount
        (run (step cfg) (World.boot cfg) es) := by
    refine history_induction_of
      (fun t => ∀ intent clock, t.event = .submit intent clock →
        Brings cfg Point intent)
      (fun _ w => Protocol w ∧ Carried cfg Point amount w)
      ⟨Protocol.boot cfg, carried_boot cfg Point amount⟩ ?_ es ?_
    · intro _ w w' e h hstep _ he
      exact ⟨h.1.next (step_cases hstep),
        carried_step hdistinct hagree h.1 h.2 he hstep⟩
    · intro t ht intent clock heq
      exact hes intent clock (heq ▸ event_of_mem_accepted ht)
  exact hrun.2

/-- The matches of a signed session are those of the true amounts. -/
theorem carried_served (hdistinct : Distinct cfg)
    (hagree : PointsAgree cfg.crypto Point amount) {es : List Event}
    (hes : ∀ intent clock, .submit intent clock ∈ es →
      Brings cfg Point intent)
    {r : Ref} {s : SessionState Plain}
    (hs : (run (step cfg) (World.boot cfg) es).committee.heap[r]? = some s)
    (hsigned : s.status = .signed) {batch : SignedMatchBatch}
    (hbatch : s.signedBatch = some batch) :
    batch.matchResults = matchIntents (trueRows s amount) := by
  have hrounded : Rounded (run (step cfg) (World.boot cfg) es) :=
    run_induction Rounded (Rounded.boot cfg)
      (fun _ _ _ h hstep => h.next (step_cases hstep)) es
  obtain ⟨rd, hrd, rfl, hphase⟩ :=
    (Protocol.run cfg es).returned hrounded hs hsigned hbatch
  have htrue := (carried_run hdistinct hagree hes).rounds rd hrd s hs
  rw [hphase] at htrue
  exact htrue

end Lumix.Committee
