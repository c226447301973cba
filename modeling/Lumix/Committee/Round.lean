/-
One matching round, on the session it is about.

There are two of them. `runMatchingRound` runs the whole round in the
process that holds every node's key. `runMatchingRoundRemote` asks the
nodes over the network and suspends twice, so it is three functions
here: up to the decrypt requests, from their answers to the sign
requests, and from the signatures to the batch. Reconstruction and
matching are the same code in both (`matchSession`).

What a round leaves is a `Progress`: the session, where the round
stands, and what it handed to `decryptShare` and to `matchIntents` on
the way. `Progress.Sound` says what any stretch of a round may do to its
session, and everything proved about rounds elsewhere starts from it.
-/
import Lumix.Committee.Matching
import Lumix.Lib.Exec

namespace Lumix.Committee

open Exec

-- ========================================================= the crypto

/-- A node's id and its keys. -/
structure CommitteeNodeKeyPair (Key : Type) where
  nodeId : String
  secretKey : Key

/-- What a round uses of the crypto package. Decryption throws on a
tampered ciphertext and otherwise returns whatever JSON was in it, `none`
for a falsy value; reconstruction throws on values that are no shares. -/
structure Crypto (Key Plain : Type) where
  decryptShare : EncryptedShare → Key → Except String (Option Plain)
  reconstructAmount : List Plain → Option ℕ
  computeBatchHash : String → List MatchResult → String
  signBatch : String → List MatchResult → CommitteeNodeKeyPair Key →
    NodeSignature

-- ======================================================= what is kept

/-- A share handed to `decryptShare`, or a row handed to `matchIntents`. -/
inductive Use
  | decrypted (intentId : String) (share : EncryptedShare)
  | matched (row : Reconstructed)

/-- A request to a node: `postJson` turns every failure into `null`. -/
inductive Answer (α : Type)
  | waiting
  | lost
  | got (a : α)

namespace Answer

variable {α : Type}

/-- The answer has come, or will not. -/
def settled : Answer α → Bool
  | waiting => false
  | _ => true

/-- What came, if anything. -/
def value : Answer α → Option α
  | got a => some a
  | _ => none

end Answer

/-- A node's reply to a decrypt request. -/
structure DecryptReply (Plain : Type) where
  nodeId : String
  shares : List (String × Option Plain)

/-- What a round returns. -/
inductive CoordinatorResult
  | ok (batch : SignedMatchBatch)
  | failed (reason : String)
  | threw

/-- How far a round is. -/
inductive Phase (Plain : Type)
  | decrypting (intentIds : List String)
      (answers : List (Answer (DecryptReply Plain)))
  | signing (batchId : String) (matchResults : List MatchResult)
      (batchHash : String) (answers : List (Answer NodeSignature))
  | returned (result : CoordinatorResult)

/-- The matches a round has settled on. -/
def Phase.matchResults {Plain : Type} : Phase Plain → List MatchResult
  | signing _ matchResults _ _ => matchResults
  | returned (.ok batch) => batch.matchResults
  | _ => []

/-- The intents a round has asked the nodes about. -/
def Phase.asked {Plain : Type} : Phase Plain → List String
  | decrypting intentIds _ => intentIds
  | _ => []

/-- The session, what was used of its intents, and how far the round
is. -/
structure Progress (Plain : Type) where
  session : SessionState Plain
  uses : List Use
  phase : Phase Plain

variable {Key Plain : Type}

-- ======================================================= both rounds

/-- The first two shares decrypted for an intent, in the nodes' order. -/
def availableShares (nodeIds : List String) (s : SessionState Plain)
    (intentId : String) : List Plain :=
  (nodeIds.filterMap fun n =>
    (s.entry n intentId).bind NodeShareEntry.decryptedShare).take 2

/-- Why the reconstruction stopped. -/
inductive Stop
  | notEnoughShares (intentId : String)
  | threw

/-- One intent of the loop: its first two shares, or the reason to
stop. -/
def reconstructIntent (crypto : Crypto Key Plain) (nodeIds : List String)
    (s : SessionState Plain) (reconstructed : List Reconstructed)
    (kv : String × MpcIntent) : Except Stop (List Reconstructed) :=
  let shares := availableShares nodeIds s kv.1
  if shares.length < 2 then
    .error (.notEnoughShares kv.1)
  else
    match crypto.reconstructAmount shares with
    | none => .error .threw
    | some amount =>
        .ok (reconstructed ++
          [{ intentId := kv.1
             amount7dp := amount
             inputAsset := kv.2.inputAsset
             outputAsset := kv.2.outputAsset }])

/-- Every decrypted share of these nodes is set back to null. -/
def clearShares (nodeIds : List String) (s : SessionState Plain) :
    SessionState Plain :=
  { s with
    shares := nodeIds.foldl
      (fun m n => m.modify n fun nodeShares =>
        nodeShares.mapValues fun _ e => { e with decryptedShare := none })
      s.shares }

/-- From the decrypted shares to the matches; `next` is what the round
does with them. A throw leaves the session as it is, "matching". -/
def matchSession (crypto : Crypto Key Plain) (nodeIds : List String)
    (s : SessionState Plain) (uses : List Use)
    (next : SessionState Plain → List MatchResult →
      SessionState Plain × Phase Plain) : Progress Plain :=
  match s.intents.entries.foldlM (reconstructIntent crypto nodeIds s) [] with
  | .error (.notEnoughShares id) =>
      ⟨{ s with status := .failed }, uses,
        .returned (.failed s!"not enough shares for intent {id}")⟩
  | .error .threw => ⟨s, uses, .returned .threw⟩
  | .ok reconstructed =>
      let (s', phase) :=
        next (clearShares nodeIds s) (matchIntents reconstructed)
      ⟨s', uses ++ reconstructed.map .matched, phase⟩

/-- What a round throws at fewer than two intents. -/
def tooFewIntents : String := "need at least 2 intents to match"

-- ============================================== the in-process round

/-- One entry of a node's map is decrypted with the node's key. -/
def decryptEntry (crypto : Crypto Key Plain)
    (node : CommitteeNodeKeyPair Key) (w : SessionState Plain × List Use)
    (kv : String × NodeShareEntry Plain) :
    Except ((SessionState Plain × List Use) × String)
      (SessionState Plain × List Use) :=
  let share := kv.2.encryptedShare.forNode node.nodeId
  let uses := w.2 ++ [.decrypted kv.1 share]
  match crypto.decryptShare share node.secretKey with
  | .error err =>
      let name := node.nodeId
      let id := kv.2.intentId
      .error ((w.1, uses),
        s!"node {name} failed to decrypt share for {id}: {err}")
  | .ok plain =>
      .ok
        ({ w.1 with
           shares := w.1.shares.modify node.nodeId fun nodeShares =>
             nodeShares.modify kv.1 fun e =>
               { e with decryptedShare := plain } },
          uses)

/-- A node decrypts its entries in turn. -/
def decryptNode (crypto : Crypto Key Plain)
    (w : SessionState Plain × List Use)
    (node : CommitteeNodeKeyPair Key) :
    Except ((SessionState Plain × List Use) × String)
      (SessionState Plain × List Use) :=
  match w.1.shares.get node.nodeId with
  | none => .ok w
  | some nodeShares =>
      nodeShares.entries.foldlM (decryptEntry crypto node) w

/-- The round of the combined process. It refuses a session of fewer
than two intents untouched. -/
def runMatchingRound (crypto : Crypto Key Plain)
    (nodes : List (CommitteeNodeKeyPair Key)) (batchId : String)
    (s : SessionState Plain) : Except String (Progress Plain) :=
  if s.intents.size < 2 then
    .error tooFewIntents
  else
    match nodes.foldlM (decryptNode crypto)
        ({ s with status := .matching }, []) with
    | .error ((s, uses), reason) =>
        .ok ⟨{ s with status := .failed }, uses,
          .returned (.failed reason)⟩
    | .ok (s, uses) =>
        .ok (matchSession crypto (nodes.map (·.nodeId)) s uses
          fun s matchResults =>
            let batch : SignedMatchBatch :=
              { batchId
                sessionId := s.sessionId
                matchResults
                batchHash := crypto.computeBatchHash batchId matchResults
                signatures :=
                  nodes.map (crypto.signBatch batchId matchResults) }
            ({ s with signedBatch := some batch, status := .signed },
              .returned (.ok batch)))

-- ================================================== the remote round

/-- `Math.ceil((n * 2) / 3)` -/
def threshold (n : ℕ) : ℕ := (n * 2 + 2) / 3

/-- Up to the decrypt requests. -/
def startRemote (endpoints : List String) (s : SessionState Plain) :
    Except String (Progress Plain) :=
  if s.intents.size < 2 then
    .error tooFewIntents
  else
    .ok ⟨{ s with status := .matching }, [],
      .decrypting s.intents.keys (endpoints.map fun _ => .waiting)⟩

/-- A reply's shares go where the session has entries for the node the
reply names. -/
def applyReply (s : SessionState Plain) (reply : DecryptReply Plain) :
    SessionState Plain :=
  { s with
    shares := s.shares.modify reply.nodeId fun nodeShares =>
      reply.shares.foldl
        (fun m p => m.modify p.1 fun e => { e with decryptedShare := p.2 })
        nodeShares }

/-- From the answers to the decrypt requests up to the sign requests. -/
def collectDecrypts (crypto : Crypto Key Plain) (endpoints : List String)
    (batchId : String) (answers : List (Answer (DecryptReply Plain)))
    (s : SessionState Plain) : Progress Plain :=
  let need := threshold endpoints.length
  let responding := answers.filterMap Answer.value
  if responding.length < need then
    let got := responding.length
    let n := endpoints.length
    ⟨{ s with status := .failed }, [],
      .returned (.failed
        s!"only {got}/{n} nodes responded to decrypt (need {need})")⟩
  else
    matchSession crypto endpoints (responding.foldl applyReply s) []
      fun s matchResults =>
        (s, .signing batchId matchResults
          (crypto.computeBatchHash batchId matchResults)
          (endpoints.map fun _ => .waiting))

/-- From the answers to the sign requests to the end. -/
def collectSignatures (endpoints : List String) (batchId : String)
    (matchResults : List MatchResult) (batchHash : String)
    (answers : List (Answer NodeSignature)) (s : SessionState Plain) :
    Progress Plain :=
  let need := threshold endpoints.length
  let signatures := answers.filterMap Answer.value
  if signatures.length < need then
    let got := signatures.length
    let n := endpoints.length
    ⟨{ s with status := .failed }, [],
      .returned (.failed s!"only {got}/{n} nodes signed (need {need})")⟩
  else
    let batch : SignedMatchBatch :=
      { batchId, sessionId := s.sessionId, matchResults, batchHash,
        signatures }
    ⟨{ s with signedBatch := some batch, status := .signed }, [],
      .returned (.ok batch)⟩

-- ==================================== what a round does to its session

/-- The session is the same but for its status, its batch and what has
been decrypted. -/
structure Keeps (s s' : SessionState Plain) : Prop where
  sessionId : s'.sessionId = s.sessionId
  intents : s'.intents = s.intents
  sealed : ∀ n id, (s'.entry n id).map NodeShareEntry.encryptedShare
    = (s.entry n id).map NodeShareEntry.encryptedShare

/-- A session nobody touched. -/
theorem Keeps.refl (s : SessionState Plain) : Keeps s s :=
  ⟨rfl, rfl, fun _ _ => rfl⟩

/-- Kept over two stretches. -/
theorem Keeps.trans {s s' s'' : SessionState Plain} (h : Keeps s s')
    (h' : Keeps s' s'') : Keeps s s'' where
  sessionId := h'.sessionId.trans h.sessionId
  intents := h'.intents.trans h.intents
  sealed := fun n id => (h'.sealed n id).trans (h.sealed n id)

/-- An entry of the later session is sealed as one of the earlier. -/
theorem Keeps.entry {s s' : SessionState Plain} (h : Keeps s s')
    {n id : String} {e : NodeShareEntry Plain}
    (he : s'.entry n id = some e) :
    ∃ e₀, s.entry n id = some e₀
      ∧ e₀.encryptedShare = e.encryptedShare := by
  have hs := h.sealed n id
  rw [he, Option.map_some] at hs
  exact Option.map_eq_some_iff.mp hs.symm

/-- The status and the batch are no part of what is kept. -/
theorem Keeps.close {s s' : SessionState Plain} (h : Keeps s s')
    (status : Status) (batch : Option SignedMatchBatch) :
    Keeps s { s' with status, signedBatch := batch } :=
  ⟨h.sessionId, h.intents, h.sealed⟩

/-- One node's entries rewritten by a function that leaves each sealed
as it is. -/
theorem keeps_modify (s : SessionState Plain) (n : String)
    {f : OrderedMap String (NodeShareEntry Plain) →
      OrderedMap String (NodeShareEntry Plain)}
    (hf : ∀ m id, ((f m).get id).map NodeShareEntry.encryptedShare
      = (m.get id).map NodeShareEntry.encryptedShare) :
    Keeps s { s with shares := s.shares.modify n f } where
  sessionId := rfl
  intents := rfl
  sealed := by
    intro n' id
    unfold SessionState.entry
    rw [OrderedMap.get_modify]
    by_cases hn : n = n'
    · rw [if_pos hn]
      cases hg : s.shares.get n' with
      | none => rfl
      | some m =>
          simp only [Option.map_some, Option.bind_some]
          exact hf m id
    · rw [if_neg hn]

/-- Writing what was decrypted leaves what was encrypted. -/
theorem sealed_modify (m : OrderedMap String (NodeShareEntry Plain))
    (k id : String) (plain : Option Plain) :
    ((m.modify k fun e => { e with decryptedShare := plain }).get id).map
        NodeShareEntry.encryptedShare
      = (m.get id).map NodeShareEntry.encryptedShare := by
  rw [OrderedMap.get_modify]
  by_cases hk : k = id
  · rw [if_pos hk, Option.map_map]
    rfl
  · rw [if_neg hk]

/-- Clearing keeps the sealed shares. -/
theorem keeps_clearShares (nodeIds : List String)
    (s : SessionState Plain) : Keeps s (clearShares nodeIds s) := by
  induction nodeIds generalizing s with
  | nil => exact Keeps.refl s
  | cons n nodeIds ih =>
      refine (keeps_modify s n ?_).trans (ih _)
      intro m id
      rw [OrderedMap.get_mapValues, Option.map_map]
      rfl

/-- So does a reply, -/
theorem keeps_applyReply (s : SessionState Plain)
    (reply : DecryptReply Plain) : Keeps s (applyReply s reply) := by
  refine keeps_modify s reply.nodeId ?_
  intro m id
  induction reply.shares generalizing m with
  | nil => rfl
  | cons p shares ih => exact (ih _).trans (sealed_modify m p.1 id p.2)

/-- and so do several. -/
theorem keeps_replies (replies : List (DecryptReply Plain))
    (s : SessionState Plain) : Keeps s (replies.foldl applyReply s) := by
  induction replies generalizing s with
  | nil => exact Keeps.refl s
  | cons reply replies ih => exact (keeps_applyReply s reply).trans (ih _)

-- ======================================================= sound progress

/-- A use of a session's content: a share as an entry of the session
holds it, a row with the assets of the session's intent. -/
def Use.From (s : SessionState Plain) : Use → Prop
  | decrypted intentId share =>
      ∃ e, s.entry share.nodeId intentId = some e
        ∧ e.encryptedShare = share.toSealedShare
  | matched row =>
      ∃ intent, s.intents.get row.intentId = some intent
        ∧ row.inputAsset = intent.inputAsset
        ∧ row.outputAsset = intent.outputAsset

/-- What is used is of the session as it was. -/
theorem Use.From.of_keeps {s s' : SessionState Plain} {u : Use}
    (hk : Keeps s s') (h : u.From s') : u.From s := by
  cases u with
  | decrypted intentId share =>
      obtain ⟨e, he, hsealed⟩ := h
      obtain ⟨e₀, he₀, hsame⟩ := hk.entry he
      exact ⟨e₀, he₀, hsame.trans hsealed⟩
  | matched row =>
      obtain ⟨intent, hi, hassets⟩ := h
      exact ⟨intent, hk.intents ▸ hi, hassets⟩

/-- Where a round stands and what its session's status and batch then
are. -/
def Phase.Stands (s : SessionState Plain) : Phase Plain → Prop
  | decrypting .. | signing .. | returned .threw =>
      s.status = .matching ∧ s.signedBatch = none
  | returned (.failed _) => s.status = .failed ∧ s.signedBatch = none
  | returned (.ok batch) =>
      s.status = .signed ∧ s.signedBatch = some batch

/-- A phase fits its session, it asked about intents of the session, and
its matches consume distinct ones. -/
structure Phase.Sound (s : SessionState Plain) (phase : Phase Plain) :
    Prop where
  stands : phase.Stands s
  asked : ∀ id ∈ phase.asked, id ∈ s.intents.keys
  nodup : (phase.matchResults.flatMap MatchResult.ids).Nodup
  subset : ∀ id ∈ phase.matchResults.flatMap MatchResult.ids,
    id ∈ s.intents.keys

/-- A phase without requests or matches. -/
theorem Phase.Sound.of_nil {s : SessionState Plain} {phase : Phase Plain}
    (hstands : phase.Stands s) (hasked : phase.asked = [])
    (hresults : phase.matchResults = []) : phase.Sound s where
  stands := hstands
  asked := fun id hid => by rw [hasked] at hid; cases hid
  nodup := by rw [hresults]; exact List.nodup_nil
  subset := fun id hid => by rw [hresults] at hid; cases hid

/-- What a stretch of a round may do to the session `s` it began on. -/
structure Progress.Sound (s : SessionState Plain) (p : Progress Plain) :
    Prop where
  keeps : Keeps s p.session
  uses : ∀ u ∈ p.uses, u.From s
  phase : p.phase.Sound p.session

/-- The reconstructed rows are the session's intents. -/
theorem reconstructed_from {crypto : Crypto Key Plain}
    {nodeIds : List String} {s : SessionState Plain}
    {reconstructed : List Reconstructed}
    (h : s.intents.entries.foldlM (reconstructIntent crypto nodeIds s) []
      = .ok reconstructed) :
    ∀ row ∈ reconstructed, (Use.matched row).From s := by
  refine (foldlM_cases
    (fun rows : List Reconstructed =>
      ∀ row ∈ rows, (Use.matched row).From s)
    (fun _ => True) (by simp) ?_ (fun _ _ _ _ _ _ => trivial)).1 _ h
  intro kv hkv rows rows' hrows hstep row hrow
  unfold reconstructIntent at hstep
  by_cases hshort : (availableShares nodeIds s kv.1).length < 2
  · rw [if_pos hshort] at hstep
    cases hstep
  · rw [if_neg hshort] at hstep
    cases hamount :
        crypto.reconstructAmount (availableShares nodeIds s kv.1) with
    | none => rw [hamount] at hstep; cases hstep
    | some amount =>
        rw [hamount] at hstep
        injection hstep with hstep
        rw [← hstep] at hrow
        rcases List.mem_append.mp hrow with hrow | hrow
        · exact hrows row hrow
        · rw [List.mem_singleton.mp hrow]
          exact ⟨kv.2, OrderedMap.mem_entries.mp hkv, rfl, rfl⟩

/-- Matching is sound whenever what is done with the matches is. -/
theorem matchSession_sound {crypto : Crypto Key Plain}
    {nodeIds : List String} {s₀ s : SessionState Plain} {uses : List Use}
    {next : SessionState Plain → List MatchResult →
      SessionState Plain × Phase Plain}
    (hkeeps : Keeps s₀ s) (huses : ∀ u ∈ uses, u.From s₀)
    (hstatus : s.status = .matching) (hbatch : s.signedBatch = none)
    (hnext : ∀ s' matchResults, Keeps s₀ s' → s'.status = .matching →
      s'.signedBatch = none →
      Keeps s₀ (next s' matchResults).1
        ∧ (next s' matchResults).2.Stands (next s' matchResults).1
        ∧ (next s' matchResults).2.asked = []
        ∧ (next s' matchResults).2.matchResults = matchResults) :
    (matchSession crypto nodeIds s uses next).Sound s₀ := by
  unfold matchSession
  cases hrec : s.intents.entries.foldlM
      (reconstructIntent crypto nodeIds s) [] with
  | error stop =>
      cases stop with
      | notEnoughShares id =>
          exact ⟨hkeeps.close .failed s.signedBatch, huses,
            .of_nil ⟨rfl, hbatch⟩ rfl rfl⟩
      | threw =>
          exact ⟨hkeeps, huses, .of_nil ⟨hstatus, hbatch⟩ rfl rfl⟩
  | ok reconstructed =>
      have hrows : ∀ row ∈ reconstructed, (Use.matched row).From s₀ :=
        fun row hrow => (reconstructed_from hrec row hrow).of_keeps hkeeps
      have hclear := keeps_clearShares nodeIds s
      obtain ⟨hk, hstands, hasked, hresults⟩ :=
        hnext (clearShares nodeIds s) (matchIntents reconstructed)
          (hkeeps.trans hclear) hstatus hbatch
      obtain ⟨hnodup, hsub⟩ := matchIntents_disjoint reconstructed
      refine ⟨hk, ?_, ⟨hstands, ?_, ?_, ?_⟩⟩
      · intro u hu
        rcases List.mem_append.mp hu with hu | hu
        · exact huses u hu
        · obtain ⟨row, hrow, rfl⟩ := List.mem_map.mp hu
          exact hrows row hrow
      · show ∀ id ∈ (next _ _).2.asked, _
        rw [hasked]
        exact fun id hid => by cases hid
      · show ((next _ _).2.matchResults.flatMap MatchResult.ids).Nodup
        rw [hresults]
        exact hnodup
      · show ∀ id ∈ (next _ _).2.matchResults.flatMap MatchResult.ids,
          id ∈ (next _ _).1.intents.keys
        rw [hresults, hk.intents]
        intro id hid
        obtain ⟨row, hrow, rfl⟩ := List.mem_map.mp (hsub hid)
        obtain ⟨intent, hi, -⟩ := hrows row hrow
        exact OrderedMap.mem_keys.mpr ⟨intent, hi⟩

/-- What the decrypt loop keeps, at every entry of every node. -/
structure Decrypting (s₀ : SessionState Plain)
    (w : SessionState Plain × List Use) : Prop where
  keeps : Keeps s₀ w.1
  uses : ∀ u ∈ w.2, u.From s₀
  status : w.1.status = .matching
  batch : w.1.signedBatch = none

/-- An entry that is decrypted, or throws, leaves the sealed shares. -/
theorem decryptEntry_cases {crypto : Crypto Key Plain}
    {node : CommitteeNodeKeyPair Key} {s₀ : SessionState Plain}
    {w : SessionState Plain × List Use}
    {kv : String × NodeShareEntry Plain} (h : Decrypting s₀ w)
    (hkv : ∃ e, s₀.entry node.nodeId kv.1 = some e
      ∧ e.encryptedShare = kv.2.encryptedShare) :
    (∀ w', decryptEntry crypto node w kv = .ok w' → Decrypting s₀ w')
      ∧ ∀ e, decryptEntry crypto node w kv = .error e →
          Decrypting s₀ e.1 := by
  have huses : ∀ u ∈ w.2 ++ [Use.decrypted kv.1
      (kv.2.encryptedShare.forNode node.nodeId)], u.From s₀ := by
    intro u hu
    rcases List.mem_append.mp hu with hu | hu
    · exact h.uses u hu
    · rw [List.mem_singleton.mp hu]
      exact hkv
  simp only [decryptEntry]
  cases hd : crypto.decryptShare
      (kv.2.encryptedShare.forNode node.nodeId) node.secretKey with
  | error err =>
      refine ⟨fun w' hw => (by cases hw), fun e he => ?_⟩
      injection he with he
      rw [← he]
      exact ⟨h.keeps, huses, h.status, h.batch⟩
  | ok plain =>
      refine ⟨fun w' hw => ?_, fun e he => by cases he⟩
      injection hw with hw
      rw [← hw]
      refine ⟨h.keeps.trans (keeps_modify w.1 node.nodeId ?_), huses,
        h.status, h.batch⟩
      exact fun m id => sealed_modify m kv.1 id plain

/-- So does a node. -/
theorem decryptNode_cases {crypto : Crypto Key Plain}
    {node : CommitteeNodeKeyPair Key} {s₀ : SessionState Plain}
    {w : SessionState Plain × List Use} (h : Decrypting s₀ w) :
    (∀ w', decryptNode crypto w node = .ok w' → Decrypting s₀ w')
      ∧ ∀ e, decryptNode crypto w node = .error e →
          Decrypting s₀ e.1 := by
  unfold decryptNode
  cases hn : w.1.shares.get node.nodeId with
  | none =>
      refine ⟨fun w' hw => ?_, fun e he => by cases he⟩
      injection hw with hw
      exact hw ▸ h
  | some nodeShares =>
      have hentry : ∀ kv ∈ nodeShares.entries,
          ∃ e, s₀.entry node.nodeId kv.1 = some e
            ∧ e.encryptedShare = kv.2.encryptedShare := by
        intro kv hkv
        refine h.keeps.entry ?_
        rw [SessionState.entry, hn, Option.bind_some]
        exact OrderedMap.mem_entries.mp hkv
      exact foldlM_cases (Decrypting s₀) (fun e => Decrypting s₀ e.1) h
        (fun kv hkv w₁ w₂ h₁ hw =>
          (decryptEntry_cases h₁ (hentry kv hkv)).1 w₂ hw)
        (fun kv hkv w₁ e h₁ he =>
          (decryptEntry_cases h₁ (hentry kv hkv)).2 e he)

-- ======================================================= the sections

/-- The round in one process is sound. -/
theorem runMatchingRound_sound {crypto : Crypto Key Plain}
    {nodes : List (CommitteeNodeKeyPair Key)} {batchId : String}
    {s : SessionState Plain} {p : Progress Plain}
    (hbatch : s.signedBatch = none)
    (h : runMatchingRound crypto nodes batchId s = .ok p) : p.Sound s := by
  unfold runMatchingRound at h
  by_cases hfew : s.intents.size < 2
  · rw [if_pos hfew] at h
    cases h
  · rw [if_neg hfew] at h
    have hstart : Decrypting s ({ s with status := .matching }, []) :=
      ⟨(Keeps.refl s).close .matching s.signedBatch, by simp, rfl, hbatch⟩
    have hloop : (∀ w, nodes.foldlM (decryptNode crypto)
          ({ s with status := .matching }, []) = .ok w → Decrypting s w)
        ∧ ∀ e, nodes.foldlM (decryptNode crypto)
            ({ s with status := .matching }, []) = .error e →
          Decrypting s e.1 :=
      foldlM_cases (Decrypting s) (fun e => Decrypting s e.1) hstart
        (fun node _ w w' hw hstep => (decryptNode_cases hw).1 w' hstep)
        (fun node _ w e hw hstep => (decryptNode_cases hw).2 e hstep)
    cases hd : nodes.foldlM (decryptNode crypto)
        ({ s with status := .matching }, []) with
    | error e =>
        rw [hd] at h
        injection h with h
        rw [← h]
        have hw := hloop.2 e hd
        exact ⟨hw.keeps.close .failed e.1.1.signedBatch, hw.uses,
          .of_nil ⟨rfl, hw.batch⟩ rfl rfl⟩
    | ok w =>
        rw [hd] at h
        injection h with h
        rw [← h]
        have hw := hloop.1 w hd
        refine matchSession_sound hw.keeps hw.uses hw.status hw.batch ?_
        intro s' matchResults hk hs' hb'
        exact ⟨hk.close .signed _, ⟨rfl, rfl⟩, rfl, rfl⟩

/-- So is the start of one over the network. -/
theorem startRemote_sound {endpoints : List String}
    {s : SessionState Plain} {p : Progress Plain}
    (hbatch : s.signedBatch = none)
    (h : startRemote endpoints s = .ok p) : p.Sound s := by
  unfold startRemote at h
  by_cases hfew : s.intents.size < 2
  · rw [if_pos hfew] at h
    cases h
  · rw [if_neg hfew] at h
    injection h with h
    rw [← h]
    exact ⟨(Keeps.refl s).close .matching s.signedBatch, by simp,
      ⟨⟨rfl, hbatch⟩, fun id hid => hid, List.nodup_nil,
        fun id hid => by cases hid⟩⟩

/-- Replies leave status and batch as they are. -/
theorem status_replies (replies : List (DecryptReply Plain))
    (s : SessionState Plain) :
    (replies.foldl applyReply s).status = s.status
      ∧ (replies.foldl applyReply s).signedBatch = s.signedBatch := by
  induction replies generalizing s with
  | nil => exact ⟨rfl, rfl⟩
  | cons reply replies ih => exact ih (applyReply s reply)

/-- Matching what was decrypted is sound, -/
theorem collectDecrypts_sound {crypto : Crypto Key Plain}
    {endpoints : List String} {batchId : String}
    {answers : List (Answer (DecryptReply Plain))}
    {s : SessionState Plain} (hstatus : s.status = .matching)
    (hbatch : s.signedBatch = none) :
    (collectDecrypts crypto endpoints batchId answers s).Sound s := by
  unfold collectDecrypts
  by_cases hfew : (answers.filterMap Answer.value).length
      < threshold endpoints.length
  · simp only [if_pos hfew]
    exact ⟨(Keeps.refl s).close .failed s.signedBatch, by simp,
      .of_nil ⟨rfl, hbatch⟩ rfl rfl⟩
  · simp only [if_neg hfew]
    obtain ⟨hs, hb⟩ := status_replies (answers.filterMap Answer.value) s
    refine matchSession_sound (keeps_replies _ s) (by simp)
      (hs.trans hstatus) (hb.trans hbatch) ?_
    intro s' matchResults hk hs' hb'
    exact ⟨hk, ⟨hs', hb'⟩, rfl, rfl⟩

/-- and so is collecting the signatures. -/
theorem collectSignatures_sound {endpoints : List String}
    {batchId : String} {matchResults : List MatchResult}
    {batchHash : String} {answers : List (Answer NodeSignature)}
    {s : SessionState Plain} (hbatch : s.signedBatch = none)
    (hnodup : (matchResults.flatMap MatchResult.ids).Nodup)
    (hsub : ∀ id ∈ matchResults.flatMap MatchResult.ids,
      id ∈ s.intents.keys) :
    (collectSignatures endpoints batchId matchResults batchHash answers
      s).Sound s := by
  unfold collectSignatures
  by_cases hfew : (answers.filterMap Answer.value).length
      < threshold endpoints.length
  · simp only [if_pos hfew]
    exact ⟨(Keeps.refl s).close .failed s.signedBatch, by simp,
      .of_nil ⟨rfl, hbatch⟩ rfl rfl⟩
  · simp only [if_neg hfew]
    exact ⟨(Keeps.refl s).close .signed _, by simp,
      ⟨⟨rfl, rfl⟩, fun id hid => (by cases hid), hnodup, hsub⟩⟩

end Lumix.Committee
