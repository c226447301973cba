/-
The keys of a node and the signatures it makes with them.

A public key is 32 bytes and a signature 64, and both are in their types
here; they leave a node as hexadecimal text, and only reading such a
text can find another length (`detachedVerify`). A node signs the bytes
of the batch hash, and the signature it sends verifies wherever the
batch is known by its id and its matches (`verify_signBatch`).

`GenuineBatch` is what a signed batch is: the hash is of its matches, and
a quorum of the nodes has signed it, each at most once. No round of the
committee returns any other (`genuine_run`).
-/
import Lumix.Committee.BatchHash
import Lumix.Committee.Batches

namespace Lumix.Committee

open Text Exec Digits Run

-- =============================================================== keys

/-- The key pairs of a node. `sign` is `nacl.sign.detached` with its
secret key. -/
structure NodeKeys where
  encryptionPublicKey : Word
  encryptionSecretKey : Word
  signingPublicKey : Word
  sign : Bytes → Signature

section

variable (sha256 : Bytes → Word)
  (verify : Bytes → Signature → Word → Bool)

/-- `nacl.sign.detached.verify` -/
def detachedVerify (msg sig publicKey : Bytes) : Except String Bool := do
  panicIf (sig.length ≠ 64) "bad signature size"
  panicIf (publicKey.length ≠ 32) "bad public key size"
  pure (verify msg (BitVec.ofNat 512 (beVal sig)) (Word.ofBytes publicKey))

/-- The bytes a node signs. -/
def batchMessage (batchId : String) (matchResults : List MatchResult) :
    Bytes :=
  bufferFromHex (computeBatchHash sha256 batchId
    (matchResults.map MatchResult.batchMatch))

/-- A node's signature of a batch, with its public key. -/
def signBatch (batchId : String) (matchResults : List MatchResult)
    (nodeKeyPair : CommitteeNodeKeyPair NodeKeys) : NodeSignature where
  nodeId := nodeKeyPair.nodeId
  signingPubkey := bytesHex nodeKeyPair.secretKey.signingPublicKey.toBytes
  signature := bytesHex (beBytes 64
    (nodeKeyPair.secretKey.sign
      (batchMessage sha256 batchId matchResults)).toNat)

/-- A signature is checked against the batch's digest. -/
def verifyNodeSignature (batchId : String)
    (matchResults : List MatchResult) (sig : NodeSignature) :
    Except String Bool :=
  detachedVerify verify (batchMessage sha256 batchId matchResults)
    (bufferFromHex sig.signature) (bufferFromHex sig.signingPubkey)

end

/-- What the node signs verifies under its public key. -/
def NodeKeys.Verifies (verify : Bytes → Signature → Word → Bool)
    (keys : NodeKeys) : Prop :=
  ∀ msg, verify msg (keys.sign msg) keys.signingPublicKey = true

variable {sha256 : Bytes → Word}
  {verify : Bytes → Signature → Word → Bool}

/-- Bytes written from a bit vector are read as it. -/
theorem bitVec_bytes {k : ℕ} (s : BitVec (8 * k)) :
    BitVec.ofNat (8 * k) (beVal (beBytes k s.toNat)) = s := by
  have hlt := s.isLt
  rw [Nat.pow_mul] at hlt
  rw [beVal_beBytes hlt, BitVec.ofNat_toNat, BitVec.setWidth_eq]

/-- A signature is read back from its bytes. -/
theorem signature_bytes (s : Signature) :
    BitVec.ofNat 512 (beVal (beBytes 64 s.toNat)) = s :=
  @bitVec_bytes 64 s

/-- The bytes of a hash are the word it was written from. -/
theorem batchMessage_eq (batchId : String)
    (matchResults : List MatchResult) :
    batchMessage sha256 batchId matchResults
      = (sha256 (utf8 (canonical batchId
          (matchResults.map MatchResult.batchMatch)))).toBytes := by
  rw [batchMessage, computeBatchHash, bufferFromHex_bytesHex]

/-- A signature as it was sent verifies. -/
theorem verify_signBatch {batchId : String}
    {matchResults : List MatchResult}
    {kp : CommitteeNodeKeyPair NodeKeys}
    (h : kp.secretKey.Verifies verify) :
    verifyNodeSignature sha256 verify batchId matchResults
      (signBatch sha256 batchId matchResults kp) = .ok true := by
  simp only [verifyNodeSignature, signBatch, bufferFromHex_bytesHex,
    detachedVerify, length_beBytes, Word.length_toBytes, ne_eq,
    not_true_eq_false, panicIf, Word.ofBytes_toBytes, signature_bytes,
    h _]
  rfl

-- ============================================================= batches

/-- A batch that a quorum of the nodes signed, each at most once and in
their order. -/
structure GenuineBatch (sha256 : Bytes → Word)
    (nodes : List (CommitteeNodeKeyPair NodeKeys))
    (batch : SignedMatchBatch) : Prop where
  batchHash : batch.batchHash = computeBatchHash sha256 batch.batchId
    (batch.matchResults.map MatchResult.batchMatch)
  signatures : ∃ signers : List (CommitteeNodeKeyPair NodeKeys),
    signers.Sublist nodes ∧ threshold nodes.length ≤ signers.length
      ∧ batch.signatures
        = signers.map (signBatch sha256 batch.batchId batch.matchResults)

/-- The rounds use the package's hash and its signatures. -/
structure UsesPackage {Plain : Type} (sha256 : Bytes → Word)
    (crypto : Crypto NodeKeys Plain) : Prop where
  computeBatchHash : ∀ batchId matchResults,
    crypto.computeBatchHash batchId matchResults
      = Committee.computeBatchHash sha256 batchId
          (matchResults.map MatchResult.batchMatch)
  signBatch : crypto.signBatch = Committee.signBatch sha256

/-- What a round holds so far: the hash of its matches, and at each
node's place nothing or that node's signature. Only a standalone
coordinator waits for answers. -/
def Phase.Genuine {Plain : Type} (sha256 : Bytes → Word)
    (cfg : Config NodeKeys Plain) : Phase Plain → Prop
  | .decrypting .. => cfg.mode = .standalone
  | .signing batchId matchResults batchHash answers =>
      cfg.mode = .standalone
        ∧ batchHash = computeBatchHash sha256 batchId
          (matchResults.map MatchResult.batchMatch)
        ∧ ∀ (i : ℕ) sig, answers[i]? = some (.got sig) →
          ∃ node, cfg.nodes[i]? = some node
            ∧ sig = signBatch sha256 batchId matchResults node
  | .returned (.ok batch) => GenuineBatch sha256 cfg.nodes batch
  | .returned _ => True

variable {Plain : Type} {cfg : Config NodeKeys Plain}

/-- The values at the places of a list come from a part of it. -/
theorem exists_sublist {α β : Type} {f : α → β} {nodes : List α}
    {answers : List (Answer β)}
    (h : ∀ (i : ℕ) b, answers[i]? = some (.got b) →
      ∃ a, nodes[i]? = some a ∧ b = f a) :
    ∃ signers : List α, signers.Sublist nodes
      ∧ answers.filterMap Answer.value = signers.map f := by
  induction answers generalizing nodes with
  | nil => exact ⟨[], List.nil_sublist _, rfl⟩
  | cons a answers ih =>
      obtain ⟨signers, hsub, hvalues⟩ := @ih nodes.tail
        (fun i b hi => by
          obtain ⟨c, hc, hb⟩ := h (i + 1) b hi
          exact ⟨c, by rw [List.getElem?_tail]; exact hc, hb⟩)
      cases a with
      | waiting | lost =>
          exact ⟨signers, hsub.trans (List.tail_sublist nodes), hvalues⟩
      | got b =>
          obtain ⟨c, hc, rfl⟩ := h 0 b rfl
          cases nodes with
          | nil => cases hc
          | cons d nodes =>
              obtain rfl : d = c := Option.some.inj hc
              exact ⟨d :: signers, hsub.cons_cons d,
                congrArg (f d :: ·) hvalues⟩

/-- A matching stretch ends early, or in what the round does next. -/
theorem matchSession_phase {Key : Type} (crypto : Crypto Key Plain)
    (nodeIds : List String) (s : SessionState Plain) (uses : List Use)
    (next : SessionState Plain → List MatchResult →
      SessionState Plain × Phase Plain) :
    (∃ reason, (matchSession crypto nodeIds s uses next).phase
        = .returned (.failed reason))
      ∨ (matchSession crypto nodeIds s uses next).phase = .returned .threw
      ∨ ∃ s' matchResults,
        (matchSession crypto nodeIds s uses next).phase
          = (next s' matchResults).2 := by
  unfold matchSession
  split
  · exact .inl ⟨_, rfl⟩
  · exact .inr (.inl rfl)
  · exact .inr (.inr ⟨_, _, rfl⟩)

/-- If what follows the matches is genuine, so is the round. -/
theorem matchSession_genuine {nodeIds : List String}
    {s : SessionState Plain} {uses : List Use}
    {next : SessionState Plain → List MatchResult →
      SessionState Plain × Phase Plain}
    (h : ∀ s' matchResults, (next s' matchResults).2.Genuine sha256 cfg) :
    (matchSession cfg.crypto nodeIds s uses next).phase.Genuine sha256
      cfg := by
  rcases matchSession_phase cfg.crypto nodeIds s uses next with
    ⟨reason, heq⟩ | heq | ⟨s', matchResults, heq⟩
  · rw [heq]
    trivial
  · rw [heq]
    trivial
  · rw [heq]
    exact h s' matchResults

/-- The combined process signs with every node. -/
theorem runMatchingRound_genuine (hcrypto : UsesPackage sha256 cfg.crypto)
    {batchId : String} {s : SessionState Plain} {p : Progress Plain}
    (h : runMatchingRound cfg.crypto cfg.nodes batchId s = .ok p) :
    p.phase.Genuine sha256 cfg := by
  unfold runMatchingRound at h
  split at h
  · cases h
  split at h
  · injection h with h
    subst h
    trivial
  · injection h with h
    subst h
    refine matchSession_genuine fun s' matchResults => ?_
    refine ⟨hcrypto.computeBatchHash _ _, cfg.nodes, List.Sublist.refl _,
      ?_, ?_⟩
    · unfold threshold
      omega
    · show cfg.nodes.map (cfg.crypto.signBatch batchId matchResults) = _
      rw [hcrypto.signBatch]

/-- So is a round that starts. -/
theorem start_genuine (hcrypto : UsesPackage sha256 cfg.crypto)
    {batchId : String} {s : SessionState Plain} {p : Progress Plain}
    (h : cfg.start batchId s = .ok p) :
    p.phase.Genuine sha256 cfg := by
  unfold Config.start at h
  split at h
  · exact runMatchingRound_genuine hcrypto h
  · rename_i hmode
    unfold startRemote at h
    split at h
    · cases h
    · injection h with h
      subst h
      exact hmode

/-- The coordinator sends its own matches to be signed, and takes the
signatures that come for them. -/
theorem continue_genuine (hcrypto : UsesPackage sha256 cfg.crypto)
    (hsize : cfg.mode = .standalone →
      cfg.endpoints.length = cfg.nodes.length)
    {batchId : String} {s : SessionState Plain} {phase : Phase Plain}
    (hphase : phase.Genuine sha256 cfg) {p : Progress Plain}
    (h : cfg.continue batchId s phase = some p) :
    p.phase.Genuine sha256 cfg := by
  unfold Config.continue at h
  split at h
  · split at h
    · injection h with h
      subst h
      unfold collectDecrypts
      dsimp only
      split
      · trivial
      · refine matchSession_genuine fun s' matchResults => ?_
        refine ⟨hphase, hcrypto.computeBatchHash _ _, fun i sig hi => ?_⟩
        rw [List.getElem?_map, Option.map_eq_some_iff] at hi
        obtain ⟨_, -, hgot⟩ := hi
        cases hgot
    · cases h
  · split at h
    · injection h with h
      subst h
      obtain ⟨hmode, hhash, hanswers⟩ := hphase
      obtain ⟨signers, hsub, hvalues⟩ := exists_sublist hanswers
      unfold collectSignatures
      dsimp only
      split
      case isTrue => trivial
      case isFalse hfew =>
        refine ⟨hhash, signers, hsub, ?_, hvalues⟩
        rw [hvalues, List.length_map, hsize hmode] at hfew
        exact not_lt.mp hfew
    · cases h
  · cases h

-- =============================================================== runs

/-- Every round stands so. -/
def World.Genuine (sha256 : Bytes → Word) (cfg : Config NodeKeys Plain)
    (w : World Plain) : Prop :=
  ∀ rd ∈ w.rounds, rd.phase.Genuine sha256 cfg

variable {w w' : World Plain}

/-- A round put in the place of another. -/
theorem World.Genuine.set (h : w.Genuine sha256 cfg) {k : ℕ}
    {rd : Round Plain} (hrd : rd.phase.Genuine sha256 cfg) :
    ∀ rd' ∈ w.rounds.set k rd, rd'.phase.Genuine sha256 cfg := by
  intro rd' hrd'
  rcases List.mem_or_eq_of_mem_set hrd' with hold | rfl
  · exact h rd' hold
  · exact hrd

/-- One genuine round more. -/
theorem World.Genuine.concat (h : w.Genuine sha256 cfg)
    {rd : Round Plain} (hrd : rd.phase.Genuine sha256 cfg) :
    ∀ rd' ∈ w.rounds ++ [rd], rd'.phase.Genuine sha256 cfg := by
  intro rd' hrd'
  rcases List.mem_append.mp hrd' with hold | hnew
  · exact h rd' hold
  · rw [List.mem_singleton.mp hnew]
    exact hrd

/-- A tick starts genuine rounds, -/
theorem genuine_swept (hcrypto : UsesPackage sha256 cfg.crypto)
    (h : w.Genuine sha256 cfg) {batchId : String} {l : List Ref}
    (hswept : Swept cfg w batchId l w') : w'.Genuine sha256 cfg := by
  cases hswept with
  | nothing => exact h
  | started hsuf hs hp => exact h.concat (start_genuine hcrypto hp)

/-- a request one, -/
theorem genuine_requestMatch (hcrypto : UsesPackage sha256 cfg.crypto)
    (h : w.Genuine sha256 cfg) {sessionId batchId : String}
    (hstep : requestMatch cfg w sessionId batchId = .ok w') :
    w'.Genuine sha256 cfg := by
  unfold requestMatch at hstep
  split at hstep
  · cases hstep
  split at hstep
  · cases hstep
  split at hstep
  · cases hstep
  · injection hstep with hstep
    subst hstep
    exact h.concat (start_genuine hcrypto ‹_›)

/-- A node's answer to a sign request is its signature. -/
theorem genuine_answerSign (hcrypto : UsesPackage sha256 cfg.crypto)
    (h : w.Genuine sha256 cfg) {k i : ℕ}
    (hstep : answerSign cfg w k i = .ok w') : w'.Genuine sha256 cfg := by
  unfold answerSign at hstep
  split at hstep
  · rename_i r rest batchId matchResults batchHash answers hk
    split at hstep
    · rename_i node hwaiting hnode
      injection hstep with hstep
      subst hstep
      obtain ⟨hmode, hhash, hanswers⟩ := h _ (List.mem_of_getElem? hk)
      refine h.set ⟨hmode, hhash, fun j sig hj => ?_⟩
      by_cases hij : i = j
      · subst hij
        obtain ⟨hlt, -⟩ := List.getElem?_eq_some_iff.mp hwaiting
        rw [List.getElem?_set_self hlt] at hj
        injection hj with hj
        injection hj with hj
        exact ⟨node, hnode, by rw [← hj, hcrypto.signBatch]⟩
      · rw [List.getElem?_set_ne hij] at hj
        exact hanswers j sig hj
    · cases hstep
  · cases hstep

/-- A lost answer is no signature. -/
theorem genuine_loseAnswer (h : w.Genuine sha256 cfg) {k i : ℕ}
    (hstep : loseAnswer w k i = .ok w') : w'.Genuine sha256 cfg := by
  unfold loseAnswer at hstep
  split at hstep
  · rename_i hk
    split at hstep
    · injection hstep with hstep
      subst hstep
      have hmode := h _ (List.mem_of_getElem? hk)
      exact h.set hmode
    · cases hstep
  · rename_i r rest batchId matchResults batchHash answers hk
    split at hstep
    · injection hstep with hstep
      subst hstep
      obtain ⟨hmode, hhash, hanswers⟩ := h _ (List.mem_of_getElem? hk)
      refine h.set ⟨hmode, hhash, fun j sig hj => hanswers j sig ?_⟩
      by_cases hij : i = j
      · subst hij
        rw [List.getElem?_set] at hj
        split at hj
        · split at hj <;> cases hj
        · exact hj
      · rwa [List.getElem?_set_ne hij] at hj
    · cases hstep
  · cases hstep

/-- and an answer keeps them. -/
theorem genuine_answerDecrypt (h : w.Genuine sha256 cfg) {k i : ℕ}
    (hstep : answerDecrypt cfg w k i = .ok w') :
    w'.Genuine sha256 cfg := by
  unfold answerDecrypt at hstep
  split at hstep
  · rename_i hk
    split at hstep
    · injection hstep with hstep
      subst hstep
      have hmode := h _ (List.mem_of_getElem? hk)
      exact h.set hmode
    · cases hstep
  · cases hstep

/-- What one accepted event keeps. -/
theorem genuine_step (hcrypto : UsesPackage sha256 cfg.crypto)
    (hsize : cfg.mode = .standalone →
      cfg.endpoints.length = cfg.nodes.length)
    (h : w.Genuine sha256 cfg) {e : Event}
    (hstep : step cfg w e = .ok w') : w'.Genuine sha256 cfg := by
  cases e with
  | submit intent clock =>
      rw [World.Genuine, (stepped_submit hstep).submit_rounds]
      exact h
  | requestMatch sessionId batchId =>
      exact genuine_requestMatch hcrypto h hstep
  | tick batchId =>
      injection hstep with hstep
      subst hstep
      exact genuine_swept hcrypto h (swept_matchOpen cfg w batchId _)
  | resumeTick k batchId =>
      simp only [step] at hstep
      split at hstep
      · cases hstep
      · injection hstep with hstep
        subst hstep
        exact genuine_swept hcrypto
          (w := { w with ticks := w.ticks.eraseIdx k }) h
          (swept_matchOpen cfg _ batchId _)
  | deliver k =>
      simp only [step, deliver] at hstep
      split at hstep
      · cases hstep
      split at hstep
      · split at hstep
        · cases hstep
        · injection hstep with hstep
          subst hstep
          exact h
      · cases hstep
  | answerDecrypt k i => exact genuine_answerDecrypt h hstep
  | answerSign k i => exact genuine_answerSign hcrypto h hstep
  | loseAnswer k i => exact genuine_loseAnswer h hstep
  | settle k batchId =>
      simp only [step, settle] at hstep
      split at hstep
      · cases hstep
      split at hstep
      · cases hstep
      split at hstep
      · cases hstep
      · injection hstep with hstep
        subst hstep
        rename_i rd hrd _ s hs _ p hp
        exact h.set (continue_genuine hcrypto hsize
          (h rd (List.mem_of_getElem? hrd)) hp)

/-- A batch that a signed session holds is genuine, where all rounds
are. -/
theorem World.Genuine.served (h : w.Genuine sha256 cfg)
    (hprotocol : Protocol w) (hrounded : Rounded w) {r : Ref}
    {s : SessionState Plain} (hs : w.committee.heap[r]? = some s)
    (hsigned : s.status = .signed) {batch : SignedMatchBatch}
    (hbatch : s.signedBatch = some batch) :
    GenuineBatch sha256 cfg.nodes batch := by
  obtain ⟨rd, hrd, -, hphase⟩ :=
    hprotocol.returned hrounded hs hsigned hbatch
  have hgenuine := h rd hrd
  rw [hphase] at hgenuine
  exact hgenuine

-- =========================================================== restarts

/-- What happens to the processes of a committee: one of the
coordinator's events, the coordinator starts again, or a node does. -/
inductive Life
  | event (e : Event)
  | restart
  | restartNode (i : ℕ)

/-- A process holds everything in memory. The coordinator's sessions are
gone when it starts again, while what it has sent is still under way and
the nodes keep their shares; a node's shares are gone when it does. -/
def lifeStep (cfg : Config Key Plain) (w : World Plain) :
    Life → Except Refusal (World Plain)
  | .event e => step cfg w e
  | .restart =>
      .ok { World.boot cfg with
        inFlight := w.inFlight
        stores := w.stores
        uses := w.uses }
  | .restartNode i =>
      .ok { w with stores := w.stores.set i OrderedMap.empty }

/-- What holds of every committee, however often it was started. -/
structure Lived (sha256 : Bytes → Word) (cfg : Config NodeKeys Plain)
    (w : World Plain) : Prop where
  protocol : Protocol w
  rounded : Rounded w
  genuine : w.Genuine sha256 cfg

/-- A coordinator that has just started. -/
theorem Lived.boot (sha256 : Bytes → Word) (cfg : Config NodeKeys Plain) :
    Lived sha256 cfg (World.boot cfg) where
  protocol := Protocol.boot cfg
  rounded := Rounded.boot cfg
  genuine := fun _ h => by cases h

/-- So through whatever it lives. -/
theorem Lived.next (hcrypto : UsesPackage sha256 cfg.crypto)
    (hsize : cfg.mode = .standalone →
      cfg.endpoints.length = cfg.nodes.length)
    (h : Lived sha256 cfg w) {l : Life} (hstep : lifeStep cfg w l = .ok w') :
    Lived sha256 cfg w' := by
  cases l with
  | event e =>
      have hstepped := step_cases hstep
      exact ⟨h.protocol.next hstepped, h.rounded.next hstepped,
        genuine_step hcrypto hsize h.genuine hstep⟩
  | restart =>
      -- nothing of the invariant is about messages or shares
      injection hstep with hstep
      subst hstep
      obtain ⟨hprotocol, hrounded, hgenuine⟩ := Lived.boot sha256 cfg
      exact ⟨⟨hprotocol.orderly, hprotocol.rounds, hprotocol.distinct,
        hprotocol.waiting, hprotocol.ticks⟩, hrounded, hgenuine⟩
  | restartNode i =>
      injection hstep with hstep
      subst hstep
      obtain ⟨hprotocol, hrounded, hgenuine⟩ := h
      exact ⟨⟨hprotocol.orderly, hprotocol.rounds, hprotocol.distinct,
        hprotocol.waiting, hprotocol.ticks⟩, hrounded, hgenuine⟩

/-- Every state of every run, restarts included. -/
theorem lived_run (hcrypto : UsesPackage sha256 cfg.crypto)
    (hsize : cfg.mode = .standalone →
      cfg.endpoints.length = cfg.nodes.length)
    (ls : List Life) :
    Lived sha256 cfg (run (lifeStep cfg) (World.boot cfg) ls) :=
  run_induction (Lived sha256 cfg) (Lived.boot sha256 cfg)
    (fun _ _ _ h hs => h.next hcrypto hsize hs) ls

end Lumix.Committee
