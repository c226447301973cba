/-
What a matching round leaves of the plaintexts.

Both rounds clear the decrypted shares once, after every intent has been
reconstructed, and for the configured nodes only. All the ways to return
before that point leave what was written. `Wiped` is what has to be the
case for nothing to be left, in terms of the session and of what was
told about its entries; `round_forgets_iff` says it is exactly that.
-/
import Lumix.Committee.Outcome
import Lumix.Committee.Server

namespace Lumix.Committee

open Exec

variable {Key Plain : Type}

-- ====================================================== the statement

/-- No entry shows a share. -/
def SessionState.Forgotten (s : SessionState Plain) : Prop :=
  ∀ n id, s.plaintext n id = none

/-- The session after a call of a round on `s` shows nothing, if the call
returned: a refusal leaves `s`, and a throw is no return. -/
def Forgets (s : SessionState Plain) :
    Except String (Progress Plain) → Prop
  | .error _ => s.Forgotten
  | .ok p => ∀ result, p.phase = .returned result → result ≠ .threw →
      p.session.Forgotten

/-- A round that was told `l` ends with nothing to be seen: it throws,
or it was told of no plaintext, or it gets to the clearing and the
plaintexts are the configured nodes'. -/
def Wiped (crypto : Crypto Key Plain) (nodeIds : List String)
    (s : SessionState Plain) (l : List (Told Plain)) : Prop :=
  Throws crypto (readable nodeIds s l) s.intents.entries
    ∨ (∀ n id, shown s l n id = none)
    ∨ ((∀ x ∈ s.intents.entries,
          Reconstructs crypto (readable nodeIds s l) x)
        ∧ ∀ n id, shown s l n id ≠ none → n ∈ nodeIds)

-- ========================================================= the endings

/-- The call returned and left these plaintexts. -/
def Progress.Left (p : Progress Plain)
    (plaintext : String → String → Option Plain) : Prop :=
  (∃ result, p.phase = .returned result ∧ result ≠ .threw)
    ∧ p.session.plaintext = plaintext

/-- A round that failed has left what it read. -/
theorem Progress.Failed.left {p : Progress Plain}
    {plaintext : String → String → Option Plain}
    (h : p.Failed plaintext) : p.Left plaintext := by
  obtain ⟨reason, hphase, -, hplain⟩ := h
  exact ⟨⟨_, hphase, fun he => by cases he⟩, hplain⟩

/-- So has one that signed. -/
theorem Progress.Signed.left {p : Progress Plain}
    {matchResults : List MatchResult}
    {plaintext : String → String → Option Plain}
    (h : p.Signed matchResults plaintext) : p.Left plaintext := by
  obtain ⟨batch, hphase, -, -, -, hplain⟩ := h
  exact ⟨⟨_, hphase, fun he => by cases he⟩, hplain⟩

/-- It has forgotten what it left when that is nothing. -/
theorem forgets_left {s : SessionState Plain} {p : Progress Plain}
    {plaintext : String → String → Option Plain}
    (h : p.Left plaintext) :
    Forgets s (.ok p) ↔ ∀ n id, plaintext n id = none := by
  obtain ⟨⟨result, hphase, hne⟩, hplain⟩ := h
  constructor
  · intro hforgets n id
    rw [← hplain]
    exact hforgets result hphase hne n id
  · intro hnone _ _ _ n id
    rw [hplain]
    exact hnone n id

/-- A round that threw has nothing. -/
theorem forgets_threw {s : SessionState Plain} {p : Progress Plain}
    (h : p.phase = .returned .threw) : Forgets s (.ok p) := by
  intro result hphase hne
  rw [h] at hphase
  injection hphase with hphase
  exact absurd hphase.symm hne

/-- A reconstruction stops for one reason. -/
theorem not_throws_of_short {crypto : Crypto Key Plain}
    {nodeIds : List String} {s : SessionState Plain}
    {l : List (Told Plain)} {entries : List (String × MpcIntent)}
    (h : Short crypto (readable nodeIds s l) entries) :
    ¬Throws crypto (readable nodeIds s l) entries := by
  rw [← availableShares_tells] at h ⊢
  intro hthrows
  obtain ⟨id, hid⟩ := reconstruct_short h
  rw [reconstruct_throws hthrows] at hid
  cases hid

/-- Clearing the nodes' shares clears all, if no others are left. -/
theorem cleared_eq_none {nodeIds : List String}
    {plaintext : String → String → Option Plain} :
    (∀ n id, cleared nodeIds plaintext n id = none)
      ↔ ∀ n id, plaintext n id ≠ none → n ∈ nodeIds := by
  refine forall_congr' fun n => forall_congr' fun id => ?_
  unfold cleared
  by_cases hn : n ∈ nodeIds <;> simp [hn]

/-- The endings of a call that got as far as the reconstruction. -/
theorem forgets_iff_wiped {crypto : Crypto Key Plain}
    {nodeIds : List String} {s : SessionState Plain}
    {l : List (Told Plain)} {r : Except String (Progress Plain)}
    (hall : (∀ x ∈ s.intents.entries,
        Reconstructs crypto (readable nodeIds s l) x) →
      ∃ p, r = .ok p ∧ p.Left (cleared nodeIds (shown s l)))
    (hshort : Short crypto (readable nodeIds s l) s.intents.entries →
      ∃ p, r = .ok p ∧ p.Left (shown s l))
    (hthrows : Throws crypto (readable nodeIds s l) s.intents.entries →
      ∃ p, r = .ok p ∧ p.phase = .returned .threw) :
    Forgets s r ↔ Wiped crypto nodeIds s l := by
  rcases reconstruct_cases crypto (readable nodeIds s l)
    s.intents.entries with h | h | h
  · obtain ⟨p, rfl, hp⟩ := hall h
    rw [forgets_left hp, cleared_eq_none]
    constructor
    · exact fun hin => Or.inr (Or.inr ⟨h, hin⟩)
    · rintro (hthrow | hnone | ⟨-, hin⟩)
      · exact absurd h (not_all_of_throws hthrow)
      · exact fun n id hne => absurd (hnone n id) hne
      · exact hin
  · obtain ⟨p, rfl, hp⟩ := hshort h
    rw [forgets_left hp]
    constructor
    · exact fun hnone => Or.inr (Or.inl hnone)
    · rintro (hthrow | hnone | ⟨hrec, -⟩)
      · exact absurd hthrow (not_throws_of_short h)
      · exact hnone
      · exact absurd hrec (not_all_of_short h)
  · obtain ⟨p, rfl, hp⟩ := hthrows h
    exact ⟨fun _ => Or.inl h, fun _ => forgets_threw hp⟩

-- ======================================================== both rounds

/-- The round in one process, branch by branch. -/
theorem runMatchingRound_forgets (crypto : Crypto Key Plain)
    (nodes : List (CommitteeNodeKeyPair Key)) (batchId : String)
    (s : SessionState Plain) :
    Forgets s (runMatchingRound crypto nodes batchId s)
      ↔ if s.intents.size < 2 then s.Forgotten
        else if AllDecrypt crypto (tasks nodes s) then
          Wiped crypto (nodes.map (·.nodeId)) s (decrypted crypto nodes s)
        else ∀ n id, shown s (decrypted crypto nodes s) n id = none := by
  by_cases hsize : s.intents.size < 2
  · rw [if_pos hsize, runMatchingRound_few batchId hsize]
    exact Iff.rfl
  rw [if_neg hsize]
  by_cases hdec : AllDecrypt crypto (tasks nodes s)
  · rw [if_pos hdec]
    refine forgets_iff_wiped (fun h => ?_) (fun h => ?_) (fun h => ?_)
    · obtain ⟨p, hp, hsigned⟩ := runMatchingRound_all batchId hsize hdec h
      exact ⟨p, hp, hsigned.left⟩
    · obtain ⟨p, hp, hfailed⟩ := runMatchingRound_short batchId hsize hdec h
      exact ⟨p, hp, hfailed.left⟩
    · exact runMatchingRound_throws batchId hsize hdec h
  · rw [if_neg hdec]
    obtain ⟨p, hp, hfailed⟩ := runMatchingRound_undecrypted batchId
      hsize hdec
    rw [hp]
    exact forgets_left hfailed.left

/-- The round over the network, branch by branch. -/
theorem runMatchingRoundRemote_forgets (crypto : Crypto Key Plain)
    (endpoints : List String) (batchId : String)
    (decrypts : List (Answer (DecryptReply Plain)))
    (signs : List (Answer NodeSignature)) (s : SessionState Plain) :
    Forgets s
        (runMatchingRoundRemote crypto endpoints batchId decrypts signs s)
      ↔ if s.intents.size < 2 then s.Forgotten
        else if Enough endpoints decrypts then
          Wiped crypto endpoints s (replied decrypts)
        else s.Forgotten := by
  by_cases hsize : s.intents.size < 2
  · rw [if_pos hsize, runMatchingRoundRemote_few crypto batchId signs s
      hsize]
    exact Iff.rfl
  rw [if_neg hsize]
  by_cases henough : Enough endpoints decrypts
  · rw [if_pos henough]
    refine forgets_iff_wiped (fun h => ?_) (fun h => ?_) (fun h => ?_)
    · by_cases hsigns : Enough endpoints signs
      · obtain ⟨p, hp, hsigned⟩ :=
          runMatchingRoundRemote_all crypto batchId signs s hsize henough h
            hsigns
        exact ⟨p, hp, hsigned.left⟩
      · obtain ⟨p, hp, hfailed⟩ :=
          runMatchingRoundRemote_unsigned crypto batchId signs s hsize
            henough h hsigns
        exact ⟨p, hp, hfailed.left⟩
    · obtain ⟨p, hp, hfailed⟩ :=
        runMatchingRoundRemote_short crypto batchId signs s hsize henough
          h
      exact ⟨p, hp, hfailed.left⟩
    · exact runMatchingRoundRemote_throws crypto batchId signs s hsize
        henough h
  · rw [if_neg henough]
    obtain ⟨p, hp, hfailed⟩ := runMatchingRoundRemote_unanswered crypto
      batchId signs s hsize henough
    rw [hp]
    exact forgets_left hfailed.left

/-- When a matching round leaves no plaintext share, in the process that
holds the keys and over the network, for every session, every set of
answers and every outcome. -/
theorem round_forgets_iff (crypto : Crypto Key Plain)
    (nodes : List (CommitteeNodeKeyPair Key)) (endpoints : List String)
    (batchId : String) (decrypts : List (Answer (DecryptReply Plain)))
    (signs : List (Answer NodeSignature)) (s : SessionState Plain) :
    (Forgets s (runMatchingRound crypto nodes batchId s)
        ↔ if s.intents.size < 2 then s.Forgotten
          else if AllDecrypt crypto (tasks nodes s) then
            Wiped crypto (nodes.map (·.nodeId)) s
              (decrypted crypto nodes s)
          else ∀ n id, shown s (decrypted crypto nodes s) n id = none)
      ∧ (Forgets s
            (runMatchingRoundRemote crypto endpoints batchId decrypts signs
              s)
          ↔ if s.intents.size < 2 then s.Forgotten
            else if Enough endpoints decrypts then
              Wiped crypto endpoints s (replied decrypts)
            else s.Forgotten) :=
  ⟨runMatchingRound_forgets crypto nodes batchId s,
    runMatchingRoundRemote_forgets crypto endpoints batchId decrypts signs
      s⟩

/-- An intent whose three shares are all addressed to the first node. -/
def Demo.crowded (intentId inputAsset outputAsset ciphertext : String) :
    MpcIntent where
  intentId := intentId
  inputAsset := inputAsset
  outputAsset := outputAsset
  encryptedShares := Demo.nodes.map fun _ =>
    { ciphertext, nonce := "", senderPubkey := "", nodeId := "node-1" }

/-- It shares a session with an ordinary intent, and all nodes hold what
they were sent and answer. -/
def Demo.stuck : SessionState (ℕ × ℕ) :=
  ((SessionState.fresh "session-7" 7).addIntent
    (Demo.intent "a" "X" "Y" "....")).addIntent
    (Demo.crowded "b" "Y" "X" "....")

/-- A share for a node. -/
def Demo.share (nodeId : String) : EncryptedShare where
  ciphertext := "...."
  nonce := ""
  senderPubkey := ""
  nodeId := nodeId

/-- Every node replies, and one intent has too few shares. -/
def Demo.stuckReplies : List (Answer (DecryptReply (ℕ × ℕ))) :=
  (Demo.nodes.zip
    [(OrderedMap.empty.set "a" (Demo.share "node-1")).set "b"
        (Demo.share "node-1"),
      OrderedMap.empty.set "a" (Demo.share "node-2"),
      OrderedMap.empty.set "a" (Demo.share "node-3")]).map fun p =>
    .got (nodeDecrypt Demo.crypto p.1 p.2 ["a", "b"])

/-- The round throws over it. -/
def Demo.stuckRound : Except String (Progress (ℕ × ℕ)) :=
  runMatchingRoundRemote Demo.crypto (Demo.nodes.map (·.nodeId)) "batch"
    Demo.stuckReplies [] Demo.stuck

/-- The session of a round that returned a failure. -/
def failedSession :
    Except String (Progress Plain) → Option (SessionState Plain)
  | .ok ⟨s, _, .returned (.failed _)⟩ => some s
  | _ => none

/-- A session that failed has forgotten. -/
theorem Forgets.failedSession {s s' : SessionState Plain}
    {r : Except String (Progress Plain)} (h : Forgets s r)
    (hr : failedSession r = some s') : s'.Forgotten := by
  unfold Committee.failedSession at hr
  split at hr
  · injection hr with hr
    rw [← hr]
    exact h _ rfl fun he => by cases he
  · cases hr

/-- The failed round leaves what it read of the ordinary intent. -/
theorem Demo.stuck_left :
    (failedSession Demo.stuckRound).bind
      (fun s => s.plaintext "node-2" "a") = some (2, 4) := by
  decide +kernel

/-- What was decrypted outlives this round. -/
theorem share_outlives_round : ¬Forgets Demo.stuck Demo.stuckRound := by
  intro h
  obtain ⟨s, hs, hleft⟩ :=
    Option.bind_eq_some_iff.mp Demo.stuck_left
  rw [h.failedSession hs "node-2" "a"] at hleft
  cases hleft

end Lumix.Committee
