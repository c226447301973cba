/-
What one intent can do to the session it is in.

The coordinator lets an intent in for having an id and as many shares as
there are nodes. Nothing looks at whom the shares are addressed to or at
what is in them until the round reads them, and a round that finds an
intent it cannot reconstruct fails, whoever else is in the session.

`survives_iff` says when the further intents of a session leave the
well-formed ones alone: every intent of the session must have two nodes
with shares that give an amount, and no further intent may stand opposite
a well-formed one where the offers of a market are lined up by their
amounts (`Aligned`). The second half is about sessions in which the
separator of the matcher's keys does no harm.
-/
import Lumix.Committee.Facing
import Lumix.Committee.Hygiene
import Lumix.Committee.Quorum

namespace Lumix.Committee

open Exec

variable {Key Plain : Type} {α : Type}

-- ====================================================== the statement

/-- The two shares a round reads of an intent; `hears` is what it learns
from a node. -/
def usable (hears : α → String → Option Plain) (nodes : List α)
    (id : String) : List Plain :=
  (nodes.filterMap fun n => hears n id).take 2

/-- One share for every node, that opens to a point, and any two points
give an amount. -/
def wellFormed (crypto : Crypto Key Plain)
    (opens : α → String → Option Plain) (nodes : List α) (id : String) :
    Bool :=
  nodes.all fun n => nodes.all fun n' =>
    ((opens n id).bind fun x => (opens n' id).bind fun y =>
      crypto.reconstructAmount [x, y]).isSome

/-- What the in-process round learns from an entry of a node's. -/
def openEntry (crypto : Crypto Key Plain) (s : SessionState Plain)
    (node : CommitteeNodeKeyPair Key) (id : String) : Option Plain :=
  (s.entry node.nodeId id).bind fun e =>
    match crypto.decryptShare (e.encryptedShare.forNode node.nodeId)
      node.secretKey with
    | .ok plain => plain
    | .error _ => none

/-- What a node can say of an entry the session has for it. -/
def Party.opens (crypto : Crypto Key Plain) (s : SessionState Plain)
    (p : Party Key) (id : String) : Option Plain :=
  (s.entry p.nodeId id).bind fun _ => p.reported crypto id

/-- What arrives of that. -/
def Party.hears (crypto : Crypto Key Plain) (s : SessionState Plain)
    (p : Party Key) (id : String) : Option Plain :=
  if id = "__proto__" then none else p.opens crypto s id

/-- The intents of a session as rows for the matcher. -/
def rowsOf (crypto : Crypto Key Plain) (sharesOf : String → List Plain)
    (s : SessionState Plain) : List Reconstructed :=
  s.intents.entries.map (rowOf crypto sharesOf)

/-- The round signs, and every good intent has the deal it would have if
the good ones were alone. Which of the two sides is written first may
differ. -/
def Survives (r : Except String (Progress Plain)) (good : String → Bool)
    (rows : List Reconstructed) : Prop :=
  ∃ matchResults, SignsMatches r matchResults
    ∧ ∀ row ∈ rows, good row.intentId = true →
      dealOf matchResults row.intentId
        = dealOf (matchIntents (goodOnes good rows)) row.intentId

/-- Every intent has two usable shares that give an amount. -/
def AllReconstruct (crypto : Crypto Key Plain)
    (sharesOf : String → List Plain) (s : SessionState Plain) : Prop :=
  ∀ x ∈ s.intents.entries, Reconstructs crypto sharesOf x

/-- The separator of the matcher's keys does no harm, with the further
intents or without them. -/
def Separated (good : String → Bool) (rows : List Reconstructed) : Prop :=
  PipeHarmless rows ∧ PipeHarmless (goodOnes good rows)

instance (crypto : Crypto Key Plain) (sharesOf : String → List Plain)
    (s : SessionState Plain) : Decidable (AllReconstruct crypto sharesOf s) :=
  inferInstanceAs (Decidable (∀ x ∈ s.intents.entries,
    2 ≤ (sharesOf x.1).length
      ∧ crypto.reconstructAmount (sharesOf x.1) ≠ none))

/-- Intents without separators in their assets are separated. -/
theorem separated_of_plain {good : String → Bool}
    {rows : List Reconstructed} (h : ∀ i ∈ rows, i.Plain) :
    Separated good rows :=
  ⟨pipeHarmless_of_plain h,
    pipeHarmless_of_plain fun i hi => h i (List.mem_filter.mp hi).1⟩

-- ========================================================= both rounds

/-- What both rounds read of the session's intents is what is usable. -/
theorem readable_eq_usable {nodes : List α} {nodeId : α → String}
    {s : SessionState Plain} {l : List (Told Plain)}
    {hears : α → String → Option Plain} {id : String}
    (h : ∀ n ∈ nodes, shown s l (nodeId n) id = hears n id) :
    readable (nodes.map nodeId) s l id = usable hears nodes id := by
  rw [readable, usable, List.filterMap_map]
  exact congrArg (fun l : List Plain => l.take 2)
    (List.filterMap_congr h)

/-- Only what is read of the session's own intents matters. -/
theorem rowsOf_congr {crypto : Crypto Key Plain}
    {sharesOf sharesOf' : String → List Plain} {s : SessionState Plain}
    (h : ∀ id ∈ s.intents.keys, sharesOf id = sharesOf' id) :
    rowsOf crypto sharesOf s = rowsOf crypto sharesOf' s := by
  refine List.map_congr_left fun x hx => ?_
  rw [rowOf, rowOf, h x.1 (mem_keys_of_entries hx)]

/-- It depends on the shares of the session's intents only. -/
theorem allReconstruct_congr {crypto : Crypto Key Plain}
    {sharesOf sharesOf' : String → List Plain} {s : SessionState Plain}
    (h : ∀ id ∈ s.intents.keys, sharesOf id = sharesOf' id) :
    AllReconstruct crypto sharesOf s
      ↔ AllReconstruct crypto sharesOf' s := by
  refine forall₂_congr fun x hx => ?_
  rw [Reconstructs, Reconstructs, h x.1 (mem_keys_of_entries hx)]

/-- No two rows of a session have one id. -/
theorem nodup_rowsOf (crypto : Crypto Key Plain)
    (sharesOf : String → List Plain) (s : SessionState Plain) :
    ((rowsOf crypto sharesOf s).map Reconstructed.intentId).Nodup := by
  rw [rowsOf, List.map_map]
  exact s.intents.nodup

/-- A round that signs what the matcher finds, if and only if `ready`. -/
structure SignsIf (r : Except String (Progress Plain)) (ready : Prop)
    (rows : List Reconstructed) : Prop where
  signs : ready → SignsMatches r (matchIntents rows)
  needs : ∀ matchResults, SignsMatches r matchResults →
    ready ∧ matchResults = matchIntents rows

/-- A round that survives was ready. -/
theorem SignsIf.ready_of_survives {r : Except String (Progress Plain)}
    {ready : Prop} {rows : List Reconstructed} {good : String → Bool}
    (h : SignsIf r ready rows) (hsurvives : Survives r good rows) :
    ready := by
  obtain ⟨matchResults, hsigns, -⟩ := hsurvives
  exact (h.needs matchResults hsigns).1

/-- Where the separator does no harm it signs the good ones' deals if
nobody else is opposite one of them. -/
theorem SignsIf.survives {r : Except String (Progress Plain)}
    {ready : Prop} {rows : List Reconstructed} {good : String → Bool}
    (h : SignsIf r ready rows)
    (hids : (rows.map Reconstructed.intentId).Nodup)
    (hpipes : Separated good rows) :
    Survives r good rows ↔ ready ∧ Aligned good rows := by
  rw [← deals_kept_iff hids hpipes.1 hpipes.2]
  constructor
  · intro hsurvives
    refine ⟨h.ready_of_survives hsurvives, ?_⟩
    obtain ⟨matchResults, hsigns, hdeals⟩ := hsurvives
    obtain ⟨-, rfl⟩ := h.needs matchResults hsigns
    exact hdeals
  · rintro ⟨hready, hdeals⟩
    exact ⟨_, h.signs hready, hdeals⟩

/-- With every node answering, the remote round reads what arrives. -/
theorem readable_hears {crypto : Crypto Key Plain}
    {parties : List (Party Key)}
    (hids : (parties.map Party.nodeId).Nodup) {s : SessionState Plain}
    (hs : s.Untouched) :
    ∀ id ∈ s.intents.keys,
      readable (parties.map Party.nodeId) s
        (replied (decryptAnswers crypto parties (fun _ => true)
          s.intents.keys)) id
        = usable (Party.hears crypto s) parties id := by
  intro id hid
  refine readable_eq_usable fun p hp => ?_
  unfold Party.hears
  by_cases hproto : id = "__proto__"
  · rw [if_pos hproto, hproto]
    exact shown_of_untold hs (replied_proto _)
  · rw [if_neg hproto, Party.opens]
    have htold : told (replied (decryptAnswers crypto parties
          (fun _ => true) s.intents.keys)) p.nodeId id
        = if true then some (p.reported crypto id) else none :=
      replied_told hids hp hid hproto
    cases he : s.entry p.nodeId id with
    | none => rw [shown, he]; rfl
    | some e => exact shown_of_told he htold

/-- Over the network the round signs if what it hears reconstructs. -/
theorem remote_signsIf (crypto : Crypto Key Plain)
    {parties : List (Party Key)}
    (hids : (parties.map Party.nodeId).Nodup) {s : SessionState Plain}
    (hs : s.Untouched) (hsize : 2 ≤ s.intents.size)
    {signs : List (Answer NodeSignature)}
    (hsigns : Enough (parties.map Party.nodeId) signs)
    (batchId : String) :
    SignsIf
      (runMatchingRoundRemote crypto (parties.map Party.nodeId) batchId
        (decryptAnswers crypto parties (fun _ => true) s.intents.keys)
        signs s)
      (AllReconstruct crypto (usable (Party.hears crypto s) parties) s)
      (rowsOf crypto (usable (Party.hears crypto s) parties) s) := by
  have hread := @readable_hears _ _ crypto _ hids _ hs
  have henough : Enough (parties.map Party.nodeId)
      (decryptAnswers crypto parties (fun _ => true) s.intents.keys) := by
    rw [Enough, responding_decryptAnswers, List.length_map,
      List.filter_eq_self.mpr fun _ _ => rfl, threshold]
    omega
  rw [← rowsOf_congr hread]
  constructor
  · intro hrec
    rw [← allReconstruct_congr hread] at hrec
    exact (runMatchingRoundRemote_signs_iff hsize).mpr
      ⟨henough, hsigns, hrec, rfl⟩
  · intro matchResults h
    obtain ⟨-, -, hrec, hmatch⟩ :=
      (runMatchingRoundRemote_signs_iff hsize).mp h
    exact ⟨(allReconstruct_congr hread).mp hrec, hmatch⟩

/-- In one process it signs if everything decrypts as well. -/
theorem local_signsIf (crypto : Crypto Key Plain)
    {nodes : List (CommitteeNodeKeyPair Key)}
    (hids : (nodes.map (·.nodeId)).Nodup) {s : SessionState Plain}
    (hsize : 2 ≤ s.intents.size) (batchId : String) :
    SignsIf (runMatchingRound crypto nodes batchId s)
      (AllDecrypt crypto (tasks nodes s)
        ∧ AllReconstruct crypto (usable (openEntry crypto s) nodes) s)
      (rowsOf crypto (usable (openEntry crypto s) nodes) s) := by
  have hread : AllDecrypt crypto (tasks nodes s) → ∀ id ∈ s.intents.keys,
      readable (nodes.map (·.nodeId)) s (decrypted crypto nodes s) id
        = usable (openEntry crypto s) nodes id := by
    intro hall id _
    refine readable_eq_usable fun node hnode => ?_
    unfold openEntry
    cases he : s.entry node.nodeId id with
    | none => rw [shown, he]; rfl
    | some e =>
        obtain ⟨plain, hplain⟩ := exists_ok_of_isOk
          (hall _ (mem_tasks.mpr ⟨node, hnode, id, e, he, rfl⟩))
        have hopen : crypto.decryptShare
            (e.encryptedShare.forNode node.nodeId) node.secretKey
              = .ok plain := hplain
        rw [shown_of_told he (told_decrypted hall hids hnode he hopen),
          Option.bind_some, hopen]
  constructor
  · rintro ⟨hall, hrec⟩
    rw [← allReconstruct_congr (hread hall)] at hrec
    rw [← rowsOf_congr (hread hall)]
    exact (runMatchingRound_signs_iff hsize).mpr ⟨hall, hrec, rfl⟩
  · intro matchResults h
    obtain ⟨hall, hrec, hmatch⟩ := (runMatchingRound_signs_iff hsize).mp h
    rw [← rowsOf_congr (hread hall)]
    exact ⟨⟨hall, (allReconstruct_congr (hread hall)).mp hrec⟩, hmatch⟩

/-- Two ids make a session large enough for a round. -/
theorem two_le_size {s : SessionState Plain} {a b : String}
    (ha : a ∈ s.intents.keys) (hb : b ∈ s.intents.keys) (hab : a ≠ b) :
    2 ≤ s.intents.size := by
  have hsub : [a, b] ⊆ s.intents.keys :=
    List.cons_subset.mpr ⟨ha, List.cons_subset.mpr ⟨hb, List.nil_subset _⟩⟩
  have hnodup : [a, b].Nodup := by simp [hab]
  have hlen := (List.subperm_of_subset hnodup hsub).length_le
  rw [OrderedMap.keys, List.length_map] at hlen
  exact hlen

/-- When two well-formed intents get what they would get without the
rest of their session. First over the network with every node answering,
whatever shares the nodes were sent; then in the process that holds the
keys, where all the session's shares must decrypt as well. -/
theorem survives_iff {crypto : Crypto Key Plain}
    (parties : List (Party Key))
    (hids : (parties.map Party.nodeId).Nodup) (sessionId : String)
    (started : ℤ) (intents : List MpcIntent) (s : SessionState Plain)
    (hs : s = .ofIntents sessionId started intents)
    (hgood : ∃ a ∈ s.intents.keys, ∃ b ∈ s.intents.keys, a ≠ b
      ∧ wellFormed crypto (Party.opens crypto s) parties a
      ∧ wellFormed crypto (Party.opens crypto s) parties b)
    (signs : List (Answer NodeSignature))
    (hsigns : Enough (parties.map Party.nodeId) signs)
    (batchId batchId' : String) :
    (let round := runMatchingRoundRemote crypto
        (parties.map Party.nodeId) batchId
        (decryptAnswers crypto parties (fun _ => true) s.intents.keys)
        signs s
     let good := wellFormed crypto (Party.opens crypto s) parties
     let shares := usable (Party.hears crypto s) parties
     let rows := rowsOf crypto shares s
     (Survives round good rows → AllReconstruct crypto shares s)
      ∧ (Separated good rows → (Survives round good rows
        ↔ AllReconstruct crypto shares s ∧ Aligned good rows)))
    ∧ (let nodes := parties.map Party.node
       let round := runMatchingRound crypto nodes batchId' s
       let good := wellFormed crypto (openEntry crypto s) nodes
       let shares := usable (openEntry crypto s) nodes
       let rows := rowsOf crypto shares s
       (Survives round good rows →
          AllDecrypt crypto (tasks nodes s)
            ∧ AllReconstruct crypto shares s)
        ∧ (Separated good rows → (Survives round good rows
          ↔ (AllDecrypt crypto (tasks nodes s)
              ∧ AllReconstruct crypto shares s)
            ∧ Aligned good rows))) := by
  obtain ⟨a, ha, b, hb, hab, -⟩ := hgood
  have hsize := two_le_size ha hb hab
  have huntouched : s.Untouched :=
    hs ▸ untouched_ofIntents sessionId started intents
  have hnodeIds : (parties.map Party.node).map (·.nodeId)
      = parties.map Party.nodeId := List.map_map
  have hremote := remote_signsIf crypto hids huntouched hsize hsigns batchId
  have hlocal := local_signsIf crypto (hnodeIds ▸ hids) hsize batchId'
  exact ⟨⟨hremote.ready_of_survives,
      hremote.survives (nodup_rowsOf _ _ s)⟩,
    hlocal.ready_of_survives, hlocal.survives (nodup_rowsOf _ _ s)⟩

-- ================================================= one intent too many

namespace Demo

/-- Two intents that cross, and one whose shares are all addressed to
the first node. -/
def blocked : SessionState (ℕ × ℕ) :=
  .ofIntents "session-7" 7
    [Demo.intent "a" "X" "Y" "....", Demo.intent "b" "Y" "X" "....",
     Demo.crowded "c" "X" "Z" "...."]

/-- Two intents are well formed, and the third has one share. -/
theorem blocked_checked :
    blocked.intents.keys = ["a", "b", "c"]
      ∧ wellFormed Demo.crypto (Party.opens Demo.crypto blocked)
          (parties blocked) "a"
      ∧ wellFormed Demo.crypto (Party.opens Demo.crypto blocked)
          (parties blocked) "b"
      ∧ (usable (Party.hears Demo.crypto blocked) (parties blocked)
          "c").length = 1 := by
  decide +kernel

end Demo

/-- All three pass the checks and all nodes answer, and nothing is
signed. -/
theorem crowded_blocks :
    (∀ i ∈ [Demo.intent "a" "X" "Y" "....", Demo.intent "b" "Y" "X" "....",
        Demo.crowded "c" "X" "Z" "...."],
        i.intentId ≠ "" ∧ i.encryptedShares.length = Demo.nodes.length)
      ∧ wellFormed Demo.crypto (Party.opens Demo.crypto Demo.blocked)
          (Demo.parties Demo.blocked) "a"
      ∧ wellFormed Demo.crypto (Party.opens Demo.crypto Demo.blocked)
          (Demo.parties Demo.blocked) "b"
      ∧ ∀ signs matchResults, ¬SignsMatches
          (runMatchingRoundRemote Demo.crypto
            ((Demo.parties Demo.blocked).map Party.nodeId) "batch"
            (decryptAnswers Demo.crypto (Demo.parties Demo.blocked)
              (fun _ => true) Demo.blocked.intents.keys) signs Demo.blocked)
          matchResults := by
  obtain ⟨hkeys, ha, hb, hc⟩ := Demo.blocked_checked
  refine ⟨by decide, ha, hb, fun signs matchResults h => ?_⟩
  have hsize : 2 ≤ Demo.blocked.intents.size := by
    have hlen := congrArg List.length hkeys
    rw [OrderedMap.keys, List.length_map] at hlen
    show 2 ≤ Demo.blocked.intents.entries.length
    rw [hlen]
    decide
  have hrec := ((runMatchingRoundRemote_signs_iff hsize).mp h).2.2.1
  have hmem : "c" ∈ Demo.blocked.intents.keys := by
    rw [hkeys]
    decide
  obtain ⟨x, hx, hid⟩ := List.mem_map.mp hmem
  have hlen := (hrec x hx).1
  have huntouched : Demo.blocked.Untouched := untouched_ofIntents ..
  rw [hid, readable_hears (by decide) huntouched "c" hmem, hc] at hlen
  exact absurd hlen (by decide)

-- ================================================= others in company

namespace Demo

/-- Shares for the first two nodes only. -/
def halfShared (intentId inputAsset outputAsset ciphertext : String) :
    MpcIntent where
  intentId := intentId
  inputAsset := inputAsset
  outputAsset := outputAsset
  encryptedShares := ["node-1", "node-2", "node-2"].map fun nodeId =>
    { ciphertext, nonce := "", senderPubkey := "", nodeId }

/-- Two intents that cross, and two more without a share for the last
node that cross each other for more. -/
def crossings : List MpcIntent :=
  [Demo.intent "a" "X" "Y" "....", Demo.halfShared "c" "X" "Y" "......",
   Demo.halfShared "d" "Y" "X" "........", Demo.intent "b" "Y" "X" "..."]

/-- A session of four intents. -/
def accompanied : SessionState (ℕ × ℕ) :=
  .ofIntents "session-7" 7 crossings

/-- Which of them are well formed. -/
def accompaniedGood : String → Bool :=
  wellFormed Demo.crypto (Party.opens Demo.crypto accompanied)
    (parties accompanied)

/-- What the nodes reconstruct. -/
def accompaniedRows : List Reconstructed :=
  rowsOf Demo.crypto
    (usable (Party.hears Demo.crypto accompanied) (parties accompanied))
    accompanied

/-- The first and the last are, and the other two reconstruct as well,
without being opposite to either. -/
theorem accompanied_checked :
    accompanied.intents.keys = ["a", "c", "d", "b"]
      ∧ accompanied.intents.keys.map accompaniedGood
        = [true, false, false, true]
      ∧ AllReconstruct Demo.crypto
        (usable (Party.hears Demo.crypto accompanied) (parties accompanied))
        accompanied
      ∧ (∀ i ∈ accompaniedRows, i.Plain)
      ∧ Aligned accompaniedGood accompaniedRows := by
  decide +kernel

end Demo

/-- The two are matched as if they were alone. -/
theorem survives_accompanied :
    Survives
      (runMatchingRoundRemote Demo.crypto
        ((Demo.parties Demo.accompanied).map Party.nodeId) "batch"
        (decryptAnswers Demo.crypto (Demo.parties Demo.accompanied)
          (fun _ => true) Demo.accompanied.intents.keys)
        [.got ⟨"node-1", "", ""⟩, .lost, .got ⟨"node-3", "", ""⟩]
        Demo.accompanied)
      Demo.accompaniedGood Demo.accompaniedRows := by
  obtain ⟨hkeys, hgood, hrec, hplain, haligned⟩ := Demo.accompanied_checked
  rw [hkeys] at hgood
  simp only [List.map_cons, List.map_nil, List.cons.injEq, and_true]
    at hgood
  obtain ⟨ha, -, -, hb⟩ := hgood
  have hiff := (@survives_iff _ _ Demo.crypto
    (Demo.parties Demo.accompanied) (by decide) "session-7" 7
    Demo.crossings Demo.accompanied rfl
    ⟨"a", by rw [hkeys]; decide, "b", by rw [hkeys]; decide, by decide,
      ha, hb⟩
    [.got ⟨"node-1", "", ""⟩, .lost, .got ⟨"node-3", "", ""⟩]
    (by decide) "batch" "batch").1.2
  exact (hiff (separated_of_plain hplain)).mpr ⟨hrec, haligned⟩

end Lumix.Committee
