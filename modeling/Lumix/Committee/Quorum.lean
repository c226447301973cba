/-
Which nodes answer does not decide what is matched.

An intent's amount is on a line that every node has one point of, so any
two points give it back (`shamirReconstruct_split`). A round reads two
points an intent, in the order of the nodes, and which two depends on who
answered; `reconstruct_readable` says they give the amount whoever it
was. The rows that reach the matcher then are the true ones, in the order
of the session's intents, and so are the matches.

One id is lost on the way. A node collects its answer in an object, and
a property "__proto__" assigned to an object is none of its own: it is
not in the JSON that leaves the node. `quorum_iff` is the law with that
exception.
-/
import Lumix.Committee.Reconstruction
import Lumix.Committee.Outcome
import Lumix.Committee.Server

namespace Lumix.Committee

open Exec

variable {Key Plain : Type}

-- =========================================================== sessions

/-- The open session that submissions have made. -/
def SessionState.ofIntents (sessionId : String) (started : ℤ)
    (intents : List MpcIntent) : SessionState Plain :=
  intents.foldl SessionState.addIntent (.fresh sessionId started)

/-- A session before its round: nothing is decrypted, and every entry is
of one of its intents. -/
structure SessionState.Untouched (s : SessionState Plain) : Prop where
  sealed : ∀ n id, s.plaintext n id = none
  rooted : ∀ n id e, s.entry n id = some e → id ∈ s.intents.keys

/-- A fresh session has no shares. -/
theorem untouched_fresh (sessionId : String) (started : ℤ) :
    (SessionState.fresh sessionId started :
      SessionState Plain).Untouched where
  sealed := fun n id => rfl
  rooted := fun n id e he => by cases he

/-- No entry of the map is decrypted. -/
def AllSealed
    (m : OrderedMap String (OrderedMap String (NodeShareEntry Plain))) :
    Prop :=
  ∀ n id, ((m.get n).bind fun x => x.get id).bind
    NodeShareEntry.decryptedShare = none

/-- A stored share is not decrypted. -/
theorem allSealed_storeShare
    {m : OrderedMap String (OrderedMap String (NodeShareEntry Plain))}
    (h : AllSealed m) (intentId : String) (sh : EncryptedShare) :
    AllSealed (SessionState.storeShare intentId m sh) := by
  intro n id
  rw [SessionState.storeShare, OrderedMap.get_set]
  by_cases hn : sh.nodeId = n
  · rw [if_pos hn, Option.bind_some, OrderedMap.get_set]
    by_cases hid : intentId = id
    · rw [if_pos hid]
      rfl
    · rw [if_neg hid]
      have hold := h n id
      rw [← hn] at hold
      cases hm : m.get sh.nodeId with
      | none => rfl
      | some x => rw [hm] at hold; exact hold
  · rw [if_neg hn]
    exact h n id

/-- An intent adds its own, and sealed. -/
theorem untouched_addIntent {s : SessionState Plain} (h : s.Untouched)
    (intent : MpcIntent) : (s.addIntent intent).Untouched where
  sealed := by
    have hfold : AllSealed (intent.encryptedShares.foldl
        (SessionState.storeShare intent.intentId) s.shares) :=
      List.foldlRecOn intent.encryptedShares _ (motive := AllSealed)
        h.sealed fun m hm sh _ => allSealed_storeShare hm _ sh
    exact hfold
  rooted := by
    intro n id e he
    rw [OrderedMap.mem_keys, SessionState.get_intents_addIntent]
    by_cases hid : intent.intentId = id
    · exact ⟨intent, if_pos hid⟩
    · rw [if_neg hid, ← OrderedMap.mem_keys]
      rcases SessionState.entry_addIntent he with ⟨heq, -⟩ | hold
      · exact absurd heq.symm hid
      · exact h.rooted n id e hold

/-- So do any number. -/
theorem untouched_ofIntents (sessionId : String) (started : ℤ)
    (intents : List MpcIntent) :
    (SessionState.ofIntents sessionId started intents :
      SessionState Plain).Untouched := by
  unfold SessionState.ofIntents
  refine List.foldlRecOn intents _ (untouched_fresh sessionId started) ?_
  exact fun s hs intent _ => untouched_addIntent hs intent

-- ============================================================ parties

/-- A node of the network, and the shares it was sent. -/
structure Party (Key : Type) where
  node : CommitteeNodeKeyPair Key
  store : OrderedMap String EncryptedShare

/-- The node's id. -/
def Party.nodeId (p : Party Key) : String := p.node.nodeId

/-- What the nodes answer a decrypt request, those that do. -/
def decryptAnswers (crypto : Crypto Key Plain)
    (parties : List (Party Key)) (up : Party Key → Bool)
    (intentIds : List String) : List (Answer (DecryptReply Plain)) :=
  parties.map fun p =>
    if up p then .got (nodeDecrypt crypto p.node p.store intentIds)
    else .lost

/-- What a party's answer says of an intent. -/
def Party.reported (crypto : Crypto Key Plain) (p : Party Key)
    (id : String) : Option Plain :=
  (p.store.get id).bind fun enc =>
    match crypto.decryptShare enc p.node.secretKey with
    | .ok plain => plain
    | .error _ => none

/-- What the nodes that are up reply. -/
theorem mem_replied {crypto : Crypto Key Plain}
    {parties : List (Party Key)} {up : Party Key → Bool}
    {intentIds : List String} {t : Told Plain} :
    t ∈ replied (decryptAnswers crypto parties up intentIds)
      ↔ ∃ p ∈ parties, up p ∧ p.nodeId = t.nodeId
          ∧ t.intentId ∈ intentIds ∧ t.intentId ≠ "__proto__"
          ∧ p.reported crypto t.intentId = t.plain := by
  have hone : ∀ p : Party Key,
      t ∈ (nodeDecrypt crypto p.node p.store intentIds).tells
        ↔ p.nodeId = t.nodeId ∧ t.intentId ∈ intentIds
          ∧ t.intentId ≠ "__proto__"
          ∧ p.reported crypto t.intentId = t.plain := by
    intro p
    simp only [DecryptReply.tells, nodeDecrypt, List.mem_map,
      List.mem_filter, decide_eq_true_eq]
    constructor
    · rintro ⟨x, ⟨id, ⟨hid, hne⟩, rfl⟩, rfl⟩
      exact ⟨rfl, hid, hne, rfl⟩
    · rintro ⟨hn, hid, hne, hplain⟩
      refine ⟨_, ⟨t.intentId, ⟨hid, hne⟩, rfl⟩, ?_⟩
      obtain ⟨nodeId, intentId, plain⟩ := t
      exact congrArg₂ (fun a b => Told.mk a intentId b) hn hplain
  simp only [replied, decryptAnswers, List.mem_flatMap, List.mem_filterMap,
    List.mem_map]
  constructor
  · rintro ⟨reply, ⟨answer, ⟨p, hp, rfl⟩, hvalue⟩, ht⟩
    by_cases hup : up p
    · rw [if_pos hup] at hvalue
      injection hvalue with hvalue
      rw [← hvalue] at ht
      exact ⟨p, hp, hup, (hone p).mp ht⟩
    · rw [if_neg hup] at hvalue
      cases hvalue
  · rintro ⟨p, hp, hup, ht⟩
    exact ⟨_, ⟨_, ⟨p, hp, rfl⟩, by rw [if_pos hup]; rfl⟩, (hone p).mpr ht⟩

/-- As many respond as are up. -/
theorem responding_decryptAnswers (crypto : Crypto Key Plain)
    (parties : List (Party Key)) (up : Party Key → Bool)
    (intentIds : List String) :
    ((decryptAnswers crypto parties up intentIds).filterMap
      Answer.value).length = (parties.filter up).length := by
  rw [decryptAnswers, List.filterMap_map]
  induction parties with
  | nil => rfl
  | cons p parties ih =>
      rw [List.filterMap_cons, List.filter_cons]
      by_cases hup : up p
      · simp only [Function.comp_apply, if_pos hup, Answer.value,
          List.length_cons, ih]
      · simp only [Function.comp_apply, if_neg hup, Answer.value, ih]

-- =========================================== what a session then shows

section

variable {s : SessionState Plain} {l : List (Told Plain)} {n id : String}

/-- Of an entry nobody told anything nothing is shown. -/
theorem shown_of_untold (h : s.Untouched) (htold : told l n id = none) :
    shown s l n id = none := by
  rw [shown, htold]
  exact h.sealed n id

/-- Of any other what was told. -/
theorem shown_of_told {e : NodeShareEntry Plain} {v : Option Plain}
    (he : s.entry n id = some e) (htold : told l n id = some v) :
    shown s l n id = v := by
  rw [shown, he, htold]
  rfl

end

/-- Two of a list's values under a partial function, and where they come
from. -/
theorem filterMap_take_two {α β : Type} {f : α → Option β} {l : List α}
    (h : 2 ≤ (l.filterMap f).length) :
    ∃ (i j : ℕ) (a b : α) (p q : β), i ≠ j ∧ l[i]? = some a ∧ l[j]? = some b
      ∧ f a = some p ∧ f b = some q
      ∧ (l.filterMap f).take 2 = [p, q] := by
  obtain ⟨p, q, rest, hpq⟩ : ∃ p q rest, l.filterMap f = p :: q :: rest := by
    match hl : l.filterMap f with
    | [] => rw [hl] at h; exact absurd h (by simp)
    | [p] => rw [hl] at h; exact absurd h (by simp)
    | p :: q :: rest => exact ⟨p, q, rest, rfl⟩
  obtain ⟨l₁, a, l₂, rfl, -, ha, hrest⟩ :=
    List.filterMap_eq_cons_iff.mp hpq
  obtain ⟨l₃, b, l₄, rfl, -, hb, -⟩ :=
    List.filterMap_eq_cons_iff.mp hrest
  refine ⟨l₁.length, l₁.length + 1 + l₃.length, a, b, p, q, by omega, ?_,
    ?_, ha, hb, by rw [hpq]; rfl⟩
  · rw [List.getElem?_append_right (Nat.le_refl _), Nat.sub_self]
    rfl
  · rw [List.getElem?_append_right (by omega),
      show l₁.length + 1 + l₃.length - l₁.length = l₃.length + 1 by omega,
      List.getElem?_cons_succ,
      List.getElem?_append_right (Nat.le_refl _), Nat.sub_self]
    rfl

-- ===================================================== the same amounts

/-- The package's `reconstructAmount`; `decode` reads the two numbers of
a decrypted share, and throws where there are none. -/
def reconstructAmount (decode : Plain → Option Share)
    (decryptedShares : List Plain) : Option ℕ :=
  (decryptedShares.mapM decode).map fun shares =>
    (shamirReconstruct shares).toNat

/-- The session holds for every node one point of a 2-of-n sharing of the
intent's amount, encrypted to that node. -/
def Carries (crypto : Crypto Key Plain) (decode : Plain → Option Share)
    (nodes : List (CommitteeNodeKeyPair Key)) (s : SessionState Plain)
    (id : String) (amount : ℕ) : Prop :=
  amount < P ∧ ∃ draws shares,
    shamirSplit draws amount 2 nodes.length = .ok shares
      ∧ ∀ (i : ℕ) node, nodes[i]? = some node → ∃ e plain share,
          s.entry node.nodeId id = some e
            ∧ crypto.decryptShare
                (e.encryptedShare.forNode node.nodeId) node.secretKey
              = .ok (some plain)
            ∧ decode plain = some share ∧ shares[i]? = some share

/-- What an entry that `Carries` describes decrypts to. -/
def Opens (crypto : Crypto Key Plain) (s : SessionState Plain)
    (node : CommitteeNodeKeyPair Key) (id : String) (plain : Plain) :
    Prop :=
  ∃ e, s.entry node.nodeId id = some e
    ∧ crypto.decryptShare (e.encryptedShare.forNode node.nodeId)
        node.secretKey = .ok (some plain)

/-- Whichever two points are read, they give the amount. -/
theorem reconstruct_readable {crypto : Crypto Key Plain}
    {decode : Plain → Option Share}
    (hcrypto : crypto.reconstructAmount = reconstructAmount decode)
    {nodes : List (CommitteeNodeKeyPair Key)} {s : SessionState Plain}
    {l : List (Told Plain)} {id : String} {amount : ℕ}
    (hn : nodes.length < 2 ^ 32)
    (hcarries : Carries crypto decode nodes s id amount)
    (hshown : ∀ node ∈ nodes, ∀ plain,
      shown s l node.nodeId id = some plain → Opens crypto s node id plain)
    (hcount : 2 ≤ nodes.countP fun node =>
      (shown s l node.nodeId id).isSome) :
    2 ≤ (readable (nodes.map (·.nodeId)) s l id).length
      ∧ crypto.reconstructAmount (readable (nodes.map (·.nodeId)) s l id)
        = some amount := by
  obtain ⟨hamount, draws, shares, hsplit, hpoints⟩ := hcarries
  have hlen : 2 ≤ ((nodes.map (·.nodeId)).filterMap
      fun n => shown s l n id).length := by
    rw [List.filterMap_map, List.length_filterMap_eq_countP]
    exact hcount
  obtain ⟨i, j, n, n', p, q, hij, hi, hj, hp, hq, htake⟩ :=
    filterMap_take_two hlen
  -- each value read is decoded to the share of its own index
  have hpoint : ∀ (k : ℕ) (m : String) (plain : Plain),
      (nodes.map (·.nodeId))[k]? = some m → shown s l m id = some plain →
      ∃ share, decode plain = some share ∧ shares[k]? = some share := by
    intro k m plain hk hm
    rw [List.getElem?_map, Option.map_eq_some_iff] at hk
    obtain ⟨node, hk, rfl⟩ := hk
    obtain ⟨e, plain', share, he, hopen, hdecode, hshare⟩ :=
      hpoints k node hk
    obtain ⟨e', he', hopen'⟩ :=
      hshown node (List.mem_of_getElem? hk) plain hm
    rw [he] at he'
    injection he' with he'
    rw [← he', hopen] at hopen'
    injection hopen' with hopen'
    injection hopen' with hopen'
    exact ⟨share, hopen' ▸ hdecode, hshare⟩
  obtain ⟨a, ha, hai⟩ := hpoint i n p hi hp
  obtain ⟨b, hb, hbj⟩ := hpoint j n' q hj hq
  have hread : readable (nodes.map (·.nodeId)) s l id = [p, q] := htake
  have hP : nodes.length < P := hn.trans (by decide)
  have hsecret := shamirReconstruct_split hP (Int.natCast_nonneg amount)
    (by exact_mod_cast hamount) hsplit hai hbj hij
  refine ⟨by rw [hread]; exact le_refl 2, ?_⟩
  have hdecoded : [p, q].mapM decode = some [a, b] := by
    simp [ha, hb]
  rw [hread, hcrypto, reconstructAmount, hdecoded, Option.map_some,
    hsecret, Int.toNat_natCast]

-- ========================================================== the rounds

/-- The rows of the session's intents with their true amounts. -/
def trueRows (s : SessionState Plain) (amount : String → ℕ) :
    List Reconstructed :=
  s.intents.entries.map fun kv =>
    { intentId := kv.1
      amount7dp := amount kv.1
      inputAsset := kv.2.inputAsset
      outputAsset := kv.2.outputAsset }

section

variable {crypto : Crypto Key Plain} {decode : Plain → Option Share}
  {s : SessionState Plain} {nodeIds : List String}
  {l : List (Told Plain)} {amount : String → ℕ}

/-- A session's intents are under its keys. -/
theorem mem_keys_of_entries {kv : String × MpcIntent}
    (h : kv ∈ s.intents.entries) : kv.1 ∈ s.intents.keys :=
  List.mem_map_of_mem h

/-- Rows with the right amounts are the true rows. -/
theorem rows_eq
    (h : ∀ id ∈ s.intents.keys,
      crypto.reconstructAmount (readable nodeIds s l id)
        = some (amount id)) :
    s.intents.entries.map (rowOf crypto (readable nodeIds s l))
      = trueRows s amount := by
  refine List.map_congr_left fun kv hkv => ?_
  simp only [rowOf, h kv.1 (mem_keys_of_entries hkv), Option.getD_some]

variable {nodes : List (CommitteeNodeKeyPair Key)}

/-- An intent that carries an amount opens at every node. -/
theorem Carries.opens {node : CommitteeNodeKeyPair Key} {id : String}
    {a : ℕ} (h : Carries crypto decode nodes s id a)
    (hnode : node ∈ nodes) : ∃ plain, Opens crypto s node id plain := by
  obtain ⟨-, draws, shares, -, hpoints⟩ := h
  obtain ⟨i, hi⟩ := List.mem_iff_getElem?.mp hnode
  obtain ⟨e, plain, share, he, hopen, -, -⟩ := hpoints i node hi
  exact ⟨plain, e, he, hopen⟩

/-- The in-process round decrypts everything, and what it is told of an
entry is what the entry opens to. -/
theorem decrypted_told (hids : (nodes.map (·.nodeId)).Nodup)
    (hs : s.Untouched)
    (hcarries : ∀ id ∈ s.intents.keys,
      Carries crypto decode nodes s id (amount id)) :
    AllDecrypt crypto (tasks nodes s)
      ∧ ∀ node ∈ nodes, ∀ id plain, Opens crypto s node id plain →
          told (decrypted crypto nodes s) node.nodeId id
            = some (some plain) := by
  have hall : AllDecrypt crypto (tasks nodes s) := by
    intro t ht
    obtain ⟨node, hnode, id, e, he, rfl⟩ := mem_tasks.mp ht
    obtain ⟨plain, e', he', hopen⟩ :=
      (hcarries id (hs.rooted _ _ e he)).opens hnode
    rw [he] at he'
    injection he' with he'
    rw [Task.run, he', hopen]
    rfl
  refine ⟨hall, fun node hnode id plain hopens => ?_⟩
  obtain ⟨e, he, hopen⟩ := hopens
  exact told_decrypted hall hids hnode he hopen

/-- With all amounts right, the matches are the true ones. -/
theorem reconstructs_true
    (hread : ∀ id ∈ s.intents.keys, 2 ≤ (readable nodeIds s l id).length
      ∧ crypto.reconstructAmount (readable nodeIds s l id)
        = some (amount id)) :
    (∀ x ∈ s.intents.entries, Reconstructs crypto (readable nodeIds s l) x)
      ∧ s.intents.entries.map (rowOf crypto (readable nodeIds s l))
        = trueRows s amount := by
  refine ⟨fun x hx => ?_, rows_eq fun id hid => (hread id hid).2⟩
  obtain ⟨hlen, hamount⟩ := hread x.1 (mem_keys_of_entries hx)
  refine ⟨hlen, ?_⟩
  rw [hamount]
  exact Option.some_ne_none _

/-- All nodes together find the true matches. -/
theorem runMatchingRound_signs
    (hcrypto : crypto.reconstructAmount = reconstructAmount decode)
    (hids : (nodes.map (·.nodeId)).Nodup) (hn : 2 ≤ nodes.length)
    (hn' : nodes.length < 2 ^ 32) (hs : s.Untouched)
    (hsize : 2 ≤ s.intents.size)
    (hcarries : ∀ id ∈ s.intents.keys,
      Carries crypto decode nodes s id (amount id)) (batchId : String) :
    SignsMatches (runMatchingRound crypto nodes batchId s)
      (matchIntents (trueRows s amount)) := by
  obtain ⟨hall, htold⟩ := decrypted_told hids hs hcarries
  have hshown : ∀ id ∈ s.intents.keys, ∀ node ∈ nodes,
      ∃ plain, Opens crypto s node id plain
        ∧ shown s (decrypted crypto nodes s) node.nodeId id
          = some plain := by
    intro id hid node hnode
    obtain ⟨plain, e, he, hopen⟩ := (hcarries id hid).opens hnode
    exact ⟨plain, ⟨e, he, hopen⟩,
      shown_of_told he (htold node hnode id plain ⟨e, he, hopen⟩)⟩
  have hread : ∀ id ∈ s.intents.keys,
      2 ≤ (readable (nodes.map (·.nodeId)) s (decrypted crypto nodes s)
        id).length
      ∧ crypto.reconstructAmount (readable (nodes.map (·.nodeId)) s
          (decrypted crypto nodes s) id) = some (amount id) := by
    intro id hid
    refine reconstruct_readable hcrypto hn' (hcarries id hid) ?_ ?_
    · intro node hnode plain hplain
      obtain ⟨plain', hopen, hshown⟩ := hshown id hid node hnode
      rw [hshown] at hplain
      injection hplain with hplain
      exact hplain ▸ hopen
    · rw [List.countP_eq_length.mpr]
      · exact hn
      · intro node hnode
        obtain ⟨plain, -, hshown⟩ := hshown id hid node hnode
        rw [hshown]
        rfl
  obtain ⟨hrec, hrows⟩ := reconstructs_true hread
  rw [runMatchingRound_signs_iff hsize]
  exact ⟨hall, hrec, by rw [hrows]⟩

end

section

variable {crypto : Crypto Key Plain} {decode : Plain → Option Share}
  {s : SessionState Plain} {parties : List (Party Key)}
  {up : Party Key → Bool} {amount : String → ℕ}

/-- The nodes that answer hold the shares the session holds for them. -/
def Holds (s : SessionState Plain) (p : Party Key) : Prop :=
  ∀ id ∈ s.intents.keys,
    p.store.get id = (s.entry p.nodeId id).map fun e =>
      e.encryptedShare.forNode p.nodeId

instance (s : SessionState Plain) (p : Party Key) :
    Decidable (Holds s p) :=
  inferInstanceAs (Decidable (∀ id ∈ s.intents.keys, _ = _))

/-- What is told of an entry is what its own node says. -/
theorem replied_told (hids : (parties.map Party.nodeId).Nodup)
    {intentIds : List String} {p : Party Key} (hp : p ∈ parties)
    {id : String} (hid : id ∈ intentIds) (hproto : id ≠ "__proto__") :
    told (replied (decryptAnswers crypto parties up intentIds)) p.nodeId id
      = if up p then some (p.reported crypto id) else none := by
  by_cases hup : up p
  · rw [if_pos hup]
    refine told_eq_some ⟨⟨p.nodeId, id, p.reported crypto id⟩, ?_, rfl, rfl⟩ ?_
    · exact mem_replied.mpr ⟨p, hp, hup, rfl, hid, hproto, rfl⟩
    · intro t ht hn hid'
      obtain ⟨p', hp', -, hn', -, -, hsays⟩ := mem_replied.mp ht
      rw [← hsays, List.inj_on_of_nodup_map hids hp' hp (hn'.trans hn),
        hid']
  · rw [if_neg hup]
    refine told_eq_none fun t ht ⟨hn, _⟩ => ?_
    obtain ⟨p', hp', hup', hn', -⟩ := mem_replied.mp ht
    rw [List.inj_on_of_nodup_map hids hp' hp (hn'.trans hn)] at hup'
    exact hup hup'

/-- Nothing is told of that one id. -/
theorem replied_proto {intentIds : List String} (n : String) :
    told (replied (decryptAnswers crypto parties up intentIds)) n
      "__proto__" = none := by
  refine told_eq_none fun t ht ⟨_, hid⟩ => ?_
  obtain ⟨-, -, -, -, -, hproto, -⟩ := mem_replied.mp ht
  exact hproto hid

/-- A node reports what it opens. -/
theorem Holds.reported {p : Party Key} {id : String} {plain : Plain}
    (h : Holds s p) (hid : id ∈ s.intents.keys)
    (hopen : Opens crypto s p.node id plain) :
    p.reported crypto id = some plain := by
  obtain ⟨e, he, hdec⟩ := hopen
  rw [Party.reported, h id hid, show s.entry p.nodeId id = some e from he,
    Option.map_some, Option.bind_some]
  exact congrArg (fun r => match r with
    | Except.ok plain => plain
    | Except.error _ => none) hdec

/-- Whichever nodes answer, two of them are enough for the true matches,
unless an intent is called "__proto__". -/
theorem runMatchingRoundRemote_signs
    (hcrypto : crypto.reconstructAmount = reconstructAmount decode)
    (hids : (parties.map Party.nodeId).Nodup)
    (hn : parties.length < 2 ^ 32) (hs : s.Untouched)
    (hsize : 2 ≤ s.intents.size)
    (hcarries : ∀ id ∈ s.intents.keys,
      Carries crypto decode (parties.map Party.node) s id (amount id))
    (hholds : ∀ p ∈ parties, up p → Holds s p)
    (hup : max 2 (threshold parties.length) ≤ (parties.filter up).length)
    {signs : List (Answer NodeSignature)}
    (hsigns : Enough (parties.map Party.nodeId) signs)
    (hproto : "__proto__" ∉ s.intents.keys) (batchId : String) :
    SignsMatches
      (runMatchingRoundRemote crypto (parties.map Party.nodeId) batchId
        (decryptAnswers crypto parties up s.intents.keys) signs s)
      (matchIntents (trueRows s amount)) := by
  have hnodeIds : (parties.map Party.node).map (·.nodeId)
      = parties.map Party.nodeId := List.map_map
  have hshown : ∀ id ∈ s.intents.keys, ∀ p ∈ parties, up p →
      ∃ plain, Opens crypto s p.node id plain
        ∧ shown s (replied (decryptAnswers crypto parties up
            s.intents.keys)) p.nodeId id = some plain := by
    intro id hid p hp hupp
    obtain ⟨plain, e, he, hopen⟩ :=
      (hcarries id hid).opens (List.mem_map_of_mem hp)
    refine ⟨plain, ⟨e, he, hopen⟩, shown_of_told he ?_⟩
    rw [replied_told hids hp hid (fun h => hproto (h ▸ hid)), if_pos hupp,
      (hholds p hp hupp).reported hid ⟨e, he, hopen⟩]
  have hread : ∀ id ∈ s.intents.keys,
      2 ≤ (readable (parties.map Party.nodeId) s
        (replied (decryptAnswers crypto parties up s.intents.keys))
        id).length
      ∧ crypto.reconstructAmount (readable (parties.map Party.nodeId) s
          (replied (decryptAnswers crypto parties up s.intents.keys)) id)
        = some (amount id) := by
    intro id hid
    rw [← hnodeIds]
    refine reconstruct_readable hcrypto (by simpa using hn)
      (hcarries id hid) ?_ ?_
    · intro node hnode plain hplain
      obtain ⟨p, hp, rfl⟩ := List.mem_map.mp hnode
      by_cases hupp : up p
      · obtain ⟨plain', hopen, hshown⟩ := hshown id hid p hp hupp
        rw [show shown s _ p.node.nodeId id = _ from hshown] at hplain
        injection hplain with hplain
        exact hplain ▸ hopen
      · have huntold : told (replied (decryptAnswers crypto parties up
              s.intents.keys)) p.nodeId id
            = if up p then some (p.reported crypto id) else none :=
          replied_told hids hp hid fun h => hproto (h ▸ hid)
        have hnone := shown_of_untold hs (huntold.trans (if_neg hupp))
        rw [show shown s _ p.node.nodeId id = _ from hnone] at hplain
        cases hplain
    · rw [List.countP_map]
      refine le_trans (le_trans (le_max_left _ _) hup) ?_
      rw [← List.countP_eq_length_filter]
      refine List.countP_mono_left fun p hp hupp => ?_
      obtain ⟨plain, -, hshown⟩ := hshown id hid p hp hupp
      rw [Function.comp_apply,
        show shown s _ p.node.nodeId id = _ from hshown]
      rfl
  obtain ⟨hrec, hrows⟩ := reconstructs_true hread
  have henough : Enough (parties.map Party.nodeId)
      (decryptAnswers crypto parties up s.intents.keys) := by
    rw [Enough, responding_decryptAnswers, List.length_map]
    exact le_trans (le_max_right _ _) hup
  rw [runMatchingRoundRemote_signs_iff hsize]
  exact ⟨henough, hsigns, hrec, by rw [hrows]⟩

/-- No node's answer has a share for an intent called "__proto__". -/
theorem proto_blocks (hs : s.Untouched) (hsize : 2 ≤ s.intents.size)
    (hproto : "__proto__" ∈ s.intents.keys) {endpoints : List String}
    {batchId : String} {intentIds : List String}
    {signs : List (Answer NodeSignature)}
    (matchResults : List MatchResult) :
    ¬SignsMatches (runMatchingRoundRemote crypto endpoints batchId
      (decryptAnswers crypto parties up intentIds) signs s)
      matchResults := by
  rw [runMatchingRoundRemote_signs_iff hsize]
  rintro ⟨-, -, hrec, -⟩
  obtain ⟨kv, hkv, hid⟩ := List.mem_map.mp hproto
  have hlen := (hrec kv hkv).1
  have hnone : readable endpoints s
      (replied (decryptAnswers crypto parties up intentIds)) kv.1
        = [] := by
    rw [readable, hid, List.filterMap_eq_nil_iff.mpr, List.take_nil]
    exact fun n _ => shown_of_untold hs (replied_proto n)
  rw [hnone] at hlen
  exact absurd hlen (by simp)

end

/-- For every session of at least two intents, each of which the session
carries a 2-of-n sharing of, and every set of enough nodes that answer:
both rounds sign the matches of the true amounts exactly if no intent is
called "__proto__". -/
theorem quorum_iff {crypto : Crypto Key Plain}
    {decode : Plain → Option Share}
    (hcrypto : crypto.reconstructAmount = reconstructAmount decode)
    (parties : List (Party Key))
    (hids : (parties.map Party.nodeId).Nodup) (hn : 2 ≤ parties.length)
    (hn' : parties.length < 2 ^ 32) (sessionId : String) (started : ℤ)
    (intents : List MpcIntent) (s : SessionState Plain)
    (hs : s = .ofIntents sessionId started intents)
    (hsize : 2 ≤ s.intents.size) (amount : String → ℕ)
    (hcarries : ∀ id ∈ s.intents.keys,
      Carries crypto decode (parties.map Party.node) s id (amount id))
    (up : Party Key → Bool) (hholds : ∀ p ∈ parties, up p → Holds s p)
    (hup : max 2 (threshold parties.length) ≤ (parties.filter up).length)
    (signs : List (Answer NodeSignature))
    (hsigns : Enough (parties.map Party.nodeId) signs)
    (batchId batchId' : String) :
    (SignsMatches
        (runMatchingRoundRemote crypto (parties.map Party.nodeId) batchId
          (decryptAnswers crypto parties up s.intents.keys) signs s)
        (matchIntents (trueRows s amount))
      ∧ SignsMatches
          (runMatchingRound crypto (parties.map Party.node) batchId' s)
          (matchIntents (trueRows s amount)))
      ↔ "__proto__" ∉ s.intents.keys := by
  have huntouched : s.Untouched :=
    hs ▸ untouched_ofIntents sessionId started intents
  constructor
  · rintro ⟨hremote, -⟩ hproto
    exact proto_blocks huntouched hsize hproto _ hremote
  · intro hproto
    have hnodeIds : (parties.map Party.node).map (·.nodeId)
        = parties.map Party.nodeId := List.map_map
    exact ⟨runMatchingRoundRemote_signs hcrypto hids hn' huntouched hsize
        hcarries hholds hup hsigns hproto batchId,
      runMatchingRound_signs hcrypto (hnodeIds ▸ hids) (by simpa using hn)
        (by simpa using hn') huntouched hsize hcarries batchId'⟩

-- ============================================ three nodes and a constant

namespace Demo

/-- A pair is a point. -/
def decode (plain : ℕ × ℕ) : Option Share := some ⟨plain.1, plain.2⟩

/-- The committee of three with the package's reconstruction. -/
def shamir : Crypto ℕ (ℕ × ℕ) :=
  { Demo.crypto with reconstructAmount := Committee.reconstructAmount decode }

/-- Every node with the shares a session holds for it. -/
def parties (s : SessionState (ℕ × ℕ)) : List (Party ℕ) :=
  Demo.nodes.map fun node =>
    { node
      store := s.intents.keys.foldl
        (fun store id =>
          match s.entry node.nodeId id with
          | some e =>
              store.set id (e.encryptedShare.forNode node.nodeId)
          | none => store)
        OrderedMap.empty }

/-- Entries that all hold a ciphertext of one length carry the constant
polynomial of that length. -/
theorem carries {s : SessionState (ℕ × ℕ)} {id ciphertext : String}
    (hamount : ciphertext.length < P)
    (h : ∀ node ∈ Demo.nodes,
      (s.entry node.nodeId id).map NodeShareEntry.encryptedShare
        = some ⟨ciphertext, "", ""⟩) :
    Carries shamir decode Demo.nodes s id ciphertext.length := by
  have hmod : modp ciphertext.length = ciphertext.length := by
    rw [modp_eq]
    exact Int.emod_eq_of_lt (Int.natCast_nonneg _) (by exact_mod_cast hamount)
  refine ⟨hamount, fun _ => 0, [1, 2, 3].map fun x =>
    ⟨x, ciphertext.length⟩, ?_, ?_⟩
  · have hzero : modp 0 = 0 := by decide
    simp [shamirSplit, Demo.nodes, evalPoly, hmod, hzero,
      List.range_succ]
  · intro i node hi
    obtain ⟨e, he, hsealed⟩ :=
      Option.map_eq_some_iff.mp (h node (List.mem_of_getElem? hi))
    refine ⟨e, (node.secretKey, ciphertext.length),
      ⟨node.secretKey, ciphertext.length⟩, he, ?_, rfl, ?_⟩
    · rw [hsealed]
      rfl
    · have hlt : i < 3 := (List.getElem?_eq_some_iff.mp hi).1
      rcases (show i = 0 ∨ i = 1 ∨ i = 2 by omega) with rfl | rfl | rfl
      · cases hi
        rfl
      · cases hi
        rfl
      · cases hi
        rfl

/-- Two intents that cross. -/
def crossed : SessionState (ℕ × ℕ) :=
  .ofIntents "session-7" 7
    [Demo.intent "a" "X" "Y" "....", Demo.intent "b" "Y" "X" "......"]

/-- The second intent has the lost id. -/
def proto : SessionState (ℕ × ℕ) :=
  .ofIntents "session-7" 7
    [Demo.intent "a" "X" "Y" "....",
     Demo.intent "__proto__" "Y" "X" "......"]

/-- One of four, the other of six. -/
def amount (id : String) : ℕ := if id = "a" then 4 else 6

/-- Any session with these shares carries these amounts. -/
theorem carries_both {s : SessionState (ℕ × ℕ)} {id : String}
    (hne : id ≠ "a") (hkeys : s.intents.keys = ["a", id])
    (ha : ∀ node ∈ Demo.nodes,
      (s.entry node.nodeId "a").map NodeShareEntry.encryptedShare
        = some ⟨"....", "", ""⟩)
    (hb : ∀ node ∈ Demo.nodes,
      (s.entry node.nodeId id).map NodeShareEntry.encryptedShare
        = some ⟨"......", "", ""⟩) :
    ∀ id ∈ s.intents.keys,
      Carries shamir decode ((parties s).map Party.node) s id
        (amount id) := by
  have hnodes : (parties s).map Party.node = Demo.nodes := rfl
  rw [hkeys, hnodes, List.forall_mem_cons]
  refine ⟨carries (by decide) ha, fun id' hid' => ?_⟩
  rw [List.mem_singleton.mp hid', amount, if_neg hne]
  exact carries (by decide) hb

/-- What there is to check of the two sessions. -/
theorem checked :
    (∀ node ∈ Demo.nodes,
        (crossed.entry node.nodeId "a").map NodeShareEntry.encryptedShare
            = some ⟨"....", "", ""⟩
          ∧ (crossed.entry node.nodeId "b").map
              NodeShareEntry.encryptedShare = some ⟨"......", "", ""⟩
          ∧ (proto.entry node.nodeId "a").map
              NodeShareEntry.encryptedShare = some ⟨"....", "", ""⟩
          ∧ (proto.entry node.nodeId "__proto__").map
              NodeShareEntry.encryptedShare = some ⟨"......", "", ""⟩)
      ∧ crossed.intents.keys = ["a", "b"]
      ∧ proto.intents.keys = ["a", "__proto__"]
      ∧ (∀ p ∈ parties crossed, Holds crossed p)
      ∧ ∀ p ∈ parties proto, Holds proto p := by
  decide +kernel

/-- The session of two does, -/
theorem crossed_carries : ∀ id ∈ crossed.intents.keys,
    Carries shamir decode ((parties crossed).map Party.node) crossed id
      (amount id) :=
  carries_both (by decide) checked.2.1
    (fun node hnode => (checked.1 node hnode).1)
    fun node hnode => (checked.1 node hnode).2.1

/-- and so does the one whose second id is `__proto__`. -/
theorem proto_carries : ∀ id ∈ proto.intents.keys,
    Carries shamir decode ((parties proto).map Party.node) proto id
      (amount id) :=
  carries_both (by decide) checked.2.2.1
    (fun node hnode => (checked.1 node hnode).2.2.1)
    fun node hnode => (checked.1 node hnode).2.2.2

end Demo

/-- Two of three nodes answer, and others sign. -/
theorem quorum_crossed :
    (SignsMatches
        (runMatchingRoundRemote Demo.shamir
          ((Demo.parties Demo.crossed).map Party.nodeId) "batch"
          (decryptAnswers Demo.shamir (Demo.parties Demo.crossed)
            (fun p => p.nodeId ≠ "node-2") Demo.crossed.intents.keys)
          [.lost, .got ⟨"node-2", "", ""⟩, .got ⟨"node-3", "", ""⟩]
          Demo.crossed)
        (matchIntents (trueRows Demo.crossed Demo.amount))
      ∧ SignsMatches
          (runMatchingRound Demo.shamir
            ((Demo.parties Demo.crossed).map Party.node) "batch"
            Demo.crossed)
          (matchIntents (trueRows Demo.crossed Demo.amount)))
      ↔ "__proto__" ∉ Demo.crossed.intents.keys :=
  quorum_iff rfl (Demo.parties Demo.crossed)
    (by decide) (by decide) (by decide) "session-7" 7
    [Demo.intent "a" "X" "Y" "....", Demo.intent "b" "Y" "X" "......"]
    Demo.crossed rfl (by decide) Demo.amount Demo.crossed_carries _
    (fun p hp _ => Demo.checked.2.2.2.1 p hp) (by decide) _
    (by decide) "batch" "batch"

/-- With a well-formed intent of that id and all nodes answering, the
round over the network does not sign. -/
theorem proto_unmatched :
    2 ≤ Demo.proto.intents.size
      ∧ (∀ id ∈ Demo.proto.intents.keys,
          Carries Demo.shamir Demo.decode
            ((Demo.parties Demo.proto).map Party.node) Demo.proto id
            (Demo.amount id))
      ∧ (∀ p ∈ Demo.parties Demo.proto, Holds Demo.proto p)
      ∧ ∀ signs, ¬SignsMatches
          (runMatchingRoundRemote Demo.shamir
            ((Demo.parties Demo.proto).map Party.nodeId) "batch"
            (decryptAnswers Demo.shamir (Demo.parties Demo.proto)
              (fun _ => true) Demo.proto.intents.keys) signs Demo.proto)
          (matchIntents (trueRows Demo.proto Demo.amount)) := by
  refine ⟨by decide, Demo.proto_carries, Demo.checked.2.2.2.2,
    fun signs => proto_blocks (untouched_ofIntents ..) (by decide) ?_ _⟩
  show "__proto__" ∈ Demo.proto.intents.keys
  rw [Demo.checked.2.2.1]
  decide

end Lumix.Committee
