/-
What a matching round comes to.

Both rounds write plaintexts into entries of the session and then read
amounts off them, so a round's outcome is a function of two things: what
was told about each entry (`told`), and whether every intent's first two
shares give an amount. An intent can stop the round in two ways, by
having fewer than two shares (`Short`) or by making the reconstruction
throw (`Throws`); `reconstruct_cases` says these are all the ways.

`runMatchingRound_cases` and `runMatchingRoundRemote_cases` are the spec
lemmas of the two rounds, in those terms and without their loops.
-/
import Lumix.Committee.Round

namespace Lumix.Committee

open Exec

variable {Key Plain : Type}

-- ============================================== what entries are told

/-- A plaintext for the entry of one node and one intent. -/
structure Told (Plain : Type) where
  nodeId : String
  intentId : String
  plain : Option Plain

/-- What a list tells about one entry; the last word counts. -/
def told : List (Told Plain) → String → String → Option (Option Plain)
  | [], _, _ => none
  | t :: l, n, id =>
      (told l n id).or
        (if t.nodeId = n ∧ t.intentId = id then some t.plain else none)

/-- An entry after it was told something, or nothing. -/
def NodeShareEntry.write (e : NodeShareEntry Plain) :
    Option (Option Plain) → NodeShareEntry Plain
  | none => e
  | some plain => { e with decryptedShare := plain }

/-- One assignment to an entry's `decryptedShare`, where it exists. -/
def SessionState.tell (s : SessionState Plain) (t : Told Plain) :
    SessionState Plain :=
  { s with
    shares := s.shares.modify t.nodeId fun nodeShares =>
      nodeShares.modify t.intentId fun e =>
        { e with decryptedShare := t.plain } }

/-- Of two writes the second counts, if it writes. -/
theorem NodeShareEntry.write_write (e : NodeShareEntry Plain)
    (v v' : Option (Option Plain)) :
    (e.write v).write v' = e.write (v'.or v) := by
  cases v' <;> cases v <;> rfl

/-- A list tells of an entry what one of its members says. -/
theorem mem_of_told {l : List (Told Plain)} {n id : String}
    {v : Option Plain} (h : told l n id = some v) :
    ∃ t ∈ l, t.nodeId = n ∧ t.intentId = id ∧ t.plain = v := by
  induction l with
  | nil => cases h
  | cons t l ih =>
      rw [told, Option.or_eq_some_iff] at h
      rcases h with h | ⟨-, h⟩
      · obtain ⟨t', ht', hrest⟩ := ih h
        exact ⟨t', List.mem_cons_of_mem _ ht', hrest⟩
      · by_cases hmatch : t.nodeId = n ∧ t.intentId = id
        · rw [if_pos hmatch] at h
          injection h with h
          exact ⟨t, List.mem_cons_self .., hmatch.1, hmatch.2, h⟩
        · rw [if_neg hmatch] at h
          cases h

/-- Nothing is told of an entry that no member names. -/
theorem told_eq_none {l : List (Told Plain)} {n id : String}
    (h : ∀ t ∈ l, ¬(t.nodeId = n ∧ t.intentId = id)) :
    told l n id = none := by
  rw [Option.eq_none_iff_forall_ne_some]
  intro v hv
  obtain ⟨t, ht, hn, hid, -⟩ := mem_of_told hv
  exact h t ht ⟨hn, hid⟩

/-- Members that name an entry and agree are what is told of it. -/
theorem told_eq_some {l : List (Told Plain)} {n id : String}
    {v : Option Plain}
    (hmem : ∃ t ∈ l, t.nodeId = n ∧ t.intentId = id)
    (hsame : ∀ t ∈ l, t.nodeId = n → t.intentId = id → t.plain = v) :
    told l n id = some v := by
  cases htold : told l n id with
  | some v' =>
      obtain ⟨t, ht, hn, hid, rfl⟩ := mem_of_told htold
      rw [hsame t ht hn hid]
  | none =>
      obtain ⟨t, ht, hn, hid⟩ := hmem
      induction l with
      | nil => cases ht
      | cons t' l ih =>
          rw [told, Option.or_eq_none_iff] at htold
          rcases List.mem_cons.mp ht with rfl | ht
          · rw [if_pos ⟨hn, hid⟩] at htold
            cases htold.2
          · exact ih (fun t ht => hsame t (List.mem_cons_of_mem _ ht))
              htold.1 ht

/-- What is told is written to the one entry it is about. -/
theorem entry_tell (s : SessionState Plain) (t : Told Plain)
    (n id : String) :
    (s.tell t).entry n id
      = (s.entry n id).map fun e =>
          e.write (if t.nodeId = n ∧ t.intentId = id then some t.plain
            else none) := by
  unfold SessionState.entry SessionState.tell
  rw [OrderedMap.get_modify]
  by_cases hn : t.nodeId = n
  · rw [if_pos hn]
    cases hm : s.shares.get n with
    | none => rfl
    | some m =>
        simp only [Option.map_some, Option.bind_some]
        rw [OrderedMap.get_modify]
        by_cases hid : t.intentId = id
        · rw [if_pos hid, if_pos ⟨hn, hid⟩]
          rfl
        · rw [if_neg hid, if_neg (fun h => hid h.2)]
          exact Option.map_id'.symm
  · rw [if_neg hn]
    simp only [if_neg (fun h : _ ∧ _ => hn h.1)]
    exact Option.map_id'.symm

/-- Entries after a list of assignments. -/
theorem entry_tells (l : List (Told Plain)) (s : SessionState Plain)
    (n id : String) :
    (l.foldl SessionState.tell s).entry n id
      = (s.entry n id).map fun e => e.write (told l n id) := by
  induction l generalizing s with
  | nil => exact Option.map_id'.symm
  | cons t l ih =>
      rw [List.foldl_cons, ih, entry_tell, Option.map_map]
      refine congrArg (fun f => (s.entry n id).map f) (funext fun e => ?_)
      rw [Function.comp_apply, NodeShareEntry.write_write, told]

/-- Assignments touch nothing but the shares. -/
theorem tells_frame (l : List (Told Plain)) (s : SessionState Plain) :
    ∃ shares, l.foldl SessionState.tell s = { s with shares } := by
  induction l generalizing s with
  | nil => exact ⟨s.shares, rfl⟩
  | cons t l ih =>
      obtain ⟨shares, h⟩ := ih (s.tell t)
      exact ⟨shares, h⟩

-- ===================================================== reconstruction

section Reconstruction

variable (crypto : Crypto Key Plain) (sharesOf : String → List Plain)

/-- An intent whose shares give an amount. -/
def Reconstructs (kv : String × MpcIntent) : Prop :=
  2 ≤ (sharesOf kv.1).length
    ∧ crypto.reconstructAmount (sharesOf kv.1) ≠ none

/-- Some intent has fewer than two shares, and the reconstruction gets
to it. -/
def Short (l : List (String × MpcIntent)) : Prop :=
  ∃ pre kv post, l = pre ++ kv :: post
    ∧ (∀ x ∈ pre, Reconstructs crypto sharesOf x)
    ∧ (sharesOf kv.1).length < 2

/-- Some intent's shares are no shares, and the reconstruction gets to
it. -/
def Throws (l : List (String × MpcIntent)) : Prop :=
  ∃ pre kv post, l = pre ++ kv :: post
    ∧ (∀ x ∈ pre, Reconstructs crypto sharesOf x)
    ∧ 2 ≤ (sharesOf kv.1).length
    ∧ crypto.reconstructAmount (sharesOf kv.1) = none

/-- The row of an intent; its amount is the one its shares give. -/
def rowOf (kv : String × MpcIntent) : Reconstructed where
  intentId := kv.1
  amount7dp := (crypto.reconstructAmount (sharesOf kv.1)).getD 0
  inputAsset := kv.2.inputAsset
  outputAsset := kv.2.outputAsset

end Reconstruction

section

variable {crypto : Crypto Key Plain} {nodeIds : List String}
  {s : SessionState Plain}

/-- If every intent reconstructs, the loop collects the rows. -/
theorem reconstruct_all {l : List (String × MpcIntent)}
    (h : ∀ x ∈ l, Reconstructs crypto (availableShares nodeIds s) x)
    (rows : List Reconstructed) :
    l.foldlM (reconstructIntent crypto nodeIds s) rows
      = .ok (rows ++ l.map (rowOf crypto (availableShares nodeIds s))) := by
  induction l generalizing rows with
  | nil => rw [List.foldlM_nil, List.map_nil, List.append_nil]; rfl
  | cons kv l ih =>
      obtain ⟨hlen, hamount⟩ := h kv (List.mem_cons_self ..)
      obtain ⟨amount, ha⟩ := Option.ne_none_iff_exists'.mp hamount
      have hstep : reconstructIntent crypto nodeIds s rows kv
          = .ok (rows ++ [rowOf crypto (availableShares nodeIds s) kv]) := by
        simp only [reconstructIntent, rowOf, if_neg (not_lt.mpr hlen), ha,
          Option.getD_some]
      rw [List.foldlM_cons, hstep]
      show l.foldlM (reconstructIntent crypto nodeIds s) _ = _
      rw [ih (fun x hx => h x (List.mem_cons_of_mem _ hx)), List.map_cons,
        List.append_assoc]
      rfl

/-- The loop stops at the first intent that stops it. -/
theorem reconstruct_stop {pre post : List (String × MpcIntent)}
    {kv : String × MpcIntent} {stop : Stop}
    (hpre : ∀ x ∈ pre, Reconstructs crypto (availableShares nodeIds s) x)
    (hstop : ∀ rows,
      reconstructIntent crypto nodeIds s rows kv = .error stop) :
    (pre ++ kv :: post).foldlM (reconstructIntent crypto nodeIds s) []
      = .error stop := by
  rw [List.foldlM_append, reconstruct_all hpre]
  show (kv :: post).foldlM (reconstructIntent crypto nodeIds s) _ = _
  rw [List.foldlM_cons, hstop]
  rfl

/-- If the first that does not has too few shares, the loop fails. -/
theorem reconstruct_short {l : List (String × MpcIntent)}
    (h : Short crypto (availableShares nodeIds s) l) :
    ∃ id, l.foldlM (reconstructIntent crypto nodeIds s) []
      = .error (.notEnoughShares id) := by
  obtain ⟨pre, kv, post, rfl, hpre, hlen⟩ := h
  refine ⟨kv.1, reconstruct_stop hpre fun rows => ?_⟩
  simp only [reconstructIntent, if_pos hlen]

/-- If reconstructing it throws, the loop throws. -/
theorem reconstruct_throws {l : List (String × MpcIntent)}
    (h : Throws crypto (availableShares nodeIds s) l) :
    l.foldlM (reconstructIntent crypto nodeIds s) [] = .error .threw := by
  obtain ⟨pre, kv, post, rfl, hpre, hlen, hnone⟩ := h
  refine reconstruct_stop hpre fun rows => ?_
  simp only [reconstructIntent, if_neg (not_lt.mpr hlen), hnone]

end

/-- The three ways a reconstruction can go. -/
theorem reconstruct_cases (crypto : Crypto Key Plain)
    (sharesOf : String → List Plain) (l : List (String × MpcIntent)) :
    (∀ x ∈ l, Reconstructs crypto sharesOf x) ∨ Short crypto sharesOf l
      ∨ Throws crypto sharesOf l := by
  by_cases hall : ∀ x ∈ l, Reconstructs crypto sharesOf x
  · exact Or.inl hall
  right
  obtain ⟨pre, kv, post, hl, hpre, hkv⟩ := exists_first_not hall
  by_cases hlen : (sharesOf kv.1).length < 2
  · exact Or.inl ⟨pre, kv, post, hl, hpre, hlen⟩
  · have hnone : crypto.reconstructAmount (sharesOf kv.1) = none := by
      by_contra hsome
      exact hkv ⟨not_lt.mp hlen, hsome⟩
    exact Or.inr ⟨pre, kv, post, hl, hpre, not_lt.mp hlen, hnone⟩

-- ======================================================= what is shown

/-- What an entry shows of its share. -/
def SessionState.plaintext (s : SessionState Plain) (n id : String) :
    Option Plain :=
  (s.entry n id).bind NodeShareEntry.decryptedShare

/-- What it shows once the session was told `l`. -/
def shown (s : SessionState Plain) (l : List (Told Plain))
    (n id : String) : Option Plain :=
  (s.entry n id).bind fun e => (e.write (told l n id)).decryptedShare

/-- The two shares a round reads for an intent. -/
def readable (nodeIds : List String) (s : SessionState Plain)
    (l : List (Told Plain)) (id : String) : List Plain :=
  (nodeIds.filterMap fun n => shown s l n id).take 2

/-- What is decrypted after some tells. -/
theorem plaintext_tells (l : List (Told Plain)) (s : SessionState Plain)
    (n id : String) :
    (l.foldl SessionState.tell s).plaintext n id = shown s l n id := by
  rw [SessionState.plaintext, entry_tells, shown]
  cases s.entry n id <;> rfl

/-- And so what can be read. -/
theorem availableShares_tells (nodeIds : List String)
    (l : List (Told Plain)) (s : SessionState Plain) :
    availableShares nodeIds (l.foldl SessionState.tell s)
      = readable nodeIds s l := by
  funext id
  rw [availableShares, readable]
  exact congrArg (fun f => (nodeIds.filterMap f).take 2)
    (funext fun n => plaintext_tells l s n id)

/-- Telling leaves the intents as they are. -/
theorem intents_tells (l : List (Told Plain)) (s : SessionState Plain) :
    (l.foldl SessionState.tell s).intents = s.intents := by
  obtain ⟨shares, h⟩ := tells_frame l s
  rw [h]

/-- Clearing is by the configured node ids. -/
theorem plaintext_clearShares (nodeIds : List String)
    (s : SessionState Plain) (n id : String) :
    (clearShares nodeIds s).plaintext n id
      = if n ∈ nodeIds then none else s.plaintext n id := by
  induction nodeIds generalizing s with
  | nil => exact (if_neg List.not_mem_nil).symm
  | cons n' nodeIds ih =>
      refine (ih { s with
        shares := s.shares.modify n' fun nodeShares =>
          nodeShares.mapValues fun _ e =>
            { e with decryptedShare := none } }).trans ?_
      by_cases hmem : n ∈ nodeIds
      · rw [if_pos hmem, if_pos (List.mem_cons_of_mem _ hmem)]
      · rw [if_neg hmem]
        simp only [SessionState.plaintext, SessionState.entry,
          OrderedMap.get_modify]
        by_cases hn : n' = n
        · rw [if_pos hn, if_pos (hn ▸ List.mem_cons_self ..)]
          cases s.shares.get n with
          | none => rfl
          | some m =>
              simp only [Option.map_some, Option.bind_some,
                OrderedMap.get_mapValues]
              cases m.get id <;> rfl
        · rw [if_neg hn, if_neg (by simp [Ne.symm hn, hmem])]

-- ============================================ from shares to the matches

section

variable {crypto : Crypto Key Plain} {nodeIds : List String}
  {s : SessionState Plain} (uses : List Use)
  (next : SessionState Plain → List MatchResult →
    SessionState Plain × Phase Plain)

/-- If every intent reconstructs, the shares are cleared and the matches
go on. -/
theorem matchSession_all
    (h : ∀ x ∈ s.intents.entries,
      Reconstructs crypto (availableShares nodeIds s) x) :
    ∃ uses', matchSession crypto nodeIds s uses next
      = ⟨(next (clearShares nodeIds s) (matchIntents (s.intents.entries.map
            (rowOf crypto (availableShares nodeIds s))))).1, uses',
          (next (clearShares nodeIds s) (matchIntents (s.intents.entries.map
            (rowOf crypto (availableShares nodeIds s))))).2⟩ := by
  rw [matchSession, reconstruct_all h, List.nil_append]
  exact ⟨_, rfl⟩

/-- If one has too few shares, the session fails with them uncleared. -/
theorem matchSession_short
    (h : Short crypto (availableShares nodeIds s) s.intents.entries) :
    ∃ reason, matchSession crypto nodeIds s uses next
      = ⟨{ s with status := .failed }, uses,
          .returned (.failed reason)⟩ := by
  obtain ⟨id, hid⟩ := reconstruct_short h
  rw [matchSession, hid]
  exact ⟨_, rfl⟩

/-- If one throws, so does the round, with the session as it was. -/
theorem matchSession_throws
    (h : Throws crypto (availableShares nodeIds s) s.intents.entries) :
    matchSession crypto nodeIds s uses next
      = ⟨s, uses, .returned .threw⟩ := by
  rw [matchSession, reconstruct_throws h]

end

-- ==================================================== how a round ends

/-- The round returned a failure. -/
def Progress.Failed (p : Progress Plain)
    (plaintext : String → String → Option Plain) : Prop :=
  ∃ reason, p.phase = .returned (.failed reason)
    ∧ p.session.status = .failed ∧ p.session.plaintext = plaintext

/-- The round returned a signed batch of these matches. -/
def Progress.Signed (p : Progress Plain) (matchResults : List MatchResult)
    (plaintext : String → String → Option Plain) : Prop :=
  ∃ batch, p.phase = .returned (.ok batch)
    ∧ p.session.status = .signed ∧ p.session.signedBatch = some batch
    ∧ batch.matchResults = matchResults
    ∧ p.session.plaintext = plaintext

/-- What is left once the shares of these nodes are cleared. -/
def cleared (nodeIds : List String)
    (plaintext : String → String → Option Plain) (n id : String) :
    Option Plain :=
  if n ∈ nodeIds then none else plaintext n id

section

variable {crypto : Crypto Key Plain} {nodeIds : List String}
  {s : SessionState Plain} {l : List (Told Plain)} (uses : List Use)
  (next : SessionState Plain → List MatchResult →
    SessionState Plain × Phase Plain)

/-- The second case, from what the nodes told, -/
theorem matchSession_failed
    (h : Short crypto (readable nodeIds s l) s.intents.entries) :
    (matchSession crypto nodeIds
      (l.foldl SessionState.tell { s with status := .matching }) uses
      next).Failed (shown s l) := by
  have hshort : Short crypto
      (availableShares nodeIds
        (l.foldl SessionState.tell { s with status := .matching }))
      (l.foldl SessionState.tell
        { s with status := .matching }).intents.entries := by
    rw [availableShares_tells, intents_tells]
    exact h
  obtain ⟨reason, heq⟩ := matchSession_short uses next hshort
  rw [heq]
  exact ⟨reason, rfl, rfl, funext fun n => funext fun id =>
    plaintext_tells l { s with status := .matching } n id⟩

/-- the third -/
theorem matchSession_threw
    (h : Throws crypto (readable nodeIds s l) s.intents.entries) :
    (matchSession crypto nodeIds
      (l.foldl SessionState.tell { s with status := .matching }) uses
      next).phase = .returned .threw := by
  have hthrows : Throws crypto
      (availableShares nodeIds
        (l.foldl SessionState.tell { s with status := .matching }))
      (l.foldl SessionState.tell
        { s with status := .matching }).intents.entries := by
    rw [availableShares_tells, intents_tells]
    exact h
  rw [matchSession_throws uses next hthrows]

/-- and the first. -/
theorem matchSession_matched
    (h : ∀ x ∈ s.intents.entries,
      Reconstructs crypto (readable nodeIds s l) x) :
    ∃ s' uses', s'.status = .matching
      ∧ s'.plaintext = cleared nodeIds (shown s l)
      ∧ matchSession crypto nodeIds
          (l.foldl SessionState.tell { s with status := .matching }) uses
          next
        = ⟨(next s' (matchIntents (s.intents.entries.map
              (rowOf crypto (readable nodeIds s l))))).1, uses',
            (next s' (matchIntents (s.intents.entries.map
              (rowOf crypto (readable nodeIds s l))))).2⟩ := by
  have hint := intents_tells l { s with status := .matching }
  have havail := availableShares_tells nodeIds l
    { s with status := .matching }
  have hall : ∀ x ∈ (l.foldl SessionState.tell
        { s with status := .matching }).intents.entries,
      Reconstructs crypto (availableShares nodeIds
        (l.foldl SessionState.tell { s with status := .matching })) x := by
    rw [hint, havail]
    exact h
  obtain ⟨uses', heq⟩ := matchSession_all uses next hall
  rw [hint, havail] at heq
  refine ⟨_, uses', ?_, ?_, heq⟩
  · obtain ⟨shares, hframe⟩ := tells_frame l { s with status := .matching }
    rw [hframe]
    rfl
  · funext n id
    rw [plaintext_clearShares, plaintext_tells]
    rfl

end

-- ============================================== the in-process round

/-- A call of `decryptShare`. -/
structure Task (Key : Type) where
  node : CommitteeNodeKeyPair Key
  intentId : String
  share : EncryptedShare

/-- The calls for one node's entries. -/
def nodeTasks (s : SessionState Plain) (node : CommitteeNodeKeyPair Key) :
    List (Task Key) :=
  match s.shares.get node.nodeId with
  | none => []
  | some nodeShares =>
      nodeShares.entries.map fun kv =>
        ⟨node, kv.1, kv.2.encryptedShare.forNode node.nodeId⟩

/-- The calls of a whole round, in order. -/
def tasks (nodes : List (CommitteeNodeKeyPair Key))
    (s : SessionState Plain) : List (Task Key) :=
  nodes.flatMap (nodeTasks s)

/-- There is a share to decrypt for every entry of every node. -/
theorem mem_tasks {nodes : List (CommitteeNodeKeyPair Key)}
    {s : SessionState Plain} {t : Task Key} :
    t ∈ tasks nodes s ↔ ∃ node ∈ nodes, ∃ id e,
      s.entry node.nodeId id = some e
        ∧ t = ⟨node, id, e.encryptedShare.forNode node.nodeId⟩ := by
  rw [tasks, List.mem_flatMap]
  refine exists_congr fun node => and_congr_right fun _ => ?_
  unfold nodeTasks SessionState.entry
  cases s.shares.get node.nodeId with
  | none => simp
  | some m =>
      simp only [List.mem_map, Prod.exists, OrderedMap.mem_entries,
        Option.bind_some, eq_comm (a := t)]

/-- A node decrypts its share. -/
def Task.run (crypto : Crypto Key Plain) (t : Task Key) :
    Except String (Option Plain) :=
  crypto.decryptShare t.share t.node.secretKey

/-- No decryption throws. -/
def AllDecrypt (crypto : Crypto Key Plain) (l : List (Task Key)) : Prop :=
  ∀ t ∈ l, (t.run crypto).isOk

instance (crypto : Crypto Key Plain) (l : List (Task Key)) :
    Decidable (AllDecrypt crypto l) :=
  inferInstanceAs (Decidable (∀ t ∈ l, (t.run crypto).isOk = true))

/-- What is written before the first call that throws. -/
def heard (crypto : Crypto Key Plain) : List (Task Key) → List (Told Plain)
  | [] => []
  | t :: l =>
      match t.run crypto with
      | .error _ => []
      | .ok plain => ⟨t.node.nodeId, t.intentId, plain⟩ :: heard crypto l

/-- A stretch of the decrypt loop that made the calls `l`. -/
def Decrypts (crypto : Crypto Key Plain) (s : SessionState Plain)
    (l : List (Task Key)) :
    Except ((SessionState Plain × List Use) × String)
      (SessionState Plain × List Use) → Prop
  | .ok w => AllDecrypt crypto l
      ∧ w.1 = (heard crypto l).foldl SessionState.tell s
  | .error e => ¬AllDecrypt crypto l
      ∧ e.1.1 = (heard crypto l).foldl SessionState.tell s

/-- What is heard of two lists, if the first goes through, -/
theorem heard_append {crypto : Crypto Key Plain} {l : List (Task Key)}
    (h : AllDecrypt crypto l) (l' : List (Task Key)) :
    heard crypto (l ++ l') = heard crypto l ++ heard crypto l' := by
  induction l with
  | nil => rfl
  | cons t l ih =>
      obtain ⟨ht, hl⟩ := List.forall_mem_cons.mp h
      obtain ⟨plain, hplain⟩ := exists_ok_of_isOk ht
      simp only [List.cons_append, heard, hplain, ih hl]

/-- and if it does not. -/
theorem heard_append_of_not {crypto : Crypto Key Plain}
    {l : List (Task Key)} (h : ¬AllDecrypt crypto l)
    (l' : List (Task Key)) :
    heard crypto (l ++ l') = heard crypto l := by
  induction l with
  | nil => exact absurd (fun t ht => by cases ht) h
  | cons t l ih =>
      simp only [List.cons_append, heard]
      cases hrun : t.run crypto with
      | error err => rfl
      | ok plain =>
          have hl : ¬AllDecrypt crypto l := by
            intro hl
            refine h (List.forall_mem_cons.mpr ⟨?_, hl⟩)
            rw [hrun]
            rfl
          simp only [ih hl]

/-- Where every call returns, each is heard. -/
theorem mem_heard {crypto : Crypto Key Plain} {l : List (Task Key)}
    (h : AllDecrypt crypto l) {t : Told Plain} :
    t ∈ heard crypto l ↔ ∃ task ∈ l, task.node.nodeId = t.nodeId
      ∧ task.intentId = t.intentId ∧ task.run crypto = .ok t.plain := by
  induction l with
  | nil => simp [heard]
  | cons task l ih =>
      obtain ⟨htask, hl⟩ := List.forall_mem_cons.mp h
      obtain ⟨plain, hplain⟩ := exists_ok_of_isOk htask
      simp only [heard, hplain, List.mem_cons, ih hl,
        exists_eq_or_imp, Except.ok.injEq]
      refine or_congr_left ⟨?_, ?_⟩
      · rintro rfl
        exact ⟨rfl, rfl, rfl⟩
      · rintro ⟨hn, hid, hp⟩
        rw [hn, hid, hp]

/-- Stretches of the loop in a row. -/
theorem Decrypts.bind {crypto : Crypto Key Plain} {s : SessionState Plain}
    {l l' : List (Task Key)}
    {r : Except ((SessionState Plain × List Use) × String)
      (SessionState Plain × List Use)}
    {k : SessionState Plain × List Use →
      Except ((SessionState Plain × List Use) × String)
        (SessionState Plain × List Use)}
    (h : Decrypts crypto s l r)
    (hk : ∀ w, r = .ok w → Decrypts crypto w.1 l' (k w)) :
    Decrypts crypto s (l ++ l') (r >>= k) := by
  cases r with
  | error e =>
      refine ⟨fun hall => h.1 fun t ht => ?_, ?_⟩
      · exact hall t (List.mem_append_left _ ht)
      · rw [heard_append_of_not h.1]
        exact h.2
  | ok w =>
      have hw := hk w rfl
      show Decrypts crypto s (l ++ l') (k w)
      rw [h.2] at hw
      cases hkw : k w with
      | error e =>
          rw [hkw] at hw
          refine ⟨fun hall => hw.1 fun t ht => ?_, ?_⟩
          · exact hall t (List.mem_append_right _ ht)
          · rw [heard_append h.1, List.foldl_append]
            exact hw.2
      | ok w' =>
          rw [hkw] at hw
          refine ⟨List.forall_mem_append.mpr ⟨h.1, hw.1⟩, ?_⟩
          rw [heard_append h.1, List.foldl_append]
          exact hw.2

/-- Assignments do not change what is to be decrypted. -/
theorem nodeTasks_tells (l : List (Told Plain)) (s : SessionState Plain)
    (node : CommitteeNodeKeyPair Key) :
    nodeTasks (l.foldl SessionState.tell s) node = nodeTasks s node := by
  induction l generalizing s with
  | nil => rfl
  | cons t l ih =>
      rw [List.foldl_cons, ih]
      unfold nodeTasks SessionState.tell
      rw [OrderedMap.get_modify]
      by_cases hn : t.nodeId = node.nodeId
      · rw [if_pos hn]
        cases s.shares.get node.nodeId with
        | none => rfl
        | some m =>
            simp only [Option.map_some, OrderedMap.modify,
              OrderedMap.mapValues, List.map_map]
            refine List.map_congr_left fun kv _ => ?_
            by_cases hid : t.intentId = kv.1
            · simp only [Function.comp_apply, if_pos hid]
            · simp only [Function.comp_apply, if_neg hid]
      · rw [if_neg hn]

/-- One entry is one task, -/
theorem decrypts_entry (crypto : Crypto Key Plain)
    (node : CommitteeNodeKeyPair Key) (w : SessionState Plain × List Use)
    (kv : String × NodeShareEntry Plain) :
    Decrypts crypto w.1
      [⟨node, kv.1, kv.2.encryptedShare.forNode node.nodeId⟩]
      (decryptEntry crypto node w kv) := by
  simp only [decryptEntry]
  cases hd : crypto.decryptShare
      (kv.2.encryptedShare.forNode node.nodeId) node.secretKey with
  | error err =>
      refine ⟨fun hall => ?_, by simp only [heard, Task.run, hd]; rfl⟩
      have hok := hall _ (List.mem_singleton_self _)
      rw [Task.run, hd] at hok
      cases hok
  | ok plain =>
      refine ⟨fun t ht => ?_, by simp only [heard, Task.run, hd]; rfl⟩
      rw [List.mem_singleton.mp ht, Task.run, hd]
      rfl

/-- no entry none, -/
theorem decrypts_nil (crypto : Crypto Key Plain)
    (w : SessionState Plain × List Use) :
    Decrypts crypto w.1 [] (.ok w) :=
  ⟨fun t ht => (by cases ht), rfl⟩

/-- a node's entries its own -/
theorem decrypts_node (crypto : Crypto Key Plain)
    (node : CommitteeNodeKeyPair Key)
    (w : SessionState Plain × List Use) :
    Decrypts crypto w.1 (nodeTasks w.1 node)
      (decryptNode crypto w node) := by
  unfold decryptNode nodeTasks
  cases w.1.shares.get node.nodeId with
  | none => exact decrypts_nil crypto w
  | some m =>
      simp only
      induction m.entries generalizing w with
      | nil => exact decrypts_nil crypto w
      | cons kv l ih =>
          rw [List.foldlM_cons]
          exact (decrypts_entry crypto node w kv).bind fun w' _ => ih w'

/-- and all nodes' entries all. -/
theorem decrypts_nodes (crypto : Crypto Key Plain)
    (nodes : List (CommitteeNodeKeyPair Key))
    (w : SessionState Plain × List Use) :
    Decrypts crypto w.1 (tasks nodes w.1)
      (nodes.foldlM (decryptNode crypto) w) := by
  induction nodes generalizing w with
  | nil => exact decrypts_nil crypto w
  | cons node nodes ih =>
      rw [List.foldlM_cons]
      refine (decrypts_node crypto node w).bind fun w' hw' => ?_
      have hnode := decrypts_node crypto node w
      rw [hw'] at hnode
      have hsame : tasks nodes w'.1 = tasks nodes w.1 := by
        rw [hnode.2]
        exact congrArg (fun f => nodes.flatMap f)
          (funext fun n => nodeTasks_tells _ _ n)
      have hrest := ih w'
      rw [hsame] at hrest
      exact hrest

/-- What the in-process round decrypts of a session. -/
def decrypted (crypto : Crypto Key Plain)
    (nodes : List (CommitteeNodeKeyPair Key)) (s : SessionState Plain) :
    List (Told Plain) :=
  heard crypto (tasks nodes s)

/-- What the round is told of an entry is what the entry decrypts to. -/
theorem told_decrypted {crypto : Crypto Key Plain}
    {nodes : List (CommitteeNodeKeyPair Key)} {s : SessionState Plain}
    (hall : AllDecrypt crypto (tasks nodes s))
    (hids : (nodes.map (·.nodeId)).Nodup)
    {node : CommitteeNodeKeyPair Key} (hnode : node ∈ nodes) {id : String}
    {e : NodeShareEntry Plain} (he : s.entry node.nodeId id = some e)
    {v : Option Plain}
    (hopen : crypto.decryptShare (e.encryptedShare.forNode node.nodeId)
      node.secretKey = .ok v) :
    told (decrypted crypto nodes s) node.nodeId id = some v := by
  refine told_eq_some ⟨⟨node.nodeId, id, v⟩, ?_, rfl, rfl⟩ ?_
  · exact (mem_heard hall).mpr
      ⟨_, mem_tasks.mpr ⟨node, hnode, id, e, he, rfl⟩, rfl, rfl, hopen⟩
  · intro t ht hn hid
    obtain ⟨task, htask, hn', hid', hrun⟩ := (mem_heard hall).mp ht
    obtain ⟨node', hnode', id', e', he', rfl⟩ := mem_tasks.mp htask
    obtain rfl :=
      List.inj_on_of_nodup_map hids hnode' hnode (hn'.trans hn)
    rw [show id' = id from hid'.trans hid, he] at he'
    injection he' with he'
    rw [Task.run, ← he', hopen] at hrun
    injection hrun with hrun
    exact hrun.symm

section

variable {crypto : Crypto Key Plain}
  {nodes : List (CommitteeNodeKeyPair Key)} (batchId : String)
  {s : SessionState Plain}

/-- A session needs two intents. -/
theorem runMatchingRound_few (h : s.intents.size < 2) :
    runMatchingRound crypto nodes batchId s = .error tooFewIntents := by
  rw [runMatchingRound, if_pos h]

/-- A share that does not decrypt ends the round where it is. -/
theorem runMatchingRound_undecrypted (hsize : ¬s.intents.size < 2)
    (h : ¬AllDecrypt crypto (tasks nodes s)) :
    ∃ p, runMatchingRound crypto nodes batchId s = .ok p
      ∧ p.Failed (shown s (decrypted crypto nodes s)) := by
  have hloop := decrypts_nodes crypto nodes
    ({ s with status := .matching }, [])
  rw [runMatchingRound, if_neg hsize]
  cases hrun : nodes.foldlM (decryptNode crypto)
      ({ s with status := .matching }, []) with
  | ok w =>
      rw [hrun] at hloop
      exact absurd hloop.1 h
  | error e =>
      rw [hrun] at hloop
      refine ⟨_, rfl, _, rfl, rfl, funext fun n => funext fun id => ?_⟩
      show e.1.1.plaintext n id = _
      rw [hloop.2, plaintext_tells]
      rfl

/-- What the round does with the matches, on the session they are of. -/
def signAll (crypto : Crypto Key Plain)
    (nodes : List (CommitteeNodeKeyPair Key)) (batchId : String)
    (s : SessionState Plain) (matchResults : List MatchResult) :
    SessionState Plain × Phase Plain :=
  let batch : SignedMatchBatch :=
    { batchId
      sessionId := s.sessionId
      matchResults
      batchHash := crypto.computeBatchHash batchId matchResults
      signatures := nodes.map (crypto.signBatch batchId matchResults) }
  ({ s with signedBatch := some batch, status := .signed },
    .returned (.ok batch))

/-- With every share decrypted the round goes on to the matcher. -/
theorem runMatchingRound_decrypted (hsize : ¬s.intents.size < 2)
    (h : AllDecrypt crypto (tasks nodes s)) :
    ∃ uses, runMatchingRound crypto nodes batchId s
      = .ok (matchSession crypto (nodes.map (·.nodeId))
          ((decrypted crypto nodes s).foldl SessionState.tell
            { s with status := .matching }) uses
          (signAll crypto nodes batchId)) := by
  have hloop := decrypts_nodes crypto nodes
    ({ s with status := .matching }, [])
  rw [runMatchingRound, if_neg hsize]
  cases hrun : nodes.foldlM (decryptNode crypto)
      ({ s with status := .matching }, []) with
  | error e =>
      rw [hrun] at hloop
      exact absurd h hloop.1
  | ok w =>
      rw [hrun] at hloop
      obtain ⟨s', uses⟩ := w
      obtain rfl : s' = _ := hloop.2
      exact ⟨uses, rfl⟩

/-- All intents give an amount: they are matched and the batch signed. -/
theorem runMatchingRound_all (hsize : ¬s.intents.size < 2)
    (h : AllDecrypt crypto (tasks nodes s))
    (hall : ∀ x ∈ s.intents.entries, Reconstructs crypto
      (readable (nodes.map (·.nodeId)) s (decrypted crypto nodes s)) x) :
    ∃ p, runMatchingRound crypto nodes batchId s = .ok p
      ∧ p.Signed
          (matchIntents (s.intents.entries.map (rowOf crypto
            (readable (nodes.map (·.nodeId)) s (decrypted crypto nodes s)))))
          (cleared (nodes.map (·.nodeId))
            (shown s (decrypted crypto nodes s))) := by
  obtain ⟨uses, hrun⟩ := runMatchingRound_decrypted batchId hsize h
  obtain ⟨s', uses', -, hplain, heq⟩ := matchSession_matched uses
    (signAll crypto nodes batchId) hall
  rw [heq] at hrun
  exact ⟨_, hrun, _, rfl, rfl, rfl, rfl, hplain⟩

/-- An intent short of shares fails it. -/
theorem runMatchingRound_short (hsize : ¬s.intents.size < 2)
    (h : AllDecrypt crypto (tasks nodes s))
    (hshort : Short crypto (readable (nodes.map (·.nodeId)) s
      (decrypted crypto nodes s)) s.intents.entries) :
    ∃ p, runMatchingRound crypto nodes batchId s = .ok p
      ∧ p.Failed (shown s (decrypted crypto nodes s)) := by
  obtain ⟨uses, hrun⟩ := runMatchingRound_decrypted batchId hsize h
  exact ⟨_, hrun, matchSession_failed _ _ hshort⟩

/-- Shares that are none make it throw. -/
theorem runMatchingRound_throws (hsize : ¬s.intents.size < 2)
    (h : AllDecrypt crypto (tasks nodes s))
    (hthrows : Throws crypto (readable (nodes.map (·.nodeId)) s
      (decrypted crypto nodes s)) s.intents.entries) :
    ∃ p, runMatchingRound crypto nodes batchId s = .ok p
      ∧ p.phase = .returned .threw := by
  obtain ⟨uses, hrun⟩ := runMatchingRound_decrypted batchId hsize h
  exact ⟨_, hrun, matchSession_threw _ _ hthrows⟩

end

-- ================================================== the remote round

/-- What a reply says of the entries. -/
def DecryptReply.tells (reply : DecryptReply Plain) : List (Told Plain) :=
  reply.shares.map fun p => ⟨reply.nodeId, p.1, p.2⟩

/-- What the answers say, in the order of the endpoints. -/
def replied (answers : List (Answer (DecryptReply Plain))) :
    List (Told Plain) :=
  (answers.filterMap Answer.value).flatMap DecryptReply.tells

/-- A reply tells what it decrypted. -/
theorem applyReply_eq (s : SessionState Plain)
    (reply : DecryptReply Plain) :
    applyReply s reply = reply.tells.foldl SessionState.tell s := by
  have hfold : ∀ (shares : List (String × Option Plain))
      (m : OrderedMap String
        (OrderedMap String (NodeShareEntry Plain))),
      (m.modify reply.nodeId fun nodeShares =>
        shares.foldl
          (fun m p => m.modify p.1 fun e => { e with decryptedShare := p.2 })
          nodeShares)
        = ((shares.map fun p => (⟨reply.nodeId, p.1, p.2⟩ : Told Plain)).foldl
            SessionState.tell { s with shares := m }).shares := by
    intro shares
    induction shares with
    | nil => exact fun m => OrderedMap.modify_id m reply.nodeId
    | cons p shares ih =>
        intro m
        rw [List.map_cons, List.foldl_cons]
        refine Eq.trans ?_ (ih (m.modify reply.nodeId fun nodeShares =>
          nodeShares.modify p.1 fun e => { e with decryptedShare := p.2 }))
        rw [OrderedMap.modify_modify]
        rfl
  obtain ⟨shares, hframe⟩ := tells_frame reply.tells s
  have hshares := hfold reply.shares s.shares
  rw [applyReply, hshares]
  show { s with shares := (reply.tells.foldl SessionState.tell s).shares } = _
  rw [hframe]

/-- So do several. -/
theorem applyReplies_eq (replies : List (DecryptReply Plain))
    (s : SessionState Plain) :
    replies.foldl applyReply s
      = (replies.flatMap DecryptReply.tells).foldl SessionState.tell s := by
  induction replies generalizing s with
  | nil => rfl
  | cons reply replies ih =>
      rw [List.foldl_cons, ih, applyReply_eq, List.flatMap_cons,
        List.foldl_append]

/-- From the answers to the decrypt requests to the end. -/
def finishRemote (endpoints : List String)
    (signs : List (Answer NodeSignature)) (p : Progress Plain) :
    Progress Plain :=
  match p.phase with
  | .signing batchId matchResults batchHash _ =>
      let q := collectSignatures endpoints batchId matchResults batchHash
        signs p.session
      ⟨q.session, p.uses ++ q.uses, q.phase⟩
  | _ => p

/-- The three stretches of the remote round put together. The session is
not open in between, so no submission changes it. -/
def runMatchingRoundRemote (crypto : Crypto Key Plain)
    (endpoints : List String) (batchId : String)
    (decrypts : List (Answer (DecryptReply Plain)))
    (signs : List (Answer NodeSignature)) (s : SessionState Plain) :
    Except String (Progress Plain) := do
  let started ← startRemote endpoints s
  pure (finishRemote endpoints signs
    (collectDecrypts crypto endpoints batchId decrypts started.session))

/-- Enough nodes answered a request of the round. -/
def Enough {α : Type} (endpoints : List String) (answers : List (Answer α)) :
    Prop :=
  threshold endpoints.length ≤ (answers.filterMap Answer.value).length

instance {α : Type} (endpoints : List String) (answers : List (Answer α)) :
    Decidable (Enough endpoints answers) :=
  Nat.decLe ..

section

variable (crypto : Crypto Key Plain) {endpoints : List String}
  (batchId : String) {decrypts : List (Answer (DecryptReply Plain))}
  (signs : List (Answer NodeSignature)) (s : SessionState Plain)

/-- A session needs two intents here too. -/
theorem runMatchingRoundRemote_few (h : s.intents.size < 2) :
    runMatchingRoundRemote crypto endpoints batchId decrypts signs s
      = .error tooFewIntents := by
  rw [runMatchingRoundRemote, startRemote, if_pos h]
  rfl

/-- Too few answers: nothing was written. -/
theorem runMatchingRoundRemote_unanswered (hsize : ¬s.intents.size < 2)
    (h : ¬Enough endpoints decrypts) :
    ∃ p, runMatchingRoundRemote crypto endpoints batchId decrypts signs s
        = .ok p
      ∧ p.Failed s.plaintext := by
  rw [Enough, not_le] at h
  rw [runMatchingRoundRemote, startRemote, if_neg hsize]
  refine ⟨_, rfl, ?_⟩
  simp only [finishRemote, collectDecrypts, if_pos h]
  exact ⟨_, rfl, rfl, rfl⟩

/-- The stretch between the answers, on the session they were told to. -/
theorem collectDecrypts_enough (h : Enough endpoints decrypts) :
    ∃ next, collectDecrypts crypto endpoints batchId decrypts
          { s with status := .matching }
        = matchSession crypto endpoints
            ((replied decrypts).foldl SessionState.tell
              { s with status := .matching }) [] next
      ∧ ∀ s' matchResults, next s' matchResults
          = (s', .signing batchId matchResults
              (crypto.computeBatchHash batchId matchResults)
              (endpoints.map fun _ => .waiting)) := by
  rw [Enough, ← not_lt] at h
  simp only [collectDecrypts, if_neg h, applyReplies_eq]
  exact ⟨_, rfl, fun _ _ => rfl⟩

/-- With two, the round is decryption, matching and signing. -/
theorem runMatchingRoundRemote_eq (hsize : ¬s.intents.size < 2) :
    runMatchingRoundRemote crypto endpoints batchId decrypts signs s
      = .ok (finishRemote endpoints signs
          (collectDecrypts crypto endpoints batchId decrypts
            { s with status := .matching })) := by
  rw [runMatchingRoundRemote, startRemote, if_neg hsize]
  rfl

/-- All intents give an amount and enough nodes sign. -/
theorem runMatchingRoundRemote_all (hsize : ¬s.intents.size < 2)
    (h : Enough endpoints decrypts)
    (hall : ∀ x ∈ s.intents.entries,
      Reconstructs crypto (readable endpoints s (replied decrypts)) x)
    (hsigns : Enough endpoints signs) :
    ∃ p, runMatchingRoundRemote crypto endpoints batchId decrypts signs s
        = .ok p
      ∧ p.Signed
          (matchIntents (s.intents.entries.map
            (rowOf crypto (readable endpoints s (replied decrypts)))))
          (cleared endpoints (shown s (replied decrypts))) := by
  obtain ⟨next, hcollect, hnext⟩ := collectDecrypts_enough crypto
    batchId s h
  obtain ⟨s', uses', -, hplain, heq⟩ := matchSession_matched [] next
    hall
  rw [heq, hnext] at hcollect
  rw [runMatchingRoundRemote_eq crypto batchId signs s hsize, hcollect]
  rw [Enough, ← not_lt] at hsigns
  refine ⟨_, rfl, ?_⟩
  simp only [finishRemote, collectSignatures, if_neg hsigns]
  exact ⟨_, rfl, rfl, rfl, rfl, hplain⟩

/-- They do not sign: the round fails after the shares were cleared. -/
theorem runMatchingRoundRemote_unsigned (hsize : ¬s.intents.size < 2)
    (h : Enough endpoints decrypts)
    (hall : ∀ x ∈ s.intents.entries,
      Reconstructs crypto (readable endpoints s (replied decrypts)) x)
    (hsigns : ¬Enough endpoints signs) :
    ∃ p, runMatchingRoundRemote crypto endpoints batchId decrypts signs s
        = .ok p
      ∧ p.Failed (cleared endpoints (shown s (replied decrypts))) := by
  obtain ⟨next, hcollect, hnext⟩ := collectDecrypts_enough crypto
    batchId s h
  obtain ⟨s', uses', -, hplain, heq⟩ := matchSession_matched [] next
    hall
  rw [heq, hnext] at hcollect
  rw [runMatchingRoundRemote_eq crypto batchId signs s hsize, hcollect]
  rw [Enough, not_le] at hsigns
  refine ⟨_, rfl, ?_⟩
  simp only [finishRemote, collectSignatures, if_pos hsigns]
  exact ⟨_, rfl, rfl, hplain⟩

/-- Too few shares fail it, -/
theorem runMatchingRoundRemote_short (hsize : ¬s.intents.size < 2)
    (h : Enough endpoints decrypts)
    (hshort : Short crypto (readable endpoints s (replied decrypts))
      s.intents.entries) :
    ∃ p, runMatchingRoundRemote crypto endpoints batchId decrypts signs s
        = .ok p
      ∧ p.Failed (shown s (replied decrypts)) := by
  obtain ⟨next, hcollect, -⟩ := collectDecrypts_enough crypto
    batchId s h
  obtain ⟨reason, hphase, hrest⟩ := matchSession_failed [] next
    hshort
  rw [← hcollect] at hphase hrest
  rw [runMatchingRoundRemote_eq crypto batchId signs s hsize, finishRemote, hphase]
  exact ⟨_, rfl, reason, hphase, hrest⟩

/-- and a reconstruction that throws throws. -/
theorem runMatchingRoundRemote_throws (hsize : ¬s.intents.size < 2)
    (h : Enough endpoints decrypts)
    (hthrows : Throws crypto (readable endpoints s (replied decrypts))
      s.intents.entries) :
    ∃ p, runMatchingRoundRemote crypto endpoints batchId decrypts signs s
        = .ok p
      ∧ p.phase = .returned .threw := by
  obtain ⟨next, hcollect, -⟩ := collectDecrypts_enough crypto
    batchId s h
  have hphase := matchSession_threw [] next hthrows
  rw [← hcollect] at hphase
  rw [runMatchingRoundRemote_eq crypto batchId signs s hsize, finishRemote, hphase]
  exact ⟨_, rfl, hphase⟩

end

-- ==================================================== when it is signed

/-- The call signed a batch of these matches. -/
def SignsMatches (r : Except String (Progress Plain))
    (matchResults : List MatchResult) : Prop :=
  ∃ p batch, r = .ok p ∧ p.phase = .returned (.ok batch)
    ∧ p.session.status = .signed ∧ p.session.signedBatch = some batch
    ∧ batch.matchResults = matchResults

/-- A round that signed, signed its matches. -/
theorem signsMatches_signed {p : Progress Plain}
    {matchResults matchResults' : List MatchResult}
    {plaintext : String → String → Option Plain}
    (h : p.Signed matchResults plaintext) :
    SignsMatches (.ok p) matchResults' ↔ matchResults' = matchResults := by
  obtain ⟨batch, hphase, hstatus, hbatch, hmatch, -⟩ := h
  constructor
  · rintro ⟨p', batch', heq, hphase', -, -, hmatch'⟩
    injection heq with heq
    rw [← heq, hphase] at hphase'
    injection hphase' with hphase'
    injection hphase' with hphase'
    rw [← hmatch', ← hphase', hmatch]
  · rintro rfl
    exact ⟨p, batch, rfl, hphase, hstatus, hbatch, hmatch⟩

/-- One that failed signed none, -/
theorem not_signsMatches_failed {p : Progress Plain}
    {matchResults : List MatchResult}
    {plaintext : String → String → Option Plain}
    (h : p.Failed plaintext) : ¬SignsMatches (.ok p) matchResults := by
  obtain ⟨reason, hphase, -⟩ := h
  rintro ⟨p', batch, heq, hphase', -⟩
  injection heq with heq
  rw [← heq, hphase] at hphase'
  cases hphase'

/-- nor did one that threw. -/
theorem not_signsMatches_threw {p : Progress Plain}
    {matchResults : List MatchResult}
    (h : p.phase = .returned .threw) :
    ¬SignsMatches (.ok p) matchResults := by
  rintro ⟨p', batch, heq, hphase', -⟩
  injection heq with heq
  rw [← heq, h] at hphase'
  cases hphase'

/-- If one intent throws, not all reconstruct, -/
theorem not_all_of_throws {crypto : Crypto Key Plain}
    {sharesOf : String → List Plain} {entries : List (String × MpcIntent)}
    (h : Throws crypto sharesOf entries) :
    ¬∀ x ∈ entries, Reconstructs crypto sharesOf x := by
  obtain ⟨pre, kv, post, rfl, -, -, hnone⟩ := h
  intro hall
  exact (hall kv (by simp)).2 hnone

/-- nor if one has too few shares. -/
theorem not_all_of_short {crypto : Crypto Key Plain}
    {sharesOf : String → List Plain} {entries : List (String × MpcIntent)}
    (h : Short crypto sharesOf entries) :
    ¬∀ x ∈ entries, Reconstructs crypto sharesOf x := by
  obtain ⟨pre, kv, post, rfl, -, hlen⟩ := h
  intro hall
  exact absurd (hall kv (by simp)).1 (not_le.mpr hlen)

/-- Exactly when the in-process round signs, and what. -/
theorem runMatchingRound_signs_iff {crypto : Crypto Key Plain}
    {nodes : List (CommitteeNodeKeyPair Key)} {batchId : String}
    {s : SessionState Plain} (hsize : 2 ≤ s.intents.size)
    {matchResults : List MatchResult} :
    SignsMatches (runMatchingRound crypto nodes batchId s) matchResults
      ↔ AllDecrypt crypto (tasks nodes s)
        ∧ (∀ x ∈ s.intents.entries, Reconstructs crypto
            (readable (nodes.map (·.nodeId)) s
              (decrypted crypto nodes s)) x)
        ∧ matchResults = matchIntents (s.intents.entries.map (rowOf crypto
            (readable (nodes.map (·.nodeId)) s
              (decrypted crypto nodes s)))) := by
  rw [← not_lt] at hsize
  by_cases hdec : AllDecrypt crypto (tasks nodes s)
  · rcases reconstruct_cases crypto (readable (nodes.map (·.nodeId)) s
      (decrypted crypto nodes s)) s.intents.entries with
      hall | hshort | hthrows
    · obtain ⟨p, hp, hsigned⟩ := runMatchingRound_all batchId hsize
        hdec hall
      rw [hp, signsMatches_signed hsigned]
      exact ⟨fun h => ⟨hdec, hall, h⟩, fun h => h.2.2⟩
    · obtain ⟨p, hp, hfailed⟩ := runMatchingRound_short batchId hsize
        hdec hshort
      rw [hp]
      exact iff_of_false (not_signsMatches_failed hfailed)
        fun h => not_all_of_short hshort h.2.1
    · obtain ⟨p, hp, hthrew⟩ := runMatchingRound_throws batchId hsize
        hdec hthrows
      rw [hp]
      exact iff_of_false (not_signsMatches_threw hthrew)
        fun h => not_all_of_throws hthrows h.2.1
  · obtain ⟨p, hp, hfailed⟩ := runMatchingRound_undecrypted batchId
      hsize hdec
    rw [hp]
    exact iff_of_false (not_signsMatches_failed hfailed)
      fun h => hdec h.1

/-- Exactly when the remote round signs, and what. -/
theorem runMatchingRoundRemote_signs_iff {crypto : Crypto Key Plain}
    {endpoints : List String} {batchId : String}
    {decrypts : List (Answer (DecryptReply Plain))}
    {signs : List (Answer NodeSignature)} {s : SessionState Plain}
    (hsize : 2 ≤ s.intents.size) {matchResults : List MatchResult} :
    SignsMatches
        (runMatchingRoundRemote crypto endpoints batchId decrypts signs s)
        matchResults
      ↔ Enough endpoints decrypts ∧ Enough endpoints signs
        ∧ (∀ x ∈ s.intents.entries, Reconstructs crypto
            (readable endpoints s (replied decrypts)) x)
        ∧ matchResults = matchIntents (s.intents.entries.map
            (rowOf crypto (readable endpoints s (replied decrypts)))) := by
  rw [← not_lt] at hsize
  by_cases henough : Enough endpoints decrypts
  · rcases reconstruct_cases crypto
      (readable endpoints s (replied decrypts)) s.intents.entries with
      hall | hshort | hthrows
    · by_cases hsigns : Enough endpoints signs
      · obtain ⟨p, hp, hsigned⟩ := runMatchingRoundRemote_all crypto batchId
          signs s hsize henough hall hsigns
        rw [hp, signsMatches_signed hsigned]
        exact ⟨fun h => ⟨henough, hsigns, hall, h⟩, fun h => h.2.2.2⟩
      · obtain ⟨p, hp, hfailed⟩ := runMatchingRoundRemote_unsigned crypto
          batchId signs s hsize henough hall hsigns
        rw [hp]
        exact iff_of_false (not_signsMatches_failed hfailed)
          fun h => hsigns h.2.1
    · obtain ⟨p, hp, hfailed⟩ := runMatchingRoundRemote_short crypto batchId
        signs s hsize henough hshort
      rw [hp]
      exact iff_of_false (not_signsMatches_failed hfailed)
        fun h => not_all_of_short hshort h.2.2.1
    · obtain ⟨p, hp, hthrew⟩ := runMatchingRoundRemote_throws crypto
        batchId signs s hsize henough hthrows
      rw [hp]
      exact iff_of_false (not_signsMatches_threw hthrew)
        fun h => not_all_of_throws hthrows h.2.2.1
  · obtain ⟨p, hp, hfailed⟩ := runMatchingRoundRemote_unanswered crypto
      batchId signs s hsize henough
    rw [hp]
    exact iff_of_false (not_signsMatches_failed hfailed)
      fun h => henough h.1

end Lumix.Committee
