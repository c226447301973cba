/-
The committee's state: sessions, the intents submitted to them and the
encrypted shares that came along.

A session is an object, and a matching round keeps its reference across
network calls while requests go on changing the maps. So sessions live
on a heap, `sessions` maps ids to references, and an object that drops
out of the map is still there for the round that holds it. Heap cells
are never freed: what became of every session of a run can be read off
its last state.
-/
import Mathlib.Data.Int.Notation
import Mathlib.Data.List.Basic
import Lumix.Lib.OrderedMap

namespace Lumix.Committee

-- ============================================================ intents

/-- A share as an entry stores it, without the node it is for. -/
structure SealedShare where
  ciphertext : String
  nonce : String
  senderPubkey : String
deriving DecidableEq

/-- A sealed share and the node it is for. -/
structure EncryptedShare extends SealedShare where
  nodeId : String
deriving DecidableEq

/-- `{ ...share, nodeId }` -/
def SealedShare.forNode (share : SealedShare) (nodeId : String) :
    EncryptedShare :=
  { share with nodeId }

/-- An intent as it is submitted. -/
structure MpcIntent where
  intentId : String
  inputAsset : String
  outputAsset : String
  encryptedShares : List EncryptedShare
deriving DecidableEq

/-- `Plain` is what decrypting a share yields. -/
structure NodeShareEntry (Plain : Type) where
  intentId : String
  nodeId : String
  encryptedShare : SealedShare
  decryptedShare : Option Plain

-- ============================================================ batches

/-- A match as it is signed. -/
structure MatchResult where
  intentAId : String
  intentBId : String
  matchedAmount7dp : String
  inputAsset : String
  outputAsset : String
deriving DecidableEq

/-- A node's signature of a batch. -/
structure NodeSignature where
  nodeId : String
  signingPubkey : String
  signature : String
deriving DecidableEq

/-- A batch with its signatures. -/
structure SignedMatchBatch where
  batchId : String
  sessionId : String
  matchResults : List MatchResult
  batchHash : String
  signatures : List NodeSignature
deriving DecidableEq

-- =========================================================== sessions

/-- `opened` is the source's "open", a keyword here. -/
inductive Status
  | opened
  | matching
  | signed
  | failed
deriving DecidableEq

/-- A session: its intents, and the shares node by node. -/
structure SessionState (Plain : Type) where
  sessionId : String
  startedAt : ℤ
  status : Status
  intents : OrderedMap String MpcIntent
  shares : OrderedMap String (OrderedMap String (NodeShareEntry Plain))
  signedBatch : Option SignedMatchBatch

/-- The two readings of the clock that make a session: one for its id,
one for `startedAt`. Nothing relates them, nor one session's to the
next's. -/
structure Clock where
  now : ℤ
  started : ℤ

/-- `session-${Date.now()}` -/
def sessionName (now : ℤ) : String := "session-" ++ now.repr

namespace SessionState

variable {Plain : Type}

/-- A node's share of an intent. -/
def entry (s : SessionState Plain) (nodeId intentId : String) :
    Option (NodeShareEntry Plain) :=
  (s.shares.get nodeId).bind fun m => m.get intentId

/-- The session `createSession` makes. -/
def fresh (sessionId : String) (started : ℤ) : SessionState Plain where
  sessionId := sessionId
  startedAt := started
  status := .opened
  intents := OrderedMap.empty
  shares := OrderedMap.empty
  signedBatch := none

/-- One pass of the loop over an intent's shares: the node's map is made
where it is missing, then written. -/
def storeShare (intentId : String)
    (shares : OrderedMap String (OrderedMap String (NodeShareEntry Plain)))
    (encShare : EncryptedShare) :
    OrderedMap String (OrderedMap String (NodeShareEntry Plain)) :=
  shares.set encShare.nodeId
    (((shares.get encShare.nodeId).getD OrderedMap.empty).set intentId
      { intentId
        nodeId := encShare.nodeId
        encryptedShare := encShare.toSealedShare
        decryptedShare := none })

/-- What `addIntent` does to the session it lands in. -/
def addIntent (s : SessionState Plain) (intent : MpcIntent) :
    SessionState Plain :=
  { s with
    intents := s.intents.set intent.intentId intent
    shares := intent.encryptedShares.foldl (storeShare intent.intentId)
      s.shares }

/-- An intent is added under its id. -/
theorem get_intents_addIntent (s : SessionState Plain)
    (intent : MpcIntent) (id : String) :
    (s.addIntent intent).intents.get id
      = if intent.intentId = id then some intent else s.intents.get id :=
  OrderedMap.get_set ..

/-- An entry after a stored share is that share's, or was there. -/
theorem entry_storeShare {m m' : OrderedMap String
      (OrderedMap String (NodeShareEntry Plain))}
    {intentId n id : String} {sh : EncryptedShare}
    {e : NodeShareEntry Plain}
    (hm' : m' = storeShare intentId m sh)
    (h : (m'.get n).bind (fun x => x.get id) = some e) :
    (id = intentId ∧ n = sh.nodeId ∧ e.encryptedShare = sh.toSealedShare)
      ∨ (m.get n).bind (fun x => x.get id) = some e := by
  rw [hm', storeShare, OrderedMap.get_set] at h
  by_cases hn : sh.nodeId = n
  · subst hn
    rw [if_pos rfl, Option.bind_some, OrderedMap.get_set] at h
    by_cases hid : intentId = id
    · rw [if_pos hid] at h
      injection h with h
      exact Or.inl ⟨hid.symm, rfl, by rw [← h]⟩
    · rw [if_neg hid] at h
      right
      cases hg : m.get sh.nodeId with
      | none => rw [hg] at h; cases h
      | some x => rw [hg] at h; exact h
  · rw [if_neg hn] at h
    exact Or.inr h

/-- Where an entry of a session comes from after a submission: from one
of the submitted shares, addressed to that node, or from before. -/
theorem entry_addIntent {s : SessionState Plain} {intent : MpcIntent}
    {n id : String} {e : NodeShareEntry Plain}
    (h : (s.addIntent intent).entry n id = some e) :
    (id = intent.intentId ∧ ∃ sh ∈ intent.encryptedShares,
        sh.nodeId = n ∧ e.encryptedShare = sh.toSealedShare)
      ∨ s.entry n id = some e := by
  have hfold : ∀ (l : List EncryptedShare)
      (m : OrderedMap String (OrderedMap String (NodeShareEntry Plain))),
      ((l.foldl (storeShare intent.intentId) m).get n).bind
        (fun x => x.get id) = some e →
      (id = intent.intentId ∧ ∃ sh ∈ l,
          sh.nodeId = n ∧ e.encryptedShare = sh.toSealedShare)
        ∨ (m.get n).bind (fun x => x.get id) = some e := by
    intro l
    induction l with
    | nil => exact fun m hm => Or.inr hm
    | cons sh l ih =>
        intro m hm
        rcases ih _ hm with ⟨hid, sh', hsh', hrest⟩ | hm'
        · exact Or.inl ⟨hid, sh', List.mem_cons_of_mem _ hsh', hrest⟩
        · rcases entry_storeShare rfl hm' with ⟨hid, hn, he⟩ | hold
          · exact Or.inl ⟨hid, sh, List.mem_cons_self .., hn.symm, he⟩
          · exact Or.inr hold
  exact hfold intent.encryptedShares s.shares h

end SessionState

-- ==================================================== the whole state

/-- Where a session is in the heap. -/
abbrev Ref := ℕ

/-- The coordinator: sessions on a heap, the map of them by name, and
where each intent went. -/
structure CommitteeState (Plain : Type) where
  heap : List (SessionState Plain)
  sessions : OrderedMap String Ref
  intentToSession : OrderedMap String String

namespace CommitteeState

variable {Plain : Type}

/-- It has just started. -/
def empty : CommitteeState Plain where
  heap := []
  sessions := OrderedMap.empty
  intentToSession := OrderedMap.empty

/-- A session is written in its place. -/
def put (c : CommitteeState Plain) (r : Ref) (s : SessionState Plain) :
    CommitteeState Plain :=
  { c with heap := c.heap.set r s }

/-- A new object, and the id pointing at it from now on, whatever the id
pointed at before. -/
def createSession (c : CommitteeState Plain) (sessionId : String)
    (started : ℤ) :
    CommitteeState Plain × Ref × SessionState Plain :=
  let s := SessionState.fresh sessionId started
  ({ c with
     heap := c.heap ++ [s]
     sessions := c.sessions.set sessionId c.heap.length },
    c.heap.length, s)

/-- `allSessions`, each with its reference, in the order of the map. -/
def allSessions (c : CommitteeState Plain) :
    List (Ref × SessionState Plain) :=
  c.sessions.values.filterMap fun r => (c.heap[r]?).map fun s => (r, s)

/-- The sessions in the map that are open. -/
def getOpenSessions (c : CommitteeState Plain) :
    List (Ref × SessionState Plain) :=
  c.allSessions.filter fun p => p.2.status = .opened

/-- The session of a name. -/
def getSession (c : CommitteeState Plain) (sessionId : String) :
    Option (Ref × SessionState Plain) :=
  (c.sessions.get sessionId).bind fun r =>
    (c.heap[r]?).map fun s => (r, s)

/-- The first open session, or a new one. -/
def getOrCreateOpenSession (c : CommitteeState Plain) (clock : Clock) :
    CommitteeState Plain × Ref × SessionState Plain :=
  match c.allSessions.find? fun p => p.2.status = .opened with
  | some (r, s) => (c, r, s)
  | none => c.createSession (sessionName clock.now) clock.started

/-- The state after a submission, and the id of the session it went to. -/
def addIntent (c : CommitteeState Plain) (intent : MpcIntent)
    (clock : Clock) : CommitteeState Plain × String :=
  let (c, r, s) := c.getOrCreateOpenSession clock
  ({ c with
     heap := c.heap.set r (s.addIntent intent)
     intentToSession :=
       c.intentToSession.set intent.intentId s.sessionId },
    s.sessionId)

/-- What `GET /v1/mpc/batches` serves. -/
def batches (c : CommitteeState Plain) : List SignedMatchBatch :=
  c.allSessions.filterMap fun p =>
    if p.2.status = .signed then p.2.signedBatch else none

/-- The sessions in the map. -/
theorem mem_allSessions {c : CommitteeState Plain} {r : Ref}
    {s : SessionState Plain} :
    (r, s) ∈ c.allSessions
      ↔ (∃ id, c.sessions.get id = some r) ∧ c.heap[r]? = some s := by
  rw [allSessions, List.mem_filterMap, ← OrderedMap.mem_values]
  constructor
  · rintro ⟨r', hr', h⟩
    obtain ⟨s', hs', heq⟩ := Option.map_eq_some_iff.mp h
    injection heq with hr hs
    subst hr hs
    exact ⟨hr', hs'⟩
  · rintro ⟨hr, hs⟩
    exact ⟨r, hr, by rw [hs]; rfl⟩

/-- Those that are open. -/
theorem mem_getOpenSessions {c : CommitteeState Plain} {r : Ref}
    {s : SessionState Plain} :
    (r, s) ∈ c.getOpenSessions
      ↔ ((∃ id, c.sessions.get id = some r) ∧ c.heap[r]? = some s)
        ∧ s.status = .opened := by
  rw [getOpenSessions, List.mem_filter, mem_allSessions]
  simp

/-- There is one if there is one. -/
theorem getOpenSessions_ne_nil {c : CommitteeState Plain} {r : Ref}
    {s : SessionState Plain} (hs : (r, s) ∈ c.allSessions)
    (hopen : s.status = .opened) : c.getOpenSessions ≠ [] :=
  List.ne_nil_of_mem
    (mem_getOpenSessions.mpr ⟨mem_allSessions.mp hs, hopen⟩)

/-- The session of a name is where the map says. -/
theorem getSession_eq_some {c : CommitteeState Plain} {id : String}
    {r : Ref} {s : SessionState Plain} :
    c.getSession id = some (r, s)
      ↔ c.sessions.get id = some r ∧ c.heap[r]? = some s := by
  simp only [getSession, Option.bind_eq_some_iff, Option.map_eq_some_iff,
    Prod.mk.injEq]
  constructor
  · rintro ⟨r', hr', s', hs', rfl, rfl⟩
    exact ⟨hr', hs'⟩
  · rintro ⟨hr, hs⟩
    exact ⟨r, hr, s, hs, rfl, rfl⟩

/-- What a submission does: it lands in a session that is open, or,
where the map holds none, in a new one. -/
inductive Added (c : CommitteeState Plain) (intent : MpcIntent)
    (clock : Clock) : CommitteeState Plain → String → Prop
  | found {r : Ref} {s : SessionState Plain} (hs : (r, s) ∈ c.allSessions)
      (hopen : s.status = .opened) :
      Added c intent clock
        { c with
          heap := c.heap.set r (s.addIntent intent)
          intentToSession :=
            c.intentToSession.set intent.intentId s.sessionId }
        s.sessionId
  | created (hnone : c.getOpenSessions = []) :
      Added c intent clock
        { heap := c.heap ++
            [(SessionState.fresh (sessionName clock.now)
              clock.started).addIntent intent]
          sessions := c.sessions.set (sessionName clock.now) c.heap.length
          intentToSession :=
            c.intentToSession.set intent.intentId (sessionName clock.now) }
        (sessionName clock.now)

/-- What adding an intent does. -/
theorem added_addIntent {c c' : CommitteeState Plain}
    {intent : MpcIntent} {clock : Clock} {sid : String}
    (h : c.addIntent intent clock = (c', sid)) :
    Added c intent clock c' sid := by
  unfold addIntent getOrCreateOpenSession at h
  cases hf : c.allSessions.find? fun p => p.2.status = .opened with
  | none =>
      have hnone : c.getOpenSessions = [] := by
        rw [getOpenSessions, List.filter_eq_nil_iff]
        exact List.find?_eq_none.mp hf
      have hset : (c.heap ++ [SessionState.fresh (sessionName clock.now)
            clock.started]).set c.heap.length
            ((SessionState.fresh (sessionName clock.now)
              clock.started).addIntent intent)
          = c.heap ++ [(SessionState.fresh (sessionName clock.now)
              clock.started).addIntent intent] := by
        rw [List.set_append_right _ _ (Nat.le_refl _), Nat.sub_self]
        rfl
      simp only [hf, createSession, hset] at h
      injection h with hc hsid
      subst hc hsid
      exact .created hnone
  | some p =>
      obtain ⟨r, s⟩ := p
      rw [hf] at h
      injection h with hc hsid
      subst hc hsid
      exact .found (List.mem_of_find?_eq_some hf)
        (by simpa using List.find?_some hf)

/-- The one cell a submission writes: an open session's, or a new one of
a session without content. -/
structure Landed (c c' : CommitteeState Plain) (intent : MpcIntent)
    (r : Ref) (s : SessionState Plain) : Prop where
  here : c'.heap[r]? = some (s.addIntent intent)
  elsewhere : ∀ r', r' ≠ r → c'.heap[r']? = c.heap[r']?
  origin : (c.heap[r]? = some s ∧ s.status = .opened)
    ∨ (c.getOpenSessions = [] ∧ (∀ id, s.intents.get id = none)
      ∧ ∀ n id, s.entry n id = none)

/-- An intent that was added is in a session. -/
theorem Added.landed {c c' : CommitteeState Plain} {intent : MpcIntent}
    {clock : Clock} {sid : String} (h : Added c intent clock c' sid) :
    ∃ r s, Landed c c' intent r s := by
  cases h with
  | found hs hopen =>
      rename_i r s
      obtain ⟨-, hs⟩ := mem_allSessions.mp hs
      obtain ⟨hlt, -⟩ := List.getElem?_eq_some_iff.mp hs
      refine ⟨r, s, ?_, fun r' hr => ?_, Or.inl ⟨hs, hopen⟩⟩
      · show (c.heap.set r _)[r]? = _
        rw [List.getElem?_set_self hlt]
      · exact List.getElem?_set_ne (Ne.symm hr)
  | created hnone =>
      refine ⟨c.heap.length, _, List.getElem?_concat_length .., ?_,
        Or.inr ⟨hnone, fun id => rfl, fun n id => rfl⟩⟩
      intro r' hr
      show (c.heap ++ [_])[r']? = _
      rcases Nat.lt_or_gt_of_ne hr with hlt | hgt
      · exact List.getElem?_append_left hlt
      · rw [List.getElem?_eq_none (by simp; omega),
          List.getElem?_eq_none (by omega)]

/-- A heap cell that is there, overwritten. -/
theorem heap_put {c : CommitteeState Plain} {r : Ref}
    {s : SessionState Plain} (hs : c.heap[r]? = some s)
    (s' : SessionState Plain) (r' : Ref) :
    (c.heap.set r s')[r']? = if r = r' then some s' else c.heap[r']? := by
  obtain ⟨hlt, -⟩ := List.getElem?_eq_some_iff.mp hs
  rw [List.getElem?_set, if_pos hlt]

/-- Whatever is in a cell after one was overwritten: the new session
there, the old one elsewhere. -/
theorem cell_of_put {c : CommitteeState Plain} {r r₁ : Ref}
    {s s' s₁ : SessionState Plain} (hs : c.heap[r]? = some s)
    (h : (c.heap.set r s')[r₁]? = some s₁) :
    (r₁ = r ∧ s₁ = s') ∨ (r₁ ≠ r ∧ c.heap[r₁]? = some s₁) := by
  rw [heap_put hs] at h
  by_cases hr : r = r₁
  · rw [if_pos hr] at h
    injection h with h
    exact Or.inl ⟨hr.symm, h.symm⟩
  · rw [if_neg hr] at h
    exact Or.inr ⟨Ne.symm hr, h⟩

/-- A cell holds one session. -/
theorem cell_inj {c : CommitteeState Plain} {r : Ref}
    {s s' : SessionState Plain} (hs : c.heap[r]? = some s)
    (hs' : c.heap[r]? = some s') : s = s' := by
  rw [hs] at hs'
  injection hs'

end CommitteeState

end Lumix.Committee
