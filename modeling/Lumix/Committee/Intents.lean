/-
What an intent id means over a run of the committee.

A submission is never refused for its id. One that comes again while its
session is open overwrites it there; one that comes after the session's
round has started opens it anew in the next session, where it is matched
a second time. `IntentsMean` says that neither happens, and
`resubmission` is a run in which the second does.

Under `Clean` submissions, whose id is new or whose intent is already in
the open session unchanged, it holds of every run. The invariant behind
it is `Intact`: all that is stored under an id, in the sessions, on the
way to the nodes and on the nodes, belongs to the one intent accepted
under it, and one session has the id.
-/
import Lumix.Committee.Protocol

namespace Lumix.Committee

open Run Exec

variable {Key Plain : Type}

-- ====================================================== the statement

/-- The accepted submissions of a history, in order. -/
def submissions (h : List (Transition (World Plain) Event)) :
    List MpcIntent :=
  h.filterMap fun t => t.event.submission.map Prod.fst

/-- The intent an id was first submitted with. -/
def firstSubmission (subs : List MpcIntent) (id : String) :
    Option MpcIntent :=
  subs.find? fun i => i.intentId = id

/-- A use agrees with the first submission of its id. -/
def Use.Agrees (subs : List MpcIntent) : Use → Prop
  | decrypted id share =>
      ∃ i, firstSubmission subs id = some i ∧ share ∈ i.encryptedShares
  | matched row =>
      ∃ i, firstSubmission subs row.intentId = some i
        ∧ row.inputAsset = i.inputAsset ∧ row.outputAsset = i.outputAsset

/-- The ids in the matches of the batch a round has signed, if it has. -/
def Round.signedIds (rd : Round Plain) : List String :=
  match rd.phase with
  | .returned (.ok batch) => batch.matchResults.flatMap MatchResult.ids
  | _ => []

/-- Every share and every pair of assets a round used is of the first
accepted submission under its id, and over all signed batches of the run
no id is matched twice. -/
def IntentsMean (cfg : Config Key Plain) (es : List Event) : Prop :=
  (∀ u ∈ (run (step cfg) (World.boot cfg) es).uses,
      u.Agrees (submissions (accepted (step cfg) (World.boot cfg) es)))
    ∧ ((run (step cfg) (World.boot cfg) es).rounds.flatMap
        Round.signedIds).Nodup

/-- A submission under an id the coordinator has not registered, or of an
intent that the open session has as it is. -/
def Clean (t : Transition (World Plain) Event) : Prop :=
  ∀ p ∈ t.event.submission,
    t.before.committee.intentToSession.get p.1.intentId = none
      ∨ ∃ q ∈ t.before.committee.getOpenSessions,
          q.2.intents.get p.1.intentId = some p.1

instance (t : Transition (World Plain) Event) : Decidable (Clean t) :=
  inferInstanceAs (Decidable (∀ p ∈ t.event.submission, _))

/-- No submitted id, put into a node's URL, is read by its router as
another submitted id. -/
def PathsApart (cfg : Config Key Plain) (subs : List MpcIntent) : Prop :=
  cfg.mode = .standalone → ∀ i ∈ subs, ∀ j ∈ subs,
    cfg.pathParam i.intentId = some j.intentId → i.intentId = j.intentId

-- ====================================================== the sessions

/-- The content of the sessions is of submitted intents, and no id is in
two sessions. -/
structure CommitteeState.Content (subs : List MpcIntent)
    (c : CommitteeState Plain) : Prop where
  intents : ∀ (r : Ref) s, c.heap[r]? = some s → ∀ id i,
    s.intents.get id = some i → i ∈ subs ∧ i.intentId = id
  once : ∀ (r r' : Ref) s s', c.heap[r]? = some s → c.heap[r']? = some s' →
    ∀ id ∈ s.intents.keys, id ∈ s'.intents.keys → r = r'
  entries : ∀ (r : Ref) s, c.heap[r]? = some s → ∀ n id e,
    s.entry n id = some e → ∃ i ∈ subs, i.intentId = id
      ∧ e.encryptedShare.forNode n ∈ i.encryptedShares

namespace CommitteeState.Content

variable {c c' : CommitteeState Plain} {subs : List MpcIntent}

/-- A stretch of a round changes none of it. -/
theorem put (h : c.Content subs) {r : Ref} {s s' : SessionState Plain}
    (hs : c.heap[r]? = some s) (hk : Keeps s s') :
    (c.put r s').Content subs := by
  have hcell : ∀ (r₁ : Ref) s₁, (c.put r s').heap[r₁]? = some s₁ →
      ∃ s₀, c.heap[r₁]? = some s₀ ∧ Keeps s₀ s₁ := by
    intro r₁ s₁ hs₁
    rcases cell_of_put hs hs₁ with ⟨rfl, rfl⟩ | ⟨-, hs₁⟩
    · exact ⟨s, hs, hk⟩
    · exact ⟨s₁, hs₁, Keeps.refl s₁⟩
  refine ⟨?_, ?_, ?_⟩
  · intro r₁ s₁ hs₁ id i hi
    obtain ⟨s₀, hs₀, hk₀⟩ := hcell r₁ s₁ hs₁
    exact h.intents r₁ s₀ hs₀ id i (hk₀.intents ▸ hi)
  · intro r₁ r₂ s₁ s₂ hs₁ hs₂ id hid₁ hid₂
    obtain ⟨t₁, ht₁, hk₁⟩ := hcell r₁ s₁ hs₁
    obtain ⟨t₂, ht₂, hk₂⟩ := hcell r₂ s₂ hs₂
    exact h.once r₁ r₂ t₁ t₂ ht₁ ht₂ id (hk₁.intents ▸ hid₁)
      (hk₂.intents ▸ hid₂)
  · intro r₁ s₁ hs₁ n id e he
    obtain ⟨s₀, hs₀, hk₀⟩ := hcell r₁ s₁ hs₁
    obtain ⟨e₀, he₀, hsealed⟩ := hk₀.entry he
    exact hsealed ▸ h.entries r₁ s₀ hs₀ n id e₀ he₀

/-- A submission adds its own intent to one session. Whichever session
has its id already must be open, and there is only one such. -/
theorem add (h : c.Content subs) (ho : c.Orderly) {intent : MpcIntent}
    {clock : Clock} {sid : String}
    (hadd : c.addIntent intent clock = (c', sid))
    (hopen : ∀ (r : Ref) s, c.heap[r]? = some s →
      intent.intentId ∈ s.intents.keys → s.status = .opened) :
    c'.Content (subs ++ [intent]) := by
  obtain ⟨r, s, hl⟩ := (added_addIntent hadd).landed
  have hcell : ∀ (r₁ : Ref) s₁, c'.heap[r₁]? = some s₁ →
      (r₁ = r ∧ s₁ = s.addIntent intent)
        ∨ (r₁ ≠ r ∧ c.heap[r₁]? = some s₁) := by
    intro r₁ s₁ hs₁
    by_cases hr : r₁ = r
    · subst hr
      exact Or.inl ⟨rfl, cell_inj hs₁ hl.here⟩
    · exact Or.inr ⟨hr, hl.elsewhere r₁ hr ▸ hs₁⟩
  have hmem : intent ∈ subs ++ [intent] := by simp
  have hold : ∀ i, i ∈ subs → i ∈ subs ++ [intent] := fun i hi =>
    List.mem_append_left _ hi
  -- another session cannot have an id of the one that was written
  have hother : ∀ (r₁ : Ref) s₁, r₁ ≠ r → c.heap[r₁]? = some s₁ →
      ∀ id ∈ (s.addIntent intent).intents.keys,
        id ∉ s₁.intents.keys := by
    intro r₁ s₁ hr hs₁ id hid hid₁
    obtain ⟨i, hi⟩ := OrderedMap.mem_keys.mp hid
    rw [SessionState.get_intents_addIntent] at hi
    by_cases heq : intent.intentId = id
    · have hopen₁ := hopen r₁ s₁ hs₁ (heq ▸ hid₁)
      rcases hl.origin with ⟨hs, hsopen⟩ | ⟨hnone, -⟩
      · exact hr (ho.unique r₁ r s₁ s hs₁ hs hopen₁ hsopen)
      · exact ho.not_opened hnone hs₁ hopen₁
    · rw [if_neg heq] at hi
      rcases hl.origin with ⟨hs, -⟩ | ⟨-, hempty, -⟩
      · exact hr (h.once r₁ r s₁ s hs₁ hs id hid₁
          (OrderedMap.mem_keys.mpr ⟨i, hi⟩))
      · rw [hempty id] at hi
        cases hi
  refine ⟨?_, ?_, ?_⟩
  · intro r₁ s₁ hs₁ id i hi
    rcases hcell r₁ s₁ hs₁ with ⟨rfl, rfl⟩ | ⟨-, hs₁⟩
    · rw [SessionState.get_intents_addIntent] at hi
      by_cases heq : intent.intentId = id
      · rw [if_pos heq] at hi
        injection hi with hi
        subst hi
        exact ⟨hmem, heq⟩
      · rw [if_neg heq] at hi
        rcases hl.origin with ⟨hs, -⟩ | ⟨-, hempty, -⟩
        · obtain ⟨hi, hid⟩ := h.intents r₁ s hs id i hi
          exact ⟨hold i hi, hid⟩
        · rw [hempty id] at hi
          cases hi
    · obtain ⟨hi, hid⟩ := h.intents r₁ s₁ hs₁ id i hi
      exact ⟨hold i hi, hid⟩
  · intro r₁ r₂ s₁ s₂ hs₁ hs₂ id hid₁ hid₂
    rcases hcell r₁ s₁ hs₁ with ⟨rfl, rfl⟩ | ⟨hr₁, hs₁⟩
    · rcases hcell r₂ s₂ hs₂ with ⟨rfl, rfl⟩ | ⟨hr₂, hs₂⟩
      · rfl
      · exact absurd hid₂ (hother r₂ s₂ hr₂ hs₂ id hid₁)
    · rcases hcell r₂ s₂ hs₂ with ⟨rfl, rfl⟩ | ⟨hr₂, hs₂⟩
      · exact absurd hid₁ (hother r₁ s₁ hr₁ hs₁ id hid₂)
      · exact h.once r₁ r₂ s₁ s₂ hs₁ hs₂ id hid₁ hid₂
  · intro r₁ s₁ hs₁ n id e he
    rcases hcell r₁ s₁ hs₁ with ⟨rfl, rfl⟩ | ⟨-, hs₁⟩
    · rcases SessionState.entry_addIntent he with
        ⟨hid, sh, hsh, hn, hsealed⟩ | he
      · refine ⟨intent, hmem, hid.symm, ?_⟩
        rw [hsealed, ← hn]
        exact hsh
      · rcases hl.origin with ⟨hs, -⟩ | ⟨-, -, hempty⟩
        · obtain ⟨i, hi, hrest⟩ := h.entries r₁ s hs n id e he
          exact ⟨i, hold i hi, hrest⟩
        · rw [hempty n id] at he
          cases he
    · obtain ⟨i, hi, hrest⟩ := h.entries r₁ s₁ hs₁ n id e he
      exact ⟨i, hold i hi, hrest⟩

end CommitteeState.Content

-- ========================================================= the whole run

/-- A use of what was submitted under its id. -/
def Use.Of (subs : List MpcIntent) : Use → Prop
  | decrypted id share =>
      ∃ i ∈ subs, i.intentId = id ∧ share ∈ i.encryptedShares
  | matched row =>
      ∃ i ∈ subs, i.intentId = row.intentId
        ∧ row.inputAsset = i.inputAsset ∧ row.outputAsset = i.outputAsset

/-- What is of a submission stays so. -/
theorem Use.Of.mono {subs subs' : List MpcIntent} {u : Use}
    (h : u.Of subs) (hsub : subs ⊆ subs') : u.Of subs' := by
  cases u with
  | decrypted id share =>
      obtain ⟨i, hi, hrest⟩ := h
      exact ⟨i, hsub hi, hrest⟩
  | matched row =>
      obtain ⟨i, hi, hrest⟩ := h
      exact ⟨i, hsub hi, hrest⟩

/-- What a round uses of its session was submitted under its id. -/
theorem Use.From.of {c : CommitteeState Plain} {subs : List MpcIntent}
    {r : Ref} {s : SessionState Plain} {u : Use} (hc : c.Content subs)
    (hs : c.heap[r]? = some s) (h : u.From s) : u.Of subs := by
  cases u with
  | decrypted id share =>
      obtain ⟨e, he, hsealed⟩ := h
      obtain ⟨i, hi, hid, hshare⟩ := hc.entries r s hs _ _ e he
      rw [hsealed] at hshare
      exact ⟨i, hi, hid, hshare⟩
  | matched row =>
      obtain ⟨intent, hi, hassets⟩ := h
      obtain ⟨hmem, hid⟩ := hc.intents r s hs _ intent hi
      exact ⟨intent, hmem, hid, hassets⟩

/-- A share that a node was sent, or keeps, under `id`. -/
def Sent (cfg : Config Key Plain) (subs : List MpcIntent) (id : String)
    (share : EncryptedShare) : Prop :=
  cfg.mode = .standalone ∧ ∃ i ∈ subs,
    cfg.pathParam i.intentId = some id ∧ share ∈ i.encryptedShares

/-- What was sent was sent. -/
theorem Sent.mono {cfg : Config Key Plain} {subs subs' : List MpcIntent}
    {id : String} {share : EncryptedShare} (h : Sent cfg subs id share)
    (hsub : subs ⊆ subs') : Sent cfg subs' id share := by
  obtain ⟨hmode, i, hi, hrest⟩ := h
  exact ⟨hmode, i, hsub hi, hrest⟩

/-- The standalone coordinator sends a submission's shares. -/
theorem sent_distributeShares {cfg : Config Key Plain}
    {intent : MpcIntent} {d : Delivery}
    (h : d ∈ distributeShares cfg intent) :
    cfg.mode = .standalone ∧ cfg.pathParam intent.intentId = some d.intentId
      ∧ d.share ∈ intent.encryptedShares := by
  unfold distributeShares at h
  cases hmode : cfg.mode with
  | combined => rw [hmode] at h; cases h
  | standalone =>
      rw [hmode] at h
      obtain ⟨share, hshare, hd⟩ := List.mem_filterMap.mp h
      obtain ⟨node, -, hd⟩ := Option.bind_eq_some_iff.mp hd
      obtain ⟨id, hid, rfl⟩ := Option.map_eq_some_iff.mp hd
      exact ⟨rfl, hid, hshare⟩

/-- All that is kept under an id belongs to the one intent submitted
under it. -/
structure Intact (cfg : Config Key Plain) (subs : List MpcIntent)
    (w : World Plain) : Prop where
  protocol : Protocol w
  registered : ∀ i ∈ subs,
    w.committee.intentToSession.get i.intentId ≠ none
  same : ∀ i ∈ subs, ∀ j ∈ subs, i.intentId = j.intentId → i = j
  content : w.committee.Content subs
  inFlight : ∀ d ∈ w.inFlight, Sent cfg subs d.intentId d.share
  stores : ∀ store ∈ w.stores, ∀ id share, store.get id = some share →
    Sent cfg subs id share
  uses : ∀ u ∈ w.uses, u.Of subs

namespace Intact

variable {cfg : Config Key Plain} {subs : List MpcIntent} {w : World Plain}

/-- Nothing is used before anything is submitted. -/
theorem boot (cfg : Config Key Plain) : Intact cfg [] (World.boot cfg) where
  protocol := Protocol.boot cfg
  registered := fun i hi => by cases hi
  same := fun i hi => by cases hi
  content :=
    ⟨fun r s hs => (by cases hs), fun r r' s s' hs => (by cases hs),
      fun r s hs => by cases hs⟩
  inFlight := fun d hd => by cases hd
  stores := by
    intro store hstore id share hget
    obtain ⟨node, -, rfl⟩ := List.mem_map.mp hstore
    cases hget
  uses := fun u hu => by cases hu

/-- Under a clean submission the id is new, or its one intent is
resubmitted while the one session that has it is open. -/
theorem of_clean (h : Intact cfg subs w) {intent : MpcIntent}
    (hclean : w.committee.intentToSession.get intent.intentId = none
      ∨ ∃ q ∈ w.committee.getOpenSessions,
          q.2.intents.get intent.intentId = some intent) :
    (∀ i ∈ subs, i.intentId = intent.intentId → i = intent)
      ∧ ∀ (r : Ref) s, w.committee.heap[r]? = some s →
          intent.intentId ∈ s.intents.keys → s.status = .opened := by
  rcases hclean with hnew | ⟨⟨r₀, s₀⟩, hq, hheld⟩
  · have hnone : ∀ i ∈ subs, i.intentId ≠ intent.intentId := by
      intro i hi hid
      exact h.registered i hi (hid ▸ hnew)
    refine ⟨fun i hi hid => absurd hid (hnone i hi), ?_⟩
    intro r s hs hid
    obtain ⟨i, hi⟩ := OrderedMap.mem_keys.mp hid
    obtain ⟨hmem, hid'⟩ := h.content.intents r s hs _ i hi
    exact absurd hid' (hnone i hmem)
  · obtain ⟨⟨-, hs₀⟩, hopen⟩ := CommitteeState.mem_getOpenSessions.mp hq
    obtain ⟨hmem, -⟩ := h.content.intents r₀ s₀ hs₀ _ intent hheld
    refine ⟨fun i hi hid => h.same i hi intent hmem hid, ?_⟩
    intro r s hs hid
    have hr := h.content.once r r₀ s s₀ hs hs₀ _ hid
      (OrderedMap.mem_keys.mpr ⟨intent, hheld⟩)
    subst hr
    rw [CommitteeState.cell_inj hs hs₀]
    exact hopen

/-- A submission under a fresh id, or of the same intent, keeps every
use. -/
theorem submitted (h : Intact cfg subs w) {intent : MpcIntent}
    {clock : Clock} {committee : CommitteeState Plain} {sid : String}
    (hadd : w.committee.addIntent intent clock = (committee, sid))
    (hclean : w.committee.intentToSession.get intent.intentId = none
      ∨ ∃ q ∈ w.committee.getOpenSessions,
          q.2.intents.get intent.intentId = some intent) :
    Intact cfg (subs ++ [intent])
      { w with
        committee
        inFlight := w.inFlight ++ distributeShares cfg intent } := by
  obtain ⟨hsame, hopen⟩ := h.of_clean hclean
  have hsub : subs ⊆ subs ++ [intent] := List.subset_append_left ..
  have hmem : ∀ i, i ∈ subs ++ [intent] → i ∈ subs ∨ i = intent := by
    intro i hi
    rcases List.mem_append.mp hi with hi | hi
    · exact Or.inl hi
    · exact Or.inr (List.mem_singleton.mp hi)
  have hmap : ∃ sid', committee.intentToSession
      = w.committee.intentToSession.set intent.intentId sid' := by
    cases CommitteeState.added_addIntent hadd with
    | found hs ho => exact ⟨_, rfl⟩
    | created hnone => exact ⟨_, rfl⟩
  refine ⟨h.protocol.submitted hadd _, ?_, ?_,
    h.content.add h.protocol.orderly hadd hopen, ?_, ?_, ?_⟩
  · intro i hi
    obtain ⟨sid', hmap⟩ := hmap
    show committee.intentToSession.get i.intentId ≠ none
    rw [hmap, OrderedMap.get_set]
    by_cases hid : intent.intentId = i.intentId
    · rw [if_pos hid]
      exact Option.some_ne_none sid'
    · rw [if_neg hid]
      rcases hmem i hi with hi | rfl
      · exact h.registered i hi
      · exact absurd rfl hid
  · intro i hi j hj hid
    rcases hmem i hi with hi' | hi'
    · rcases hmem j hj with hj' | hj'
      · exact h.same i hi' j hj' hid
      · exact (hsame i hi' (hj' ▸ hid)).trans hj'.symm
    · rcases hmem j hj with hj' | hj'
      · exact hi'.trans (hsame j hj' (hi' ▸ hid.symm)).symm
      · exact hi'.trans hj'.symm
  · intro d hd
    rcases List.mem_append.mp hd with hd | hd
    · exact (h.inFlight d hd).mono hsub
    · obtain ⟨hmode, hpath, hshare⟩ := sent_distributeShares hd
      exact ⟨hmode, intent, by simp, hpath, hshare⟩
  · exact fun store hstore id share hget =>
      (h.stores store hstore id share hget).mono hsub
  · exact fun u hu => (h.uses u hu).mono hsub

/-- Content after a stretch of a round, and what the stretch used. -/
theorem stretch (h : Intact cfg subs w) {r : Ref} {s : SessionState Plain}
    {p : Progress Plain} (hs : w.committee.heap[r]? = some s)
    (hp : p.Sound s) :
    (w.committee.put r p.session).Content subs
      ∧ ∀ u ∈ w.uses ++ p.uses, u.Of subs := by
  refine ⟨h.content.put hs hp.keeps, fun u hu => ?_⟩
  rcases List.mem_append.mp hu with hu | hu
  · exact h.uses u hu
  · exact (hp.uses u hu).of h.content hs

/-- A round that starts reads its session's intents. -/
theorem started (h : Intact cfg subs w) {batchId : String} {r : Ref}
    {s : SessionState Plain} {rest : Option (List Ref)}
    {ticks : List (List Ref)} {p : Progress Plain}
    (hs : w.committee.heap[r]? = some s) (ht : Trigger w r s rest ticks)
    (hp : cfg.start batchId s = .ok p) :
    Intact cfg subs (World.startRound { w with ticks } r rest p) := by
  obtain ⟨hopen, -, -⟩ := h.protocol.trigger hs ht
  have hbatch := (h.protocol.orderly.opens r s hs hopen).2
  obtain ⟨hcontent, huses⟩ := h.stretch hs (Config.start_sound hbatch hp)
  exact ⟨h.protocol.started hs ht hp, h.registered, h.same, hcontent,
    h.inFlight, h.stores, huses⟩

/-- A round that goes on uses what it read. -/
theorem continued (h : Intact cfg subs w) {k : ℕ} {batchId : String}
    {rd : Round Plain} {s : SessionState Plain} {p : Progress Plain}
    (hrd : w.rounds[k]? = some rd)
    (hs : w.committee.heap[rd.session]? = some s)
    (hp : cfg.continue batchId s rd.phase = some p) :
    Intact cfg subs (w.continueRound k rd p) := by
  obtain ⟨hcontent, huses⟩ :=
    h.stretch hs (h.protocol.continue_sound hrd hs hp)
  exact ⟨h.protocol.continued hrd hs hp, h.registered, h.same, hcontent,
    h.inFlight, h.stores, huses⟩

/-- A node stores a share that was sent. -/
theorem delivered (h : Intact cfg subs w) {k : ℕ} {d : Delivery}
    {store : OrderedMap String EncryptedShare}
    (hd : w.inFlight[k]? = some d)
    (hstore : w.stores[d.node]? = some store)
    (hprotocol : Protocol
      { w with
        inFlight := w.inFlight.eraseIdx k
        stores := w.stores.set d.node (store.set d.intentId d.share) }) :
    Intact cfg subs
      { w with
        inFlight := w.inFlight.eraseIdx k
        stores := w.stores.set d.node (store.set d.intentId d.share) } := by
  refine ⟨hprotocol, h.registered, h.same, h.content, ?_, ?_, h.uses⟩
  · exact fun d' hd' => h.inFlight d' (List.mem_of_mem_eraseIdx hd')
  · intro store' hstore' id share hget
    rcases List.mem_or_eq_of_mem_set hstore' with hold | rfl
    · exact h.stores store' hold id share hget
    · rw [OrderedMap.get_set] at hget
      by_cases hid : d.intentId = id
      · rw [if_pos hid] at hget
        injection hget with hget
        rw [← hid, ← hget]
        exact h.inFlight d (List.mem_of_getElem? hd)
      · rw [if_neg hid] at hget
        exact h.stores store (List.mem_of_getElem? hstore) id share hget

/-- A node decrypts under the ids it is asked about, and those are
submitted; with the paths apart what it keeps there is theirs. -/
theorem answered (h : Intact cfg subs w) (hpaths : PathsApart cfg subs)
    {k : ℕ} {rd : Round Plain} {phase : Phase Plain} {uses : List Use}
    (hrd : w.rounds[k]? = some rd) (hphase : rd.phase.Answered phase)
    (huses : ∀ u ∈ uses, ∃ store ∈ w.stores, ∃ id ∈ rd.phase.asked,
      ∃ share, store.get id = some share ∧ u = .decrypted id share) :
    Intact cfg subs
      { w with
        rounds := w.rounds.set k { rd with phase }
        uses := w.uses ++ uses } := by
  refine ⟨h.protocol.answered hrd hphase _, h.registered, h.same,
    h.content, h.inFlight, h.stores, fun u hu => ?_⟩
  rcases List.mem_append.mp hu with hu | hu
  · exact h.uses u hu
  · obtain ⟨store, hstore, id, hid, share, hget, rfl⟩ := huses u hu
    obtain ⟨s, hs, hsound⟩ :=
      h.protocol.rounds rd (List.mem_of_getElem? hrd)
    obtain ⟨j, hj⟩ := OrderedMap.mem_keys.mp (hsound.asked id hid)
    obtain ⟨hjmem, hjid⟩ := h.content.intents _ s hs id j hj
    obtain ⟨hmode, i, hi, hpath, hshare⟩ :=
      h.stores store hstore id share hget
    have hsame := hpaths hmode i hi j hjmem (hjid.symm ▸ hpath)
    exact ⟨i, hi, hsame.trans hjid, hshare⟩

/-- So in every event. -/
theorem next (h : Intact cfg subs w) {e : Event} {w' : World Plain}
    (hstep : Stepped cfg w e w') (hclean : Clean ⟨w, e, w'⟩)
    (hpaths : PathsApart cfg subs) :
    Intact cfg (subs ++ (e.submission.map Prod.fst).toList) w' := by
  have hquiet : e.submission = none → Intact cfg subs w' →
      Intact cfg (subs ++ (e.submission.map Prod.fst).toList) w' := by
    intro he h'
    rw [he]
    exact (List.append_nil subs).symm ▸ h'
  have hprotocol := h.protocol.next hstep
  cases hstep with
  | submitted hadd => exact h.submitted hadd (hclean _ rfl)
  | started he hs ht hp => exact hquiet he (h.started hs ht hp)
  | idle he ht =>
      exact hquiet he ⟨hprotocol, h.registered, h.same, h.content,
        h.inFlight, h.stores, h.uses⟩
  | delivered hd hstore =>
      exact hquiet rfl (h.delivered hd hstore hprotocol)
  | answered he hrd hphase huses =>
      exact hquiet he (h.answered hpaths hrd hphase huses)
  | continued hrd hs hp => exact hquiet rfl (h.continued hrd hs hp)

end Intact

/-- The submissions of a longer history. -/
theorem submissions_concat (h : List (Transition (World Plain) Event))
    (t : Transition (World Plain) Event) :
    submissions (h ++ [t])
      = submissions h ++ (t.event.submission.map Prod.fst).toList := by
  rw [submissions, List.filterMap_append]
  cases he : t.event.submission <;> simp [submissions, he]

/-- The invariant of every run of clean submissions. -/
theorem intact_run {cfg : Config Key Plain} {es : List Event}
    (hclean : ∀ t ∈ accepted (step cfg) (World.boot cfg) es, Clean t)
    (hpaths : PathsApart cfg
      (submissions (accepted (step cfg) (World.boot cfg) es))) :
    Intact cfg (submissions (accepted (step cfg) (World.boot cfg) es))
      (run (step cfg) (World.boot cfg) es) := by
  refine history_induction_of Clean
    (fun h w => PathsApart cfg (submissions h) →
      Intact cfg (submissions h) w)
    (fun _ => Intact.boot cfg) ?_ es hclean hpaths
  intro h w w' e ih hs _ ht hpaths
  rw [submissions_concat] at hpaths ⊢
  have hpre : PathsApart cfg (submissions h) := fun hmode i hi j hj =>
    hpaths hmode i (List.mem_append_left _ hi) j
      (List.mem_append_left _ hj)
  exact (ih hpre).next (step_cases hs) ht hpre

/-- Where equal ids mean equal submissions, any is the first. -/
theorem Use.Of.agrees {subs : List MpcIntent} {u : Use}
    (hsame : ∀ i ∈ subs, ∀ j ∈ subs, i.intentId = j.intentId → i = j)
    (h : u.Of subs) : u.Agrees subs := by
  have hfirst : ∀ i ∈ subs, firstSubmission subs i.intentId = some i := by
    intro i hi
    cases hf : firstSubmission subs i.intentId with
    | none =>
        have hnone := List.find?_eq_none.mp hf i hi
        simp at hnone
    | some j =>
        have hj : j.intentId = i.intentId := by
          simpa using List.find?_some hf
        rw [hsame j (List.mem_of_find?_eq_some hf) i hi hj]
  cases u with
  | decrypted id share =>
      obtain ⟨i, hi, rfl, hshare⟩ := h
      exact ⟨i, hfirst i hi, hshare⟩
  | matched row =>
      obtain ⟨i, hi, hid, hassets⟩ := h
      exact ⟨i, hid ▸ hfirst i hi, hassets⟩

/-- What a round has signed it has matched. -/
theorem signedIds_cases (rd : Round Plain) :
    rd.signedIds = [] ∨ rd.signedIds
      = rd.phase.matchResults.flatMap MatchResult.ids := by
  unfold Round.signedIds
  cases rd.phase with
  | decrypting intentIds answers => exact Or.inl rfl
  | signing batchId matchResults batchHash answers => exact Or.inl rfl
  | returned result =>
      cases result with
      | ok batch => exact Or.inr rfl
      | failed reason => exact Or.inl rfl
      | threw => exact Or.inl rfl

/-- Rounds are on different sessions, and different sessions have
different ids. -/
theorem signedIds_nodup {w : World Plain} {subs : List MpcIntent}
    (hp : Protocol w) (hc : w.committee.Content subs) :
    (w.rounds.flatMap Round.signedIds).Nodup := by
  have hin : ∀ rd ∈ w.rounds, rd.signedIds.Nodup
      ∧ ∃ s, w.committee.heap[rd.session]? = some s
          ∧ ∀ id ∈ rd.signedIds, id ∈ s.intents.keys := by
    intro rd hrd
    obtain ⟨s, hs, hsound⟩ := hp.rounds rd hrd
    rcases signedIds_cases rd with hids | hids <;> rw [hids]
    · exact ⟨List.nodup_nil, s, hs, fun id hid => by cases hid⟩
    · exact ⟨hsound.nodup, s, hs, hsound.subset⟩
  refine List.nodup_flatMap.mpr ⟨fun rd hrd => (hin rd hrd).1, ?_⟩
  have hpairs := List.pairwise_map.mp hp.distinct
  refine hpairs.imp_of_mem ?_
  intro rd rd' hrd hrd' hne id hid hid'
  obtain ⟨-, s, hs, hkeys⟩ := hin rd hrd
  obtain ⟨-, s', hs', hkeys'⟩ := hin rd' hrd'
  exact hne (hc.once _ _ s s' hs hs' id (hkeys id hid) (hkeys' id hid'))

/-- In every run whose submissions are all clean, an intent id means the
one intent first accepted under it, and is matched at most once. -/
theorem intents_mean (cfg : Config Key Plain) (es : List Event)
    (hclean : ∀ t ∈ accepted (step cfg) (World.boot cfg) es, Clean t)
    (hpaths : PathsApart cfg
      (submissions (accepted (step cfg) (World.boot cfg) es))) :
    IntentsMean cfg es := by
  have h := intact_run hclean hpaths
  exact ⟨fun u hu => (h.uses u hu).agrees h.same,
    signedIds_nodup h.protocol h.content⟩

/-- Two intents cross in the standalone deployment, where two of three
nodes answer; the first is submitted again while the session is open. -/
def Demo.crossing : List Event :=
  [.submit (Demo.intent "a" "X" "Y" "....") (Demo.clockAt 7),
   .submit (Demo.intent "a" "X" "Y" "....") (Demo.clockAt 8),
   .submit (Demo.intent "b" "Y" "X" "......") (Demo.clockAt 9),
   .deliver 0, .deliver 0, .deliver 4, .deliver 4,
   .requestMatch "session-7" "", .answerDecrypt 0 0, .loseAnswer 0 2,
   .answerDecrypt 0 1, .settle 0 "batch", .answerSign 0 2,
   .loseAnswer 0 1, .answerSign 0 0, .settle 0 ""]

/-- Two intents under ids of their own. -/
theorem Demo.crossing_clean :
    (∀ t ∈ accepted (step Demo.standalone) (World.boot Demo.standalone)
        Demo.crossing, Clean t)
      ∧ (run (step Demo.standalone) (World.boot Demo.standalone)
          Demo.crossing).rounds.flatMap Round.signedIds = ["a", "b"] := by
  decide +kernel

/-- They are matched as they were submitted. -/
theorem crossing_means : IntentsMean Demo.standalone Demo.crossing
    ∧ (run (step Demo.standalone) (World.boot Demo.standalone)
        Demo.crossing).rounds.flatMap Round.signedIds = ["a", "b"] := by
  refine ⟨intents_mean Demo.standalone Demo.crossing
    Demo.crossing_clean.1 ?_, Demo.crossing_clean.2⟩
  intro _ i _ j _ hpath
  injection hpath

/-- An intent that was matched is submitted again, and matched again. -/
def Demo.resubmission : List Event :=
  [.submit (Demo.intent "a" "X" "Y" "....") (Demo.clockAt 7),
   .submit (Demo.intent "b" "Y" "X" "....") (Demo.clockAt 8),
   .tick "first",
   .submit (Demo.intent "a" "X" "Y" "....") (Demo.clockAt 9),
   .submit (Demo.intent "c" "Y" "X" "....") (Demo.clockAt 10),
   .tick "second"]

/-- An id that was matched is submitted again, and matched again. -/
theorem Demo.resubmission_ids :
    (run (step Demo.combined) (World.boot Demo.combined)
      Demo.resubmission).rounds.flatMap Round.signedIds
        = ["a", "b", "a", "c"] := by
  decide +kernel

/-- So it means two intents. -/
theorem id_matched_twice :
    ¬IntentsMean Demo.combined Demo.resubmission := by
  intro h
  have hnodup := h.2
  rw [Demo.resubmission_ids] at hnodup
  exact absurd hnodup (by decide)

end Lumix.Committee
