/-
The session protocol: at most one session is open, statuses only move
forward, and a session gets one round and one batch.

The only guard is the status, read when a round is triggered and written
by the round itself. Between the two there is no suspension, and that is
the whole argument: a request checks the status in the stretch that
starts the round, and a timer callback starts a round in the stretch
that read its list or goes on with what is left of a list of one.

`Orderly` is what the maps always satisfy, `Protocol` ties the rounds
and the suspended callbacks to it. `Follows` is what one step does to a
session, whichever it is.
-/
import Mathlib.Logic.Relation
import Lumix.Committee.Server

namespace Lumix.Committee

variable {Key Plain : Type}

-- ============================================================ the maps

/-- An id leads to the session of that id; a session that is open is
found under its id and has no batch; at most one session is open. -/
structure CommitteeState.Orderly (c : CommitteeState Plain) : Prop where
  keyed : ∀ id r, c.sessions.get id = some r →
    ∃ s, c.heap[r]? = some s ∧ s.sessionId = id
  opens : ∀ (r : Ref) s, c.heap[r]? = some s → s.status = .opened →
    c.sessions.get s.sessionId = some r ∧ s.signedBatch = none
  unique : ∀ (r r' : Ref) s s', c.heap[r]? = some s →
    c.heap[r']? = some s' → s.status = .opened → s'.status = .opened →
    r = r'

namespace CommitteeState.Orderly

variable {c : CommitteeState Plain}

/-- There is nothing to begin with. -/
theorem empty : (CommitteeState.empty : CommitteeState Plain).Orderly where
  keyed := fun id r h => by cases h
  opens := fun r s h => by cases h
  unique := fun r r' s s' h => by cases h

/-- A cell may be overwritten by a session of the same id that is open
only if the old one was. -/
theorem put (h : c.Orderly) {r : Ref} {s : SessionState Plain}
    (hs : c.heap[r]? = some s) (s' : SessionState Plain)
    (hid : s'.sessionId = s.sessionId)
    (hopen : s'.status = .opened →
      s.status = .opened ∧ s'.signedBatch = s.signedBatch)
    (intents : OrderedMap String String) :
    ({ c with
       heap := c.heap.set r s'
       intentToSession := intents } : CommitteeState Plain).Orderly := by
  refine ⟨?_, ?_, ?_⟩
  · intro id r₁ hr₁
    obtain ⟨s₁, hs₁, hid₁⟩ := h.keyed id r₁ hr₁
    show ∃ s₂, (c.heap.set r s')[r₁]? = some s₂ ∧ s₂.sessionId = id
    rw [heap_put hs]
    by_cases hr : r = r₁
    · subst hr
      have hid₂ := cell_inj hs hs₁ ▸ hid
      exact ⟨s', if_pos rfl, hid₂.trans hid₁⟩
    · exact ⟨s₁, (if_neg hr).trans hs₁, hid₁⟩
  · intro r₁ s₁ hs₁ ho₁
    rcases cell_of_put hs hs₁ with ⟨rfl, rfl⟩ | ⟨-, hs₁⟩
    · obtain ⟨ho, hb⟩ := hopen ho₁
      obtain ⟨hmap, hnone⟩ := h.opens r₁ s hs ho
      exact ⟨hid ▸ hmap, hb.trans hnone⟩
    · exact h.opens r₁ s₁ hs₁ ho₁
  · have hback : ∀ (r₁ : Ref) s₁, (c.heap.set r s')[r₁]? = some s₁ →
        s₁.status = .opened →
        ∃ s₂, c.heap[r₁]? = some s₂ ∧ s₂.status = .opened := by
      intro r₁ s₁ hs₁ ho₁
      rcases cell_of_put hs hs₁ with ⟨rfl, rfl⟩ | ⟨-, hs₁⟩
      · exact ⟨s, hs, (hopen ho₁).1⟩
      · exact ⟨s₁, hs₁, ho₁⟩
    intro r₁ r₂ s₁ s₂ hs₁ hs₂ ho₁ ho₂
    obtain ⟨t₁, ht₁, hto₁⟩ := hback r₁ s₁ hs₁ ho₁
    obtain ⟨t₂, ht₂, hto₂⟩ := hback r₂ s₂ hs₂ ho₂
    exact h.unique r₁ r₂ t₁ t₂ ht₁ ht₂ hto₁ hto₂

/-- With no open session in the map there is none at all. -/
theorem not_opened (h : c.Orderly) (hnone : c.getOpenSessions = [])
    {r : Ref} {s : SessionState Plain} (hs : c.heap[r]? = some s) :
    s.status ≠ .opened := by
  intro ho
  have hmem : (r, s) ∈ c.getOpenSessions :=
    mem_getOpenSessions.mpr ⟨⟨⟨_, (h.opens r s hs ho).1⟩, hs⟩, ho⟩
  rw [hnone] at hmem
  cases hmem

/-- A new session under any id, when none is open. What the id led to is
not open, so nothing open is lost. -/
theorem create (h : c.Orderly) (hnone : c.getOpenSessions = [])
    {s : SessionState Plain} (hbatch : s.signedBatch = none)
    (intents : OrderedMap String String) :
    (⟨c.heap ++ [s], c.sessions.set s.sessionId c.heap.length, intents⟩ :
      CommitteeState Plain).Orderly := by
  have hcell : ∀ (r : Ref) s₁, (c.heap ++ [s])[r]? = some s₁ →
      s₁.status = .opened → r = c.heap.length ∧ s₁ = s := by
    intro r s₁ hs₁ ho₁
    rcases Nat.lt_trichotomy r c.heap.length with hlt | heq | hgt
    · rw [List.getElem?_append_left hlt] at hs₁
      exact absurd ho₁ (h.not_opened hnone hs₁)
    · subst heq
      rw [List.getElem?_concat_length] at hs₁
      injection hs₁ with hs₁
      exact ⟨rfl, hs₁.symm⟩
    · rw [List.getElem?_eq_none (by simp; omega)] at hs₁
      cases hs₁
  refine ⟨?_, ?_, ?_⟩
  · intro id r hr
    show ∃ s₁, (c.heap ++ [s])[r]? = some s₁ ∧ s₁.sessionId = id
    rw [OrderedMap.get_set] at hr
    by_cases hid : s.sessionId = id
    · rw [if_pos hid] at hr
      injection hr with hr
      subst hr
      exact ⟨s, List.getElem?_concat_length .., hid⟩
    · rw [if_neg hid] at hr
      obtain ⟨s₁, hs₁, hid₁⟩ := h.keyed id r hr
      obtain ⟨hlt, -⟩ := List.getElem?_eq_some_iff.mp hs₁
      exact ⟨s₁, (List.getElem?_append_left hlt).trans hs₁, hid₁⟩
  · intro r s₁ hs₁ ho₁
    obtain ⟨rfl, rfl⟩ := hcell r s₁ hs₁ ho₁
    exact ⟨OrderedMap.get_set_self .., hbatch⟩
  · intro r r' s₁ s₂ hs₁ hs₂ ho₁ ho₂
    exact (hcell r s₁ hs₁ ho₁).1.trans (hcell r' s₂ hs₂ ho₂).1.symm

/-- The list the timer reads has at most one entry, and that is open. -/
theorem openSessions_cons (h : c.Orderly) {r : Ref} {rest : List Ref}
    (hsuf : r :: rest <:+ c.getOpenSessions.map Prod.fst) :
    rest = [] ∧ ∃ s, c.heap[r]? = some s ∧ s.status = .opened := by
  have hopen : ∀ r ∈ c.getOpenSessions.map Prod.fst,
      ∃ s, c.heap[r]? = some s ∧ s.status = .opened := by
    intro r hr
    obtain ⟨p, hp, rfl⟩ := List.mem_map.mp hr
    obtain ⟨⟨-, hs⟩, ho⟩ := mem_getOpenSessions.mp hp
    exact ⟨p.2, hs, ho⟩
  have hvalues : c.sessions.values.Nodup := by
    refine OrderedMap.nodup_values fun id id' r hr hr' => ?_
    obtain ⟨s, hs, hid⟩ := h.keyed id r hr
    obtain ⟨s', hs', hid'⟩ := h.keyed id' r hr'
    rw [← hid, ← hid', cell_inj hs hs']
  have hrefs : (c.allSessions.map Prod.fst).Sublist c.sessions.values := by
    unfold allSessions
    induction c.sessions.values with
    | nil => exact List.Sublist.refl _
    | cons r l ih =>
        rw [List.filterMap_cons]
        cases hr : c.heap[r]? with
        | none => exact ih.cons r
        | some s => exact ih.cons_cons r
  have hnodup : (c.getOpenSessions.map Prod.fst).Nodup :=
    (hrefs.nodup hvalues).sublist (List.filter_sublist.map Prod.fst)
  obtain ⟨s, hs, ho⟩ := hopen r (hsuf.mem (List.mem_cons_self ..))
  refine ⟨?_, s, hs, ho⟩
  cases rest with
  | nil => rfl
  | cons r' rest =>
      obtain ⟨s', hs', ho'⟩ :=
        hopen r' (hsuf.mem (List.mem_cons_of_mem _ (List.mem_cons_self ..)))
      have hdistinct := hnodup.sublist hsuf.sublist
      rw [h.unique r r' s s' hs hs' ho ho'] at hdistinct
      exact absurd (List.mem_cons_self ..) (List.nodup_cons.mp hdistinct).1

end CommitteeState.Orderly

-- ========================================================== the rounds

/-- A round's phase fits its session. -/
def Round.Fits (c : CommitteeState Plain) (rd : Round Plain) : Prop :=
  ∃ s, c.heap[rd.session]? = some s ∧ rd.phase.Sound s

/-- What holds in every run: the sessions are in order, every round fits
its session and no session has two, and no tick waits in between. -/
structure Protocol (w : World Plain) : Prop where
  orderly : w.committee.Orderly
  rounds : ∀ rd ∈ w.rounds, rd.Fits w.committee
  distinct : (w.rounds.map Round.session).Nodup
  waiting : ∀ rd ∈ w.rounds, ∀ rest, rd.rest = some rest → rest = []
  ticks : ∀ left ∈ w.ticks, left = []

/-- A session with a round is not open. -/
theorem Phase.Stands.not_opened {s : SessionState Plain}
    {phase : Phase Plain} (h : phase.Stands s) : s.status ≠ .opened := by
  intro ho
  cases phase with
  | decrypting intentIds answers => rw [h.1] at ho; cases ho
  | signing batchId matchResults batchHash answers =>
      rw [h.1] at ho
      cases ho
  | returned result =>
      cases result <;> rw [h.1] at ho <;> cases ho

/-- A phase that can go on has its session "matching", without a
batch. -/
theorem Phase.Stands.of_continue {cfg : Config Key Plain}
    {batchId : String} {s s' : SessionState Plain} {phase : Phase Plain}
    {p : Progress Plain} (h : phase.Stands s)
    (hp : cfg.continue batchId s' phase = some p) :
    s.status = .matching ∧ s.signedBatch = none := by
  cases phase with
  | decrypting intentIds answers => exact h
  | signing batchId matchResults batchHash answers => exact h
  | returned result => cases hp

/-- An answer leaves a round as sound as it was. -/
theorem Phase.Answered.sound {s : SessionState Plain}
    {phase phase' : Phase Plain} (ha : phase.Answered phase')
    (h : phase.Sound s) : phase'.Sound s := by
  cases ha with
  | decrypting intentIds a a' => exact ⟨h.stands, h.asked, h.nodup, h.subset⟩
  | signing batchId matchResults batchHash a a' =>
      exact ⟨h.stands, h.asked, h.nodup, h.subset⟩

/-- A round starts sound, -/
theorem Config.start_sound {cfg : Config Key Plain} {batchId : String}
    {s : SessionState Plain} {p : Progress Plain}
    (hbatch : s.signedBatch = none) (hp : cfg.start batchId s = .ok p) :
    p.Sound s := by
  unfold Config.start at hp
  cases hm : cfg.mode with
  | combined =>
      rw [hm] at hp
      exact runMatchingRound_sound hbatch hp
  | standalone =>
      rw [hm] at hp
      exact startRemote_sound hbatch hp

/-- and goes on sound. -/
theorem Config.continue_sound {cfg : Config Key Plain} {batchId : String}
    {s : SessionState Plain} {phase : Phase Plain} {p : Progress Plain}
    (h : phase.Sound s) (hp : cfg.continue batchId s phase = some p) :
    p.Sound s := by
  obtain ⟨hstatus, hbatch⟩ := h.stands.of_continue hp
  cases phase with
  | decrypting intentIds answers =>
      unfold Config.continue at hp
      by_cases hall : answers.all Answer.settled
      · simp only [hall, if_true] at hp
        injection hp with hp
        rw [← hp]
        exact collectDecrypts_sound hstatus hbatch
      · simp only [hall] at hp
        cases hp
  | signing batchId' matchResults batchHash answers =>
      unfold Config.continue at hp
      by_cases hall : answers.all Answer.settled
      · simp only [hall, if_true] at hp
        injection hp with hp
        rw [← hp]
        exact collectSignatures_sound hbatch h.nodup h.subset
      · simp only [hall] at hp
        cases hp
  | returned result => cases hp

namespace Protocol

variable {w : World Plain}

/-- There is nothing to begin with. -/
theorem boot (cfg : Config Key Plain) : Protocol (World.boot cfg) where
  orderly := CommitteeState.Orderly.empty
  rounds := fun rd hrd => by cases hrd
  distinct := List.nodup_nil
  waiting := fun rd hrd => by cases hrd
  ticks := fun left hl => by cases hl

/-- A round is triggered on an open session only, and leaves its callback
nothing to do. -/
theorem trigger (h : Protocol w) {r : Ref} {s : SessionState Plain}
    {rest : Option (List Ref)} {ticks : List (List Ref)}
    (hs : w.committee.heap[r]? = some s) (ht : Trigger w r s rest ticks) :
    s.status = .opened ∧ (∀ l, rest = some l → l = [])
      ∧ ticks ⊆ w.ticks := by
  cases ht with
  | request hopen =>
      exact ⟨hopen, fun l hl => (by cases hl), List.Subset.refl _⟩
  | timer hsuf =>
      obtain ⟨hrest, s', hs', ho⟩ := h.orderly.openSessions_cons hsuf
      obtain rfl := CommitteeState.cell_inj hs hs'
      refine ⟨ho, fun l hl => ?_, List.Subset.refl _⟩
      injection hl with hl
      exact hl ▸ hrest
  | resumed hk hsuf =>
      have hnil := h.ticks _ (List.mem_of_getElem? hk)
      rw [hnil, List.suffix_nil] at hsuf
      cases hsuf

/-- The phase of a round fits whatever is in its session's cell. -/
theorem sound_at (h : Protocol w) {rd : Round Plain} (hrd : rd ∈ w.rounds)
    {s : SessionState Plain}
    (hs : w.committee.heap[rd.session]? = some s) : rd.phase.Sound s := by
  obtain ⟨s', hs', hsound⟩ := h.rounds rd hrd
  rw [CommitteeState.cell_inj hs hs']
  exact hsound

/-- The round of a session that is still open has not started. -/
theorem not_started (h : Protocol w) {r : Ref} {s : SessionState Plain}
    (hs : w.committee.heap[r]? = some s) (ho : s.status = .opened) :
    r ∉ w.rounds.map Round.session := by
  intro hr
  obtain ⟨rd, hrd, rfl⟩ := List.mem_map.mp hr
  exact (h.sound_at hrd hs).stands.not_opened ho

/-- The next stretch of a round is sound, whatever happened meanwhile. -/
theorem continue_sound (h : Protocol w) {cfg : Config Key Plain} {k : ℕ}
    {batchId : String} {rd : Round Plain} {s : SessionState Plain}
    {p : Progress Plain} (hrd : w.rounds[k]? = some rd)
    (hs : w.committee.heap[rd.session]? = some s)
    (hp : cfg.continue batchId s rd.phase = some p) : p.Sound s :=
  Config.continue_sound (h.sound_at (List.mem_of_getElem? hrd) hs) hp

/-- The other rounds do not notice what happens to a cell. -/
theorem fits_put {r : Ref} {s s' : SessionState Plain} {rd : Round Plain}
    {c : CommitteeState Plain} (hs : c.heap[r]? = some s)
    (hne : rd.session ≠ r) (h : rd.Fits c)
    (intents : OrderedMap String String) :
    rd.Fits { c with
      heap := c.heap.set r s', intentToSession := intents } := by
  obtain ⟨s₁, hs₁, hsound⟩ := h
  refine ⟨s₁, ?_, hsound⟩
  show (c.heap.set r s')[rd.session]? = some s₁
  rw [CommitteeState.heap_put hs, if_neg (Ne.symm hne)]
  exact hs₁

/-- What a round resumes is what waited for it. -/
theorem mem_resumed {rest : Option (List Ref)} {phase : Phase Plain}
    {left : List Ref} (h : left ∈ resumed rest phase) :
    rest = some left := by
  cases phase with
  | returned result =>
      cases result with
      | threw => cases h
      | ok batch => exact Option.mem_toList.mp h
      | failed reason => exact Option.mem_toList.mp h
  | decrypting intentIds answers => cases h
  | signing batchId matchResults batchHash answers => cases h

/-- A submission keeps it, -/
theorem submitted (h : Protocol w) {intent : MpcIntent} {clock : Clock}
    {committee : CommitteeState Plain} {sid : String}
    (hadd : w.committee.addIntent intent clock = (committee, sid))
    (inFlight : List Delivery) :
    Protocol { w with committee, inFlight } := by
  cases CommitteeState.added_addIntent hadd with
  | found hs hopen =>
      rename_i r s
      obtain ⟨-, hs⟩ := CommitteeState.mem_allSessions.mp hs
      have horderly := h.orderly.put hs (s.addIntent intent) rfl
        (fun ho => ⟨ho, rfl⟩)
        (w.committee.intentToSession.set intent.intentId s.sessionId)
      refine ⟨horderly, ?_, h.distinct, h.waiting, h.ticks⟩
      intro rd hrd
      have hne : rd.session ≠ r := fun heq =>
        h.not_started hs hopen (heq ▸ List.mem_map_of_mem hrd)
      exact fits_put hs hne (h.rounds rd hrd) _
  | created hnone =>
      refine ⟨h.orderly.create hnone rfl _, ?_, h.distinct, h.waiting,
        h.ticks⟩
      intro rd hrd
      obtain ⟨s, hs, hsound⟩ := h.rounds rd hrd
      obtain ⟨hlt, -⟩ := List.getElem?_eq_some_iff.mp hs
      exact ⟨s, (List.getElem?_append_left hlt).trans hs, hsound⟩

/-- a round that starts, -/
theorem started (h : Protocol w) {cfg : Config Key Plain}
    {batchId : String} {r : Ref} {s : SessionState Plain}
    {rest : Option (List Ref)} {ticks : List (List Ref)}
    {p : Progress Plain} (hs : w.committee.heap[r]? = some s)
    (ht : Trigger w r s rest ticks) (hp : cfg.start batchId s = .ok p) :
    Protocol (World.startRound { w with ticks } r rest p) := by
  obtain ⟨hopen, hrest, hticks⟩ := h.trigger hs ht
  have hsound := Config.start_sound (h.orderly.opens r s hs hopen).2 hp
  have hnew := h.not_started hs hopen
  refine ⟨?_, ?_, ?_, ?_, ?_⟩
  · refine h.orderly.put hs p.session hsound.keeps.sessionId (fun ho => ?_) _
    exact absurd ho hsound.phase.stands.not_opened
  · intro rd hrd
    rcases List.mem_append.mp hrd with hrd | hrd
    · have hne : rd.session ≠ r := fun heq =>
        hnew (heq ▸ List.mem_map_of_mem hrd)
      exact fits_put hs hne (h.rounds rd hrd) _
    · rw [List.mem_singleton.mp hrd]
      refine ⟨p.session, ?_, hsound.phase⟩
      show (w.committee.heap.set r p.session)[r]? = some p.session
      rw [CommitteeState.heap_put hs, if_pos rfl]
  · show ((w.rounds ++ [(⟨r, rest, p.phase⟩ : Round Plain)]).map
      Round.session).Nodup
    rw [List.map_append]
    exact List.concat_eq_append ▸ h.distinct.concat hnew
  · intro rd hrd
    rcases List.mem_append.mp hrd with hrd | hrd
    · exact h.waiting rd hrd
    · rw [List.mem_singleton.mp hrd]
      exact hrest
  · intro left hl
    rcases List.mem_append.mp hl with hl | hl
    · exact h.ticks left (hticks hl)
    · exact hrest left (mem_resumed hl)

/-- Rewriting the phase of the `k`-th round keeps the list of sessions. -/
theorem sessions_set {rounds : List (Round Plain)} {k : ℕ}
    {rd : Round Plain} (hrd : rounds[k]? = some rd)
    (phase : Phase Plain) :
    (rounds.set k { rd with phase }).map Round.session
      = rounds.map Round.session := by
  obtain ⟨hlt, hk⟩ := List.getElem?_eq_some_iff.mp hrd
  have hlt' : k < (rounds.map Round.session).length := by simpa using hlt
  have hself : (rounds.map Round.session)[k] = rd.session := by
    rw [List.getElem_map, hk]
  rw [List.map_set]
  show (rounds.map Round.session).set k rd.session = _
  rw [← hself]
  exact List.set_getElem_self hlt'

/-- The list of rounds with the `k`-th moved on: each is that one or an
old one. -/
theorem mem_rounds_set {rounds : List (Round Plain)} {k : ℕ}
    {rd rd' : Round Plain} (h : rd' ∈ rounds.set k rd) :
    rd' = rd ∨ ∃ j, j ≠ k ∧ rounds[j]? = some rd' := by
  obtain ⟨j, hj⟩ := List.mem_iff_getElem?.mp h
  rw [List.getElem?_set] at hj
  by_cases hjk : k = j
  · rw [if_pos hjk] at hj
    by_cases hlt : k < rounds.length
    · rw [if_pos hlt] at hj
      injection hj with hj
      exact Or.inl hj.symm
    · rw [if_neg hlt] at hj
      cases hj
  · rw [if_neg hjk] at hj
    exact Or.inr ⟨j, Ne.symm hjk, hj⟩

/-- Two rounds are on two sessions. -/
theorem session_ne (h : Protocol w) {j k : ℕ} {rd rd' : Round Plain}
    (hjk : j ≠ k) (hj : w.rounds[j]? = some rd)
    (hk : w.rounds[k]? = some rd') : rd.session ≠ rd'.session := by
  intro heq
  obtain ⟨hltj, hj⟩ := List.getElem?_eq_some_iff.mp hj
  obtain ⟨hltk, hk⟩ := List.getElem?_eq_some_iff.mp hk
  have hltj' : j < (w.rounds.map Round.session).length := by
    simpa using hltj
  have hltk' : k < (w.rounds.map Round.session).length := by
    simpa using hltk
  have hsame : (w.rounds.map Round.session)[j]
      = (w.rounds.map Round.session)[k] := by
    rw [List.getElem_map, List.getElem_map, hj, hk, heq]
  exact hjk ((h.distinct.getElem_inj_iff).mp hsame)

/-- a node that answers -/
theorem answered (h : Protocol w) {k : ℕ} {rd : Round Plain}
    {phase : Phase Plain} (hrd : w.rounds[k]? = some rd)
    (hphase : rd.phase.Answered phase) (uses : List Use) :
    Protocol { w with
      rounds := w.rounds.set k { rd with phase }, uses } := by
  have hmem := List.mem_of_getElem? hrd
  refine ⟨h.orderly, ?_, ?_, ?_, h.ticks⟩
  · intro rd' hrd'
    rcases mem_rounds_set hrd' with rfl | ⟨j, -, hj⟩
    · obtain ⟨s, hs, hsound⟩ := h.rounds rd hmem
      exact ⟨s, hs, hphase.sound hsound⟩
    · exact h.rounds rd' (List.mem_of_getElem? hj)
  · rw [sessions_set hrd]
    exact h.distinct
  · intro rd' hrd'
    rcases mem_rounds_set hrd' with rfl | ⟨j, -, hj⟩
    · exact h.waiting rd hmem
    · exact h.waiting rd' (List.mem_of_getElem? hj)

/-- and a round that goes on. -/
theorem continued (h : Protocol w) {cfg : Config Key Plain} {k : ℕ}
    {batchId : String} {rd : Round Plain} {s : SessionState Plain}
    {p : Progress Plain} (hrd : w.rounds[k]? = some rd)
    (hs : w.committee.heap[rd.session]? = some s)
    (hp : cfg.continue batchId s rd.phase = some p) :
    Protocol (w.continueRound k rd p) := by
  have hmem := List.mem_of_getElem? hrd
  have hsound := h.continue_sound hrd hs hp
  refine ⟨?_, ?_, ?_, ?_, ?_⟩
  · refine h.orderly.put hs p.session hsound.keeps.sessionId (fun ho => ?_) _
    exact absurd ho hsound.phase.stands.not_opened
  · intro rd' hrd'
    rcases mem_rounds_set hrd' with rfl | ⟨j, hjk, hj⟩
    · refine ⟨p.session, ?_, hsound.phase⟩
      show (w.committee.heap.set rd.session p.session)[rd.session]?
        = some p.session
      rw [CommitteeState.heap_put hs, if_pos rfl]
    · exact fits_put hs (h.session_ne hjk hj hrd)
        (h.rounds rd' (List.mem_of_getElem? hj)) _
  · show ((w.rounds.set k { rd with phase := p.phase }).map
      Round.session).Nodup
    rw [sessions_set hrd]
    exact h.distinct
  · intro rd' hrd'
    rcases mem_rounds_set hrd' with rfl | ⟨j, -, hj⟩
    · exact h.waiting rd hmem
    · exact h.waiting rd' (List.mem_of_getElem? hj)
  · intro left hl
    rcases List.mem_append.mp hl with hl | hl
    · exact h.ticks left hl
    · exact h.waiting rd hmem left (mem_resumed hl)

/-- So does every event. -/
theorem next (h : Protocol w) {cfg : Config Key Plain} {e : Event}
    {w' : World Plain} (hstep : Stepped cfg w e w') : Protocol w' := by
  cases hstep with
  | submitted hadd => exact h.submitted hadd _
  | started he hs ht hp => exact h.started hs ht hp
  | idle he ht =>
      exact ⟨h.orderly, h.rounds, h.distinct, h.waiting,
        fun left hl => h.ticks left (ht hl)⟩
  | delivered hd hstore =>
      exact ⟨h.orderly, h.rounds, h.distinct, h.waiting, h.ticks⟩
  | answered he hrd hphase huses => exact h.answered hrd hphase _
  | continued hrd hs hp => exact h.continued hrd hs hp

/-- The protocol holds in every state of every run. -/
theorem run (cfg : Config Key Plain) (es : List Event) :
    Protocol (Run.run (step cfg) (World.boot cfg) es) :=
  Run.run_induction Protocol (boot cfg)
    (fun _ _ _ h hs => h.next (step_cases hs)) es

end Protocol

-- ==================================================== what a step does

/-- The steps of a session. -/
inductive Status.Next : Status → Status → Prop
  | start : Next .opened .matching
  | sign : Next .matching .signed
  | fail : Next .matching .failed

/-- The moves of zero or more stretches of a round. -/
abbrev Status.Moves : Status → Status → Prop :=
  Relation.ReflTransGen Status.Next

/-- Where a round has left its session, it came to from `matching`. -/
theorem Phase.Stands.moves {s : SessionState Plain} {phase : Phase Plain}
    (h : phase.Stands s) : Status.Moves .matching s.status := by
  cases phase with
  | decrypting intentIds answers => exact h.1 ▸ .refl
  | signing batchId matchResults batchHash answers => exact h.1 ▸ .refl
  | returned result =>
      cases result with
      | ok batch => exact h.1 ▸ .single .sign
      | failed reason => exact h.1 ▸ .single .fail
      | threw => exact h.1 ▸ .refl

/-- A session later in a run: it keeps its id, a batch it has and the
ids of its intents, and its status has moved forward if at all. -/
structure Follows (s s' : SessionState Plain) : Prop where
  sessionId : s'.sessionId = s.sessionId
  status : Status.Moves s.status s'.status
  batch : ∀ b, s.signedBatch = some b → s'.signedBatch = some b
  intents : ∀ id ∈ s.intents.keys, id ∈ s'.intents.keys

/-- A session nobody touched. -/
theorem Follows.refl (s : SessionState Plain) : Follows s s :=
  ⟨rfl, .refl, fun _ hb => hb, fun _ hid => hid⟩

/-- Followed over two stretches. -/
theorem Follows.trans {s s' s'' : SessionState Plain} (h : Follows s s')
    (h' : Follows s' s'') : Follows s s'' where
  sessionId := h'.sessionId.trans h.sessionId
  status := h.status.trans h'.status
  batch := fun b hb => h'.batch b (h.batch b hb)
  intents := fun id hid => h'.intents id (h.intents id hid)

/-- A further intent. -/
theorem follows_addIntent (s : SessionState Plain) (intent : MpcIntent) :
    Follows s (s.addIntent intent) where
  sessionId := rfl
  status := .refl
  batch := fun _ hb => hb
  intents := by
    intro id hid
    obtain ⟨i, hi⟩ := OrderedMap.mem_keys.mp hid
    rw [OrderedMap.mem_keys, SessionState.get_intents_addIntent]
    by_cases heq : intent.intentId = id
    · exact ⟨intent, if_pos heq⟩
    · exact ⟨i, (if_neg heq).trans hi⟩

/-- A stretch of a round, from a session without a batch. -/
theorem Progress.Sound.follows {s : SessionState Plain}
    {p : Progress Plain} (h : p.Sound s) (hbatch : s.signedBatch = none)
    (hstatus : Status.Moves s.status .matching) : Follows s p.session where
  sessionId := h.keeps.sessionId
  status := hstatus.trans h.phase.stands.moves
  batch := fun b hb => by rw [hbatch] at hb; cases hb
  intents := fun id hid => h.keeps.intents ▸ hid

/-- Writing one session leaves the others. -/
theorem follows_put {c : CommitteeState Plain} {r : Ref}
    {s s' : SessionState Plain} (hs : c.heap[r]? = some s)
    (hf : Follows s s') {r₁ : Ref} {s₁ : SessionState Plain}
    (hs₁ : c.heap[r₁]? = some s₁) :
    ∃ s₂, (c.heap.set r s')[r₁]? = some s₂ ∧ Follows s₁ s₂ := by
  rw [CommitteeState.heap_put hs]
  by_cases hr : r = r₁
  · subst hr
    obtain rfl := CommitteeState.cell_inj hs hs₁
    exact ⟨s', if_pos rfl, hf⟩
  · exact ⟨s₁, (if_neg hr).trans hs₁, Follows.refl s₁⟩

namespace Protocol

variable {w w' : World Plain} {cfg : Config Key Plain} {e : Event}

/-- Every session object survives a step and moves forward. -/
theorem follows (h : Protocol w) (hstep : Stepped cfg w e w') {r : Ref}
    {s : SessionState Plain} (hs : w.committee.heap[r]? = some s) :
    ∃ s', w'.committee.heap[r]? = some s' ∧ Follows s s' := by
  cases hstep with
  | submitted hadd =>
      cases CommitteeState.added_addIntent hadd with
      | found hmem hopen =>
          obtain ⟨-, hs₁⟩ := CommitteeState.mem_allSessions.mp hmem
          exact follows_put hs₁ (follows_addIntent _ _) hs
      | created hnone =>
          obtain ⟨hlt, -⟩ := List.getElem?_eq_some_iff.mp hs
          exact ⟨s, (List.getElem?_append_left hlt).trans hs,
            Follows.refl s⟩
  | started he hs₁ ht hp =>
      obtain ⟨hopen, -, -⟩ := h.trigger hs₁ ht
      have hbatch := (h.orderly.opens _ _ hs₁ hopen).2
      exact follows_put hs₁ ((Config.start_sound hbatch hp).follows hbatch
        (hopen ▸ .single .start)) hs
  | idle he ht => exact ⟨s, hs, Follows.refl s⟩
  | delivered hd hstore => exact ⟨s, hs, Follows.refl s⟩
  | answered he hrd hphase huses => exact ⟨s, hs, Follows.refl s⟩
  | continued hrd hs₁ hp =>
      have hsound := h.sound_at (List.mem_of_getElem? hrd) hs₁
      obtain ⟨hstatus, hbatch⟩ := hsound.stands.of_continue hp
      exact follows_put hs₁ ((Config.continue_sound hsound hp).follows
        hbatch (hstatus ▸ .refl)) hs

/-- A session that a step adds is open, has no batch, and is found under
its id. -/
theorem fresh_opened (hstep : Stepped cfg w e w') {r : Ref}
    {s' : SessionState Plain} (hr : w.committee.heap[r]? = none)
    (hs' : w'.committee.heap[r]? = some s') :
    (s'.status = .opened ∧ s'.signedBatch = none)
      ∧ w'.committee.sessions.get s'.sessionId = some r := by
  have hset : ∀ (r₁ : Ref) (s₁ : SessionState Plain),
      (w.committee.heap.set r₁ s₁)[r]? ≠ some s' := by
    intro r₁ s₁ hs₁
    have hlen := List.getElem?_eq_none_iff.mp hr
    obtain ⟨hlt, -⟩ := List.getElem?_eq_some_iff.mp hs₁
    rw [List.length_set] at hlt
    omega
  cases hstep with
  | submitted hadd =>
      cases CommitteeState.added_addIntent hadd with
      | found hmem hopen => exact absurd hs' (hset _ _)
      | created hnone =>
          have hlen := List.getElem?_eq_none_iff.mp hr
          rw [List.getElem?_append_right hlen] at hs'
          obtain ⟨hlt, heq⟩ := List.getElem?_eq_some_iff.mp hs'
          have hlast : w.committee.heap.length = r := by
            rw [List.length_singleton] at hlt
            omega
          rw [← heq, List.getElem_singleton]
          exact ⟨⟨rfl, rfl⟩, hlast ▸ OrderedMap.get_set_self ..⟩
  | started he hs ht hp => exact absurd hs' (hset _ _)
  | idle he ht => rw [hr] at hs'; cases hs'
  | delivered hd hstore => rw [hr] at hs'; cases hs'
  | answered he hrd hphase huses => rw [hr] at hs'; cases hs'
  | continued hrd hs hp => exact absurd hs' (hset _ _)

/-- A submission leaves every session alone whose round has started. -/
theorem submit_frame (h : Protocol w) {intent : MpcIntent} {clock : Clock}
    (hstep : Stepped cfg w (.submit intent clock) w') {rd : Round Plain}
    (hrd : rd ∈ w.rounds) :
    w'.committee.heap[rd.session]? = w.committee.heap[rd.session]? := by
  cases hstep with
  | submitted hadd =>
      obtain ⟨s, hs, hsound⟩ := h.rounds rd hrd
      cases CommitteeState.added_addIntent hadd with
      | found hmem hopen =>
          rename_i r s₁
          obtain ⟨-, hs₁⟩ := CommitteeState.mem_allSessions.mp hmem
          have hne : rd.session ≠ r := fun heq =>
            h.not_started hs₁ hopen (heq ▸ List.mem_map_of_mem hrd)
          exact (CommitteeState.heap_put hs₁ _ _).trans
            (if_neg (Ne.symm hne))
      | created hnone =>
          obtain ⟨hlt, -⟩ := List.getElem?_eq_some_iff.mp hs
          exact List.getElem?_append_left hlt
  | started he hs ht hp => cases he
  | idle he ht => cases he
  | answered he hrd hphase huses => cases he

end Protocol

-- ======================================================= the protocol

/-- No two sessions are open. -/
def AtMostOneOpen (c : CommitteeState Plain) : Prop :=
  ∀ (r r' : Ref) s s', c.heap[r]? = some s → c.heap[r']? = some s' →
    s.status = .opened → s'.status = .opened → r = r'

/-- One transition respects the sessions: each moves forward and keeps
its batch, new ones are open, and a submission leaves the intents and
shares of a session alone once a round was started on it. -/
structure Respects (t : Run.Transition (World Plain) Event) : Prop where
  moves : ∀ (r : Ref) s, t.before.committee.heap[r]? = some s →
    ∃ s', t.after.committee.heap[r]? = some s'
      ∧ Status.Moves s.status s'.status
      ∧ ∀ b, s.signedBatch = some b → s'.signedBatch = some b
  opens : ∀ (r : Ref) s', t.before.committee.heap[r]? = none →
    t.after.committee.heap[r]? = some s' →
    s'.status = .opened ∧ s'.signedBatch = none
  frame : ∀ intent clock, t.event = .submit intent clock →
    ∀ rd ∈ t.before.rounds, ∃ s s',
      t.before.committee.heap[rd.session]? = some s
        ∧ t.after.committee.heap[rd.session]? = some s'
        ∧ s'.intents = s.intents ∧ s'.shares = s.shares

/-- In every run of either deployment, whatever interleaves: at most one
session is open, no session gets a second round, and every transition
respects the sessions. It takes no assumption on the ids of new
sessions. -/
theorem session_protocol (cfg : Config Key Plain) (es : List Event) :
    AtMostOneOpen (Run.run (step cfg) (World.boot cfg) es).committee
      ∧ ((Run.run (step cfg) (World.boot cfg) es).rounds.map
          Round.session).Nodup
      ∧ ∀ t ∈ Run.accepted (step cfg) (World.boot cfg) es,
          Respects t := by
  have h := Protocol.run cfg es
  refine ⟨h.orderly.unique, h.distinct, ?_⟩
  intro t ht
  obtain ⟨x, y, hxy⟩ := List.append_of_mem ht
  obtain ⟨es', -, hrun, hok⟩ := Run.accepted_split hxy
  have hbefore : Protocol t.before := hrun ▸ Protocol.run cfg es'
  have hstep := step_cases hok
  refine ⟨?_, ?_, ?_⟩
  · intro r s hs
    obtain ⟨s', hs', hf⟩ := hbefore.follows hstep hs
    exact ⟨s', hs', hf.status, hf.batch⟩
  · exact fun r s' hr hs' => (Protocol.fresh_opened hstep hr hs').1
  · intro intent clock he rd hrd
    rw [he] at hstep
    obtain ⟨s, hs, -⟩ := hbefore.rounds rd hrd
    exact ⟨s, s, hs, (hbefore.submit_frame hstep hrd).trans hs, rfl, rfl⟩

end Lumix.Committee
