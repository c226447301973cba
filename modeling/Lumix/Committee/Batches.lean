/-
Where the batch of a session and the intents of a session come from.

A session leaves "open" in the stretch that starts its round, so every
session that has left it has a round, and the phase of that round says
whether the session is signed and with what. The intents of a session
are the submitted ones: a round reads them and changes none.
-/
import Lumix.Committee.Protocol

namespace Lumix.Committee

variable {Key Plain : Type} {cfg : Config Key Plain}
  {w w' : World Plain} {e : Event}

-- ========================================================== the rounds

/-- A session that is no longer open has a round. -/
def Rounded (w : World Plain) : Prop :=
  ∀ (r : Ref) s, w.committee.heap[r]? = some s → s.status ≠ .opened →
    r ∈ w.rounds.map Round.session

theorem Rounded.boot (cfg : Config Key Plain) : Rounded (World.boot cfg) :=
  fun r s h => by cases h

theorem Rounded.submitted {c : CommitteeState Plain} (h : Rounded w)
    {intent : MpcIntent} {clock : Clock} {sid : String}
    (hadd : CommitteeState.Added w.committee intent clock c sid) :
    ∀ (r : Ref) s, c.heap[r]? = some s → s.status ≠ .opened →
      r ∈ w.rounds.map Round.session := by
  intro r s hs hstatus
  cases hadd with
  | found hmem hopen =>
      obtain ⟨-, hs₁⟩ := CommitteeState.mem_allSessions.mp hmem
      rcases CommitteeState.cell_of_put hs₁ hs with ⟨-, rfl⟩ | ⟨-, hs⟩
      · exact absurd hopen hstatus
      · exact h r s hs hstatus
  | created hnone =>
      rcases List.mem_append.mp (List.mem_of_getElem? hs) with hold | hnew
      · apply h r s ?_ hstatus
        rcases Nat.lt_or_ge r w.committee.heap.length with hlt | hge
        · exact (List.getElem?_append_left hlt).symm.trans hs
        · exfalso
          rw [List.getElem?_append_right hge] at hs
          have hlast := List.mem_of_getElem? hs
          rw [List.mem_singleton] at hlast
          exact hstatus (hlast ▸ rfl)
      · rw [List.mem_singleton.mp hnew] at hstatus
        exact absurd rfl hstatus

theorem Rounded.next (h : Rounded w) (hstep : Stepped cfg w e w') :
    Rounded w' := by
  cases hstep with
  | submitted hadd => exact h.submitted (CommitteeState.added_addIntent hadd)
  | started he hs ht hp =>
      intro r s hs' hstatus
      show r ∈ (w.rounds ++ [_]).map Round.session
      rw [List.map_append]
      rcases CommitteeState.cell_of_put hs hs' with ⟨rfl, -⟩ | ⟨-, hs'⟩
      · exact List.mem_append_right _ (List.mem_singleton_self _)
      · exact List.mem_append_left _ (h r s hs' hstatus)
  | idle he ht => exact h
  | delivered hd hstore => exact h
  | answered he hrd hphase huses =>
      intro r s hs hstatus
      show r ∈ (w.rounds.set _ _).map Round.session
      rw [Protocol.sessions_set hrd]
      exact h r s hs hstatus
  | continued hrd hs hp =>
      intro r s hs' hstatus
      show r ∈ (w.rounds.set _ _).map Round.session
      rw [Protocol.sessions_set hrd]
      rcases CommitteeState.cell_of_put hs hs' with ⟨rfl, -⟩ | ⟨-, hs'⟩
      · exact List.mem_map_of_mem (List.mem_of_getElem? hrd)
      · exact h r s hs' hstatus

/-- What a submission does to the sessions. -/
theorem Stepped.added {intent : MpcIntent} {clock : Clock}
    (hstep : Stepped cfg w (.submit intent clock) w') :
    ∃ sid, CommitteeState.Added w.committee intent clock w'.committee
      sid := by
  cases hstep with
  | submitted hadd => exact ⟨_, CommitteeState.added_addIntent hadd⟩
  | started he hs ht hp => cases he
  | idle he ht => cases he
  | answered he hrd hphase huses => cases he

/-- A submission touches no round. -/
theorem Stepped.submit_rounds {intent : MpcIntent} {clock : Clock}
    (hstep : Stepped cfg w (.submit intent clock) w') :
    w'.rounds = w.rounds := by
  cases hstep with
  | submitted hadd => rfl
  | started he hs ht hp => cases he
  | idle he ht => cases he
  | answered he hrd hphase huses => cases he

/-- A round that has returned is left alone. -/
theorem Stepped.returned_stays (hstep : Stepped cfg w e w') {k : ℕ}
    {rd : Round Plain} (hk : w.rounds[k]? = some rd)
    {result : CoordinatorResult} (hphase : rd.phase = .returned result) :
    w'.rounds[k]? = some rd := by
  have hset : ∀ (j : ℕ) (rd₁ rd₂ : Round Plain), w.rounds[j]? = some rd₁ →
      rd₁.phase ≠ .returned result →
      (w.rounds.set j rd₂)[k]? = some rd := by
    intro j rd₁ rd₂ hj hne
    by_cases hjk : j = k
    · subst hjk
      rw [hk] at hj
      injection hj with hj
      exact absurd (hj ▸ hphase) hne
    · exact (List.getElem?_set_ne hjk).trans hk
  cases hstep with
  | submitted hadd => exact hk
  | started he hs ht hp =>
      obtain ⟨hlt, -⟩ := List.getElem?_eq_some_iff.mp hk
      exact (List.getElem?_append_left hlt).trans hk
  | idle he ht => exact hk
  | delivered hd hstore => exact hk
  | answered he hrd hphase' huses =>
      refine hset _ _ _ hrd fun h => ?_
      rw [h] at hphase'
      cases hphase'
  | continued hrd hs hp =>
      refine hset _ _ _ hrd fun h => ?_
      rw [h] at hp
      cases hp

/-- The round of a signed session has returned its batch. -/
theorem Protocol.returned (h : Protocol w) (hr : Rounded w) {r : Ref}
    {s : SessionState Plain} (hs : w.committee.heap[r]? = some s)
    (hsigned : s.status = .signed) {batch : SignedMatchBatch}
    (hbatch : s.signedBatch = some batch) :
    ∃ rd ∈ w.rounds, rd.session = r
      ∧ rd.phase = .returned (.ok batch) := by
  have hopen : s.status ≠ .opened := by
    rw [hsigned]
    exact fun h => by cases h
  obtain ⟨rd, hrd, rfl⟩ := List.mem_map.mp (hr r s hs hopen)
  refine ⟨rd, hrd, rfl, ?_⟩
  have hstands := (h.sound_at hrd hs).stands
  cases hphase : rd.phase with
  | decrypting intentIds answers =>
      rw [hphase] at hstands
      exact absurd (hsigned.symm.trans hstands.1) (fun h => by cases h)
  | signing batchId matchResults batchHash answers =>
      rw [hphase] at hstands
      exact absurd (hsigned.symm.trans hstands.1) (fun h => by cases h)
  | returned result =>
      rw [hphase] at hstands
      cases result with
      | ok batch' =>
          have hsame := hbatch.symm.trans hstands.2
          injection hsame with hsame
          rw [hsame]
      | failed reason =>
          exact absurd (hsigned.symm.trans hstands.1) (fun h => by cases h)
      | threw =>
          exact absurd (hsigned.symm.trans hstands.1) (fun h => by cases h)

-- ========================================================= the intents

/-- No step but a submission touches the intents of a session. -/
theorem Protocol.intents_kept (h : Protocol w)
    (hstep : Stepped cfg w e w') (he : e.submission = none) {r : Ref}
    {s' : SessionState Plain} (hs' : w'.committee.heap[r]? = some s') :
    ∃ s, w.committee.heap[r]? = some s ∧ s'.intents = s.intents := by
  cases hstep with
  | submitted hadd => cases he
  | started he hs ht hp =>
      obtain ⟨hopen, -, -⟩ := h.trigger hs ht
      have hsound := Config.start_sound (h.orderly.opens _ _ hs hopen).2 hp
      rcases CommitteeState.cell_of_put hs hs' with ⟨rfl, rfl⟩ | ⟨-, hs'⟩
      · exact ⟨_, hs, hsound.keeps.intents⟩
      · exact ⟨s', hs', rfl⟩
  | idle he ht => exact ⟨s', hs', rfl⟩
  | delivered hd hstore => exact ⟨s', hs', rfl⟩
  | answered he hrd hphase huses => exact ⟨s', hs', rfl⟩
  | continued hrd hs hp =>
      have hsound := h.continue_sound hrd hs hp
      rcases CommitteeState.cell_of_put hs hs' with ⟨rfl, rfl⟩ | ⟨-, hs'⟩
      · exact ⟨_, hs, hsound.keeps.intents⟩
      · exact ⟨s', hs', rfl⟩

/-- A submission adds its own intent and no other. -/
theorem intents_added {c c' : CommitteeState Plain} {intent : MpcIntent}
    {clock : Clock} {sid : String}
    (hadd : CommitteeState.Added c intent clock c' sid) {r : Ref}
    {s' : SessionState Plain} (hs' : c'.heap[r]? = some s') {id : String}
    (hid : id ∈ s'.intents.keys) :
    id = intent.intentId
      ∨ ∃ s, c.heap[r]? = some s ∧ id ∈ s.intents.keys := by
  obtain ⟨r₁, s₁, hlanded⟩ := hadd.landed
  by_cases hr : r = r₁
  · subst hr
    obtain rfl := CommitteeState.cell_inj hs' hlanded.here
    obtain ⟨i, hi⟩ := OrderedMap.mem_keys.mp hid
    rw [SessionState.get_intents_addIntent] at hi
    by_cases heq : intent.intentId = id
    · exact Or.inl heq.symm
    · rw [if_neg heq] at hi
      rcases hlanded.origin with ⟨hs₁, -⟩ | ⟨-, hnone, -⟩
      · exact Or.inr ⟨s₁, hs₁, OrderedMap.mem_keys.mpr ⟨i, hi⟩⟩
      · rw [hnone] at hi
        cases hi
  · rw [hlanded.elsewhere r hr] at hs'
    exact Or.inr ⟨s', hs', hid⟩

/-- A batch matches intents of its session. -/
theorem Protocol.batch_subset (h : Protocol w) {rd : Round Plain}
    (hrd : rd ∈ w.rounds) {batch : SignedMatchBatch}
    (hphase : rd.phase = .returned (.ok batch)) :
    ∃ s, w.committee.heap[rd.session]? = some s
      ∧ ∀ id ∈ batch.matchResults.flatMap MatchResult.ids,
          id ∈ s.intents.keys := by
  obtain ⟨s, hs, hsound⟩ := h.rounds rd hrd
  refine ⟨s, hs, ?_⟩
  have hsubset := hsound.subset
  rw [hphase] at hsubset
  exact hsubset

end Lumix.Committee
