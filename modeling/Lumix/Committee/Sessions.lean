/-
Whether a session, once handed out, stays.

The id of a session is the millisecond it was created in, and the map is
overwritten where the id is in use. Nothing else ever takes a session
out of the map, so sessions and signed batches are kept exactly as long
as no two sessions are created in the same millisecond
(`sessions_kept_iff`). Which references an id leads to only grows
(`Later`): an overwritten session never comes back.
-/
import Mathlib
import Lumix.Committee.Protocol

namespace Lumix.Committee

open Run Exec

variable {Key Plain : Type}

-- ====================================================== the statement

/-- The session id a submission returns to the client. -/
def response (t : Transition (World Plain) Event) : Option String :=
  t.event.submission.map fun p =>
    (t.before.committee.addIntent p.1 p.2).2

/-- The clock reading a session is created at, by a submission that
finds none open. -/
def creation (t : Transition (World Plain) Event) : Option ℤ :=
  t.event.submission.bind fun p =>
    if t.before.committee.getOpenSessions.isEmpty then some p.2.now
    else none

/-- At the end of the run, every session a client was told of is there
under its id, the same object with the intents it had, and every batch
that was once signed is served. -/
def SessionsKept (cfg : Config Key Plain) (es : List Event) : Prop :=
  ∀ t ∈ accepted (step cfg) (World.boot cfg) es,
    (∀ sid, response t = some sid → ∃ r s s',
      t.after.committee.getSession sid = some (r, s)
        ∧ (run (step cfg) (World.boot cfg) es).committee.getSession sid
          = some (r, s')
        ∧ ∀ id ∈ s.intents.keys, id ∈ s'.intents.keys)
      ∧ ∀ (r : Ref) s b, t.after.committee.heap[r]? = some s →
          s.status = .signed → s.signedBatch = some b →
          b ∈ (run (step cfg) (World.boot cfg) es).committee.batches

-- ===================================================== the map of ids

/-- Names of sessions are as different as the clock's readings. -/
theorem sessionName_injective : Function.Injective sessionName := by
  intro m n h
  exact Int.repr_injective ((String.append_right_inj "session-").mp h)

/-- A step leaves the map of ids alone, or creates a session. -/
theorem sessions_next {cfg : Config Key Plain} {w w' : World Plain}
    {e : Event} (h : Stepped cfg w e w') :
    (creation ⟨w, e, w'⟩ = none
        ∧ w'.committee.sessions = w.committee.sessions)
      ∨ ∃ now, creation ⟨w, e, w'⟩ = some now
          ∧ w'.committee.sessions = w.committee.sessions.set
              (sessionName now) w.committee.heap.length := by
  have hother : e.submission = none → creation ⟨w, e, w'⟩ = none := by
    intro he
    rw [creation, he]
    rfl
  cases h with
  | submitted hadd =>
      rename_i intent clock committee sid
      cases CommitteeState.added_addIntent hadd with
      | found hs hopen =>
          have hne := CommitteeState.getOpenSessions_ne_nil hs hopen
          exact Or.inl ⟨if_neg (by simpa using hne), rfl⟩
      | created hnone =>
          exact Or.inr ⟨clock.now, if_pos (by simp [hnone]), rfl⟩
  | started he hs ht hp => exact Or.inl ⟨hother he, rfl⟩
  | idle he ht => exact Or.inl ⟨hother he, rfl⟩
  | delivered hd hstore => exact Or.inl ⟨rfl, rfl⟩
  | answered he hrd hphase huses => exact Or.inl ⟨hother he, rfl⟩
  | continued hrd hs hp => exact Or.inl ⟨rfl, rfl⟩

/-- A creation is a submission that returns the new session's id. -/
theorem response_of_creation {t : Transition (World Plain) Event}
    {now : ℤ} (h : creation t = some now) :
    response t = some (sessionName now) := by
  unfold creation at h
  obtain ⟨⟨intent, clock⟩, he, h⟩ := Option.bind_eq_some_iff.mp h
  by_cases hempty : t.before.committee.getOpenSessions.isEmpty
  · rw [if_pos hempty] at h
    injection h with h
    rw [response, he, Option.map_some, ← h]
    show some (t.before.committee.addIntent intent clock).2
      = some (sessionName clock.now)
    rcases hadd : t.before.committee.addIntent intent clock with
      ⟨committee, sid⟩
    cases CommitteeState.added_addIntent hadd with
    | found hs hopen =>
        exact absurd (List.isEmpty_iff.mp hempty)
          (CommitteeState.getOpenSessions_ne_nil hs hopen)
    | created hnone => rfl
  · rw [if_neg hempty] at h
    cases h

-- ================================================== later in the run

/-- What holds between two states of a run whatever the clock does: an id
leads to the same or a newer object, and every object moved forward. -/
structure Later (w w' : World Plain) : Prop where
  ids : ∀ sid r, w.committee.sessions.get sid = some r →
    ∃ r', r ≤ r' ∧ w'.committee.sessions.get sid = some r'
  cells : ∀ (r : Ref) s, w.committee.heap[r]? = some s →
    ∃ s', w'.committee.heap[r]? = some s' ∧ Follows s s'

/-- A moment in which nothing happened. -/
theorem Later.refl (w : World Plain) : Later w w :=
  ⟨fun _ r h => ⟨r, le_refl r, h⟩, fun _ s h => ⟨s, h, Follows.refl s⟩⟩

/-- Later than later. -/
theorem Later.trans (w₁ w₂ w₃ : World Plain) (h : Later w₁ w₂)
    (h' : Later w₂ w₃) : Later w₁ w₃ := by
  refine ⟨fun sid r hr => ?_, fun r s hs => ?_⟩
  · obtain ⟨r₂, hle, hr₂⟩ := h.ids sid r hr
    obtain ⟨r₃, hle', hr₃⟩ := h'.ids sid r₂ hr₂
    exact ⟨r₃, le_trans hle hle', hr₃⟩
  · obtain ⟨s₂, hs₂, hf⟩ := h.cells r s hs
    obtain ⟨s₃, hs₃, hf'⟩ := h'.cells r s₂ hs₂
    exact ⟨s₃, hs₃, hf.trans hf'⟩

/-- Every event leads to a later moment. -/
theorem Protocol.later {cfg : Config Key Plain} {w w' : World Plain}
    {e : Event} (h : Protocol w) (hstep : Stepped cfg w e w') :
    Later w w' := by
  refine ⟨fun sid r hr => ?_, fun r s hs => h.follows hstep hs⟩
  rcases sessions_next hstep with ⟨-, hsame⟩ | ⟨now, -, hset⟩
  · exact ⟨r, le_refl r, hsame ▸ hr⟩
  · rw [hset, OrderedMap.get_set]
    by_cases hsid : sessionName now = sid
    · obtain ⟨s, hs, -⟩ := h.orderly.keyed sid r hr
      obtain ⟨hlt, -⟩ := List.getElem?_eq_some_iff.mp hs
      exact ⟨_, le_of_lt hlt, if_pos hsid⟩
    · exact ⟨r, le_refl r, (if_neg hsid).trans hr⟩

/-- Every accepted transition starts in a state of a run, and that run's
history is what came before. -/
theorem transition_cases {cfg : Config Key Plain} {es : List Event}
    {x y : List (Transition (World Plain) Event)}
    {t : Transition (World Plain) Event}
    (h : accepted (step cfg) (World.boot cfg) es = x ++ t :: y) :
    ∃ es', accepted (step cfg) (World.boot cfg) es' = x
      ∧ run (step cfg) (World.boot cfg) es' = t.before
      ∧ Protocol t.before ∧ Stepped cfg t.before t.event t.after := by
  obtain ⟨es', hx, hrun, hok⟩ := accepted_split h
  exact ⟨es', hx, hrun, hrun ▸ Protocol.run cfg es', step_cases hok⟩

/-- So every moment of a run is before its end. -/
theorem later_run (cfg : Config Key Plain) (es : List Event) :
    ∀ t ∈ accepted (step cfg) (World.boot cfg) es,
      Later t.after (run (step cfg) (World.boot cfg) es) := by
  refine after_accepted Later Later.refl Later.trans ?_
  intro t ht
  obtain ⟨x, y, hxy⟩ := List.append_of_mem ht
  obtain ⟨es', -, -, hp, hstep⟩ := transition_cases hxy
  exact hp.later hstep

/-- Every id in the map is the name of a creation of the history. -/
theorem ids_created (cfg : Config Key Plain) (es : List Event) :
    ∀ sid r, (run (step cfg) (World.boot cfg) es).committee.sessions.get
        sid = some r →
      ∃ now ∈ (accepted (step cfg) (World.boot cfg) es).filterMap creation,
        sid = sessionName now := by
  refine history_induction
    (fun h (w : World Plain) => ∀ sid r,
      w.committee.sessions.get sid = some r →
      ∃ now ∈ h.filterMap creation, sid = sessionName now)
    (fun sid r hr => by cases hr) ?_ es
  intro h w w' e ih hs sid r hr
  rw [List.filterMap_append]
  rcases sessions_next (step_cases hs) with ⟨-, hsame⟩ | ⟨now, hc, hset⟩
  · rw [hsame] at hr
    obtain ⟨now, hnow, hsid⟩ := ih sid r hr
    exact ⟨now, List.mem_append_left _ hnow, hsid⟩
  · rw [hset, OrderedMap.get_set] at hr
    by_cases hsid : sessionName now = sid
    · refine ⟨now, List.mem_append_right _ ?_, hsid.symm⟩
      exact List.mem_filterMap.mpr ⟨_, List.mem_singleton_self _, hc⟩
    · rw [if_neg hsid] at hr
      obtain ⟨now', hnow, hsid'⟩ := ih sid r hr
      exact ⟨now', List.mem_append_left _ hnow, hsid'⟩

-- ========================================================== sufficiency

/-- With creations at distinct milliseconds no transition takes an id
away from its session. -/
theorem ids_kept {cfg : Config Key Plain} {es : List Event}
    (hn : ((accepted (step cfg) (World.boot cfg) es).filterMap
      creation).Nodup) :
    ∀ t ∈ accepted (step cfg) (World.boot cfg) es, ∀ sid r,
      t.before.committee.sessions.get sid = some r →
      t.after.committee.sessions.get sid = some r := by
  intro t ht sid r hr
  obtain ⟨x, y, hxy⟩ := List.append_of_mem ht
  obtain ⟨es', hx, hrun, -, hstep⟩ := transition_cases hxy
  rcases sessions_next hstep with ⟨-, hsame⟩ | ⟨now, hc, hset⟩
  · exact hsame ▸ hr
  · have hne : sessionName now ≠ sid := by
      intro hsid
      obtain ⟨now', hnow', hsid'⟩ := ids_created cfg es' sid r (hrun ▸ hr)
      rw [hx] at hnow'
      have hsame : now = now' :=
        sessionName_injective (hsid.trans hsid')
      rw [hxy, List.filterMap_append, List.filterMap_cons_some hc] at hn
      exact (List.nodup_append.mp hn).2.2 now' hnow' now
        (List.mem_cons_self ..) hsame.symm
    rw [hset, OrderedMap.get_set_ne _ _ hne]
    exact hr

/-- A signed session stays signed. -/
theorem Status.Moves.of_signed {s : Status} (h : Status.Moves .signed s) :
    s = .signed := by
  induction h with
  | refl => rfl
  | tail _ hnext ih => subst ih; cases hnext

/-- The batches that are served are those of the signed sessions in the
map. -/
theorem mem_batches {c : CommitteeState Plain} {b : SignedMatchBatch} :
    b ∈ c.batches ↔ ∃ sid r s, c.sessions.get sid = some r
      ∧ c.heap[r]? = some s ∧ s.status = .signed
      ∧ s.signedBatch = some b := by
  rw [CommitteeState.batches, List.mem_filterMap]
  constructor
  · rintro ⟨p, hp, hb⟩
    obtain ⟨⟨sid, hsid⟩, hs⟩ := CommitteeState.mem_allSessions.mp hp
    by_cases hst : p.2.status = .signed
    · rw [if_pos hst] at hb
      exact ⟨sid, p.1, p.2, hsid, hs, hst, hb⟩
    · rw [if_neg hst] at hb
      cases hb
  · rintro ⟨sid, r, s, hsid, hs, hst, hb⟩
    exact ⟨(r, s), CommitteeState.mem_allSessions.mpr ⟨⟨sid, hsid⟩, hs⟩,
      (if_pos hst).trans hb⟩

/-- A submission's response names a session in the map. -/
theorem response_found {cfg : Config Key Plain} {w w' : World Plain}
    {e : Event} {sid : String} (hp' : Protocol w')
    (hp : Protocol w) (hstep : Stepped cfg w e w')
    (h : response ⟨w, e, w'⟩ = some sid) :
    ∃ r s, w'.committee.sessions.get sid = some r
      ∧ w'.committee.heap[r]? = some s := by
  have hfound : ∃ r, w'.committee.sessions.get sid = some r := by
    have hother : e.submission ≠ none := by
      intro he
      rw [response, he] at h
      cases h
    cases hstep with
    | submitted hadd =>
        rw [response] at h
        simp only [Event.submission, Option.map_some, hadd,
          Option.some.injEq] at h
        subst h
        cases CommitteeState.added_addIntent hadd with
        | found hs hopen =>
            obtain ⟨-, hheap⟩ := CommitteeState.mem_allSessions.mp hs
            exact ⟨_, (hp.orderly.opens _ _ hheap hopen).1⟩
        | created hnone => exact ⟨_, OrderedMap.get_set_self ..⟩
    | started he hs ht hpr => exact absurd he hother
    | idle he ht => exact absurd he hother
    | delivered hd hstore => exact absurd rfl hother
    | answered he hrd hphase huses => exact absurd he hother
    | continued hrd hs hpr => exact absurd rfl hother
  obtain ⟨r, hr⟩ := hfound
  obtain ⟨s, hs, -⟩ := hp'.orderly.keyed sid r hr
  exact ⟨r, s, hr, hs⟩

/-- Nor does any object, then, drop out of the map. -/
theorem cells_mapped {cfg : Config Key Plain} {es : List Event}
    (hn : ((accepted (step cfg) (World.boot cfg) es).filterMap
      creation).Nodup) :
    ∀ (r : Ref) s,
      (run (step cfg) (World.boot cfg) es).committee.heap[r]? = some s →
      (run (step cfg) (World.boot cfg) es).committee.sessions.get
        s.sessionId = some r := by
  have h := history_induction_of
    (fun t : Transition (World Plain) Event => ∀ sid r,
      t.before.committee.sessions.get sid = some r →
      t.after.committee.sessions.get sid = some r)
    (fun _ (w : World Plain) => Protocol w ∧ ∀ (r : Ref) s,
      w.committee.heap[r]? = some s →
      w.committee.sessions.get s.sessionId = some r)
    ⟨Protocol.boot cfg, fun r s hs => by cases hs⟩ ?_ es (ids_kept hn)
  · exact h.2
  · intro _ w w' e ⟨hp, hmapped⟩ hs _ hids
    have hstep := step_cases hs
    refine ⟨hp.next hstep, fun r s' hs' => ?_⟩
    cases hr : w.committee.heap[r]? with
    | none => exact (Protocol.fresh_opened hstep hr hs').2
    | some s =>
        obtain ⟨s'', hs'', hf⟩ := hp.follows hstep hr
        rw [CommitteeState.cell_inj hs' hs'', hf.sessionId]
        exact hids _ _ (hmapped r s hr)

/-- Where no name is given twice, every session is kept. -/
theorem sessionsKept_of_nodup {cfg : Config Key Plain} {es : List Event}
    (hn : ((accepted (step cfg) (World.boot cfg) es).filterMap
      creation).Nodup) : SessionsKept cfg es := by
  have hids := after_accepted
    (fun w w' : World Plain => ∀ sid r,
      w.committee.sessions.get sid = some r →
      w'.committee.sessions.get sid = some r)
    (fun _ _ _ h => h) (fun _ _ _ h h' sid r hr => h' sid r (h sid r hr))
    (ids_kept hn)
  intro t ht
  have hlater := later_run cfg es t ht
  obtain ⟨x, y, hxy⟩ := List.append_of_mem ht
  obtain ⟨es', -, -, hp, hstep⟩ := transition_cases hxy
  refine ⟨?_, ?_⟩
  · intro sid hsid
    obtain ⟨r, s, hr, hs⟩ := response_found (hp.next hstep) hp hstep hsid
    obtain ⟨s', hs', hf⟩ := hlater.cells r s hs
    exact ⟨r, s, s', CommitteeState.getSession_eq_some.mpr ⟨hr, hs⟩,
      CommitteeState.getSession_eq_some.mpr ⟨hids t ht sid r hr, hs'⟩,
      hf.intents⟩
  · intro r s b hs hst hbatch
    obtain ⟨s', hs', hf⟩ := hlater.cells r s hs
    have hmoves := hf.status
    rw [hst] at hmoves
    exact mem_batches.mpr ⟨_, r, s', cells_mapped hn r s' hs', hs',
      hmoves.of_signed, hf.batch b hbatch⟩

-- ============================================================ necessity

/-- A creation makes its id lead to the next free reference. -/
theorem sessions_creation {cfg : Config Key Plain} {w w' : World Plain}
    {e : Event} {now : ℤ} (hstep : Stepped cfg w e w')
    (h : creation ⟨w, e, w'⟩ = some now) :
    w'.committee.sessions.get (sessionName now)
      = some w.committee.heap.length := by
  rcases sessions_next hstep with ⟨hc, -⟩ | ⟨now', hc, hset⟩
  · rw [hc] at h
    cases h
  · rw [hc] at h
    injection h with h
    rw [hset, h]
    exact OrderedMap.get_set_self ..

/-- Two creations in one millisecond: the first session is gone. -/
theorem not_sessionsKept {cfg : Config Key Plain} {es : List Event}
    {x y z : List (Transition (World Plain) Event)}
    {t t' : Transition (World Plain) Event} {now : ℤ}
    (h : accepted (step cfg) (World.boot cfg) es = x ++ t :: (y ++ t' :: z))
    (ht : creation t = some now) (ht' : creation t' = some now) :
    ¬SessionsKept cfg es := by
  intro hkept
  have hmem : t ∈ accepted (step cfg) (World.boot cfg) es := by
    rw [h]
    simp
  have hmem' : t' ∈ accepted (step cfg) (World.boot cfg) es := by
    rw [h]
    simp
  obtain ⟨r, s, s', hget, hlast, -⟩ :=
    (hkept t hmem).1 _ (response_of_creation ht)
  rw [CommitteeState.getSession_eq_some] at hget hlast
  -- the second creation takes a reference above every cell of the first
  have h' : accepted (step cfg) (World.boot cfg) es
      = (x ++ t :: y) ++ t' :: z := by
    rw [h]
    simp
  obtain ⟨es', hx, hrun, -, hstep'⟩ := transition_cases h'
  have hbetween : Later t.after t'.before := by
    rw [← hrun]
    refine later_run cfg es' t ?_
    rw [hx]
    simp
  obtain ⟨s₁, hs₁, -⟩ := hbetween.cells r s hget.2
  obtain ⟨hlt, -⟩ := List.getElem?_eq_some_iff.mp hs₁
  -- and the id never comes back below it
  obtain ⟨r', hle, hr'⟩ := (later_run cfg es t' hmem').ids _ _
    (sessions_creation hstep' ht')
  rw [hlast.1] at hr'
  injection hr' with hr'
  subst hr'
  exact absurd hle (Nat.not_le.mpr hlt)

/-- Sessions and signed batches are kept in exactly the runs that create
no two sessions in one millisecond. -/
theorem sessions_kept_iff (cfg : Config Key Plain) (es : List Event) :
    SessionsKept cfg es
      ↔ ((accepted (step cfg) (World.boot cfg) es).filterMap
          creation).Nodup := by
  refine ⟨fun hkept => ?_, sessionsKept_of_nodup⟩
  rw [List.nodup_iff_pairwise_ne, List.pairwise_filterMap,
    List.pairwise_iff_forall_sublist]
  intro t t' hsub now ht now' ht' hsame
  subst hsame
  obtain ⟨l, l', hl, hmem, hsub'⟩ := List.cons_sublist_iff.mp hsub
  obtain ⟨x, y, rfl⟩ := List.append_of_mem hmem
  obtain ⟨y', z, rfl⟩ :=
    List.append_of_mem (List.singleton_sublist.mp hsub')
  have hsplit : accepted (step cfg) (World.boot cfg) es
      = x ++ t :: ((y ++ y') ++ t' :: z) := by
    rw [hl]
    simp
  exact not_sessionsKept hsplit ht ht' hkept

/-- Two sessions opened, one signed, within millisecond 7: the first is
replaced and its batch is no longer served. -/
def Demo.collision : List Event :=
  [.submit (Demo.intent "a" "X" "Y" "....") (Demo.clockAt 7),
   .submit (Demo.intent "b" "Y" "X" "....") (Demo.clockAt 7),
   .requestMatch "session-7" "batch",
   .submit (Demo.intent "c" "X" "Y" "..") (Demo.clockAt 7)]

/-- The batch is served, and then it is not. -/
theorem Demo.collision_batches :
    (accepted (step Demo.combined) (World.boot Demo.combined)
        Demo.collision).map (fun t => t.after.committee.batches.length)
          = [0, 0, 1, 0]
      ∧ (run (step Demo.combined) (World.boot Demo.combined)
          Demo.collision).committee.batches = [] := by
  decide +kernel

/-- So a session is replaced. -/
theorem session_replaced : ¬SessionsKept Demo.combined Demo.collision := by
  intro hkept
  obtain ⟨hserved, hlast⟩ := Demo.collision_batches
  have hone : 1 ∈ (accepted (step Demo.combined) (World.boot Demo.combined)
      Demo.collision).map fun t => t.after.committee.batches.length := by
    rw [hserved]
    decide
  obtain ⟨t, ht, hlen⟩ := List.mem_map.mp hone
  obtain ⟨b, hb⟩ := List.exists_mem_of_length_pos
    (show 0 < t.after.committee.batches.length by omega)
  obtain ⟨sid, r, s, -, hs, hst, hbatch⟩ := mem_batches.mp hb
  have hgone := (hkept t ht).2 r s b hs hst hbatch
  rw [hlast] at hgone
  cases hgone

end Lumix.Committee
