/-
Runs of a partial transition function.

`step : σ → ε → Except τ σ` says what an event does to a state, or why
it is refused. A refused event leaves the state where it was, so a run
is a total fold (`run`), and what happened is the list of accepted
transitions (`accepted`), each with the state before and after.

The two rules every invariant proof below uses are `run_induction`
(what one accepted event preserves, every run preserves) and
`history_induction` (the same with the accepted transitions so far in
hand, for statements about the whole history).
-/
import Mathlib.Data.List.Induction
import Lumix.Lib.Exec

namespace Lumix.Run

variable {σ ε τ : Type*} (step : σ → ε → Except τ σ)

-- ========================================================== the runs

/-- One event: the accepted successor, or the state unchanged. -/
def next (s : σ) (e : ε) : σ :=
  match step s e with
  | .ok s' => s'
  | .error _ => s

/-- The state after a list of events. -/
def run (s : σ) : List ε → σ
  | [] => s
  | e :: es => run (next step s e) es

/-- An accepted event with the states around it. -/
structure Transition (σ ε : Type*) where
  before : σ
  event : ε
  after : σ

/-- The accepted transitions of a run, in order. -/
def accepted (s : σ) : List ε → List (Transition σ ε)
  | [] => []
  | e :: es =>
      match step s e with
      | .ok s' => ⟨s, e, s'⟩ :: accepted s' es
      | .error _ => accepted s es

variable {step}

/-- An event that is accepted moves on, -/
theorem next_ok {s s' : σ} {e : ε} (h : step s e = .ok s') :
    next step s e = s' := by
  simp [next, h]

/-- and one that is refused does not. -/
theorem next_error {s : σ} {e : ε} {t : τ} (h : step s e = .error t) :
    next step s e = s := by
  simp [next, h]

@[simp]
theorem run_nil (s : σ) : run step s [] = s := rfl

@[simp]
theorem accepted_nil (s : σ) : accepted step s [] = [] := rfl

/-- One run after another. -/
theorem run_append (s : σ) (es fs : List ε) :
    run step s (es ++ fs) = run step (run step s es) fs := by
  induction es generalizing s with
  | nil => rfl
  | cons e es ih => exact ih (next step s e)

/-- One event more. -/
theorem run_concat (s : σ) (es : List ε) (e : ε) :
    run step s (es ++ [e]) = next step (run step s es) e := by
  rw [run_append]
  rfl

/-- The history of a run goes on with the history of the events that
follow. -/
theorem accepted_append (s : σ) (es fs : List ε) :
    accepted step s (es ++ fs)
      = accepted step s es ++ accepted step (run step s es) fs := by
  induction es generalizing s with
  | nil => rfl
  | cons e es ih =>
      simp only [List.cons_append, accepted, run]
      cases h : step s e with
      | ok s' =>
          rw [next_ok h]
          simp only [ih s', List.cons_append]
      | error t =>
          rw [next_error h]
          exact ih s

/-- The history of a longer run extends the history of its prefix by
the last event, if that one was accepted. -/
theorem accepted_concat (s : σ) (es : List ε) (e : ε) :
    accepted step s (es ++ [e])
      = accepted step s es
        ++ (match step (run step s es) e with
            | .ok s' => [⟨run step s es, e, s'⟩]
            | .error _ => []) := by
  simp only [accepted_append, accepted]

/-- The history of one event more, if it is accepted, -/
theorem accepted_concat_ok {s s' : σ} {es : List ε} {e : ε}
    (h : step (run step s es) e = .ok s') :
    accepted step s (es ++ [e])
      = accepted step s es ++ [⟨run step s es, e, s'⟩] := by
  rw [accepted_concat, h]

/-- and if it is not. -/
theorem accepted_concat_error {s : σ} {es : List ε} {e : ε} {t : τ}
    (h : step (run step s es) e = .error t) :
    accepted step s (es ++ [e]) = accepted step s es := by
  rw [accepted_concat, h]
  exact List.append_nil _

/-- Every recorded transition is a step of the system. -/
theorem step_of_mem_accepted {s : σ} {es : List ε} {t : Transition σ ε}
    (ht : t ∈ accepted step s es) :
    step t.before t.event = .ok t.after := by
  induction es generalizing s with
  | nil => simp at ht
  | cons e es ih =>
      simp only [accepted] at ht
      cases h : step s e with
      | error t' =>
          rw [h] at ht
          exact ih ht
      | ok s' =>
          rw [h] at ht
          rcases List.mem_cons.mp ht with rfl | ht
          · exact h
          · exact ih ht

/-- What is accepted happened. -/
theorem event_of_mem_accepted {s : σ} {es : List ε} {t : Transition σ ε}
    (ht : t ∈ accepted step s es) : t.event ∈ es := by
  induction es generalizing s with
  | nil => simp at ht
  | cons e es ih =>
      simp only [accepted] at ht
      cases h : step s e with
      | error t' =>
          rw [h] at ht
          exact List.mem_cons_of_mem _ (ih ht)
      | ok s' =>
          rw [h] at ht
          rcases List.mem_cons.mp ht with rfl | ht
          · exact List.mem_cons_self ..
          · exact List.mem_cons_of_mem _ (ih ht)

/-- A point of a history is a point of a run: what came before is the
history of some list of events, and the transition is a step of the
state that list reaches. -/
theorem accepted_split {s : σ} {es : List ε}
    {x y : List (Transition σ ε)} {t : Transition σ ε}
    (h : accepted step s es = x ++ t :: y) :
    ∃ es', accepted step s es' = x ∧ run step s es' = t.before
      ∧ step t.before t.event = .ok t.after := by
  induction es generalizing s x with
  | nil => simp [accepted] at h
  | cons e es ih =>
      simp only [accepted] at h
      cases hs : step s e with
      | error t' =>
          rw [hs] at h
          exact ih h
      | ok s' =>
          rw [hs] at h
          cases x with
          | nil =>
              injection h with ht
              subst ht
              exact ⟨[], rfl, rfl, hs⟩
          | cons t₀ x =>
              injection h with ht₀ hrest
              obtain ⟨es', hacc, hrun, ht⟩ := ih hrest
              refine ⟨e :: es', ?_, ?_, ht⟩
              · simp only [accepted, hs]
                rw [hacc, ht₀]
              · simp only [run, next_ok hs]
                exact hrun

-- ========================================================= the rules

/-- The history rule: a property of (events so far, accepted history,
current state) that holds at the start and survives every accepted
event survives every run. Refused events change neither history nor
state. -/
theorem history_induction {s : σ}
    (P : List (Transition σ ε) → σ → Prop) (h0 : P [] s)
    (hstep : ∀ (h : List (Transition σ ε)) (s₁ s₂ : σ) (e : ε),
      P h s₁ → step s₁ e = .ok s₂ → P (h ++ [⟨s₁, e, s₂⟩]) s₂)
    (es : List ε) : P (accepted step s es) (run step s es) := by
  induction es using List.reverseRecOn with
  | nil => exact h0
  | append_singleton es e ih =>
      cases hs : step (run step s es) e with
      | ok s' =>
          rw [accepted_concat_ok hs, run_concat, next_ok hs]
          exact hstep _ _ _ _ ih hs
      | error t =>
          rw [accepted_concat_error hs, run_concat, next_error hs]
          exact ih

/-- The history rule under a condition `C` that every accepted
transition of the run meets. -/
theorem history_induction_of {s : σ} (C : Transition σ ε → Prop)
    (P : List (Transition σ ε) → σ → Prop) (h0 : P [] s)
    (hstep : ∀ (h : List (Transition σ ε)) (s₁ s₂ : σ) (e : ε),
      P h s₁ → step s₁ e = .ok s₂ → (∀ t ∈ h, C t) → C ⟨s₁, e, s₂⟩ →
      P (h ++ [⟨s₁, e, s₂⟩]) s₂)
    (es : List ε) (hC : ∀ t ∈ accepted step s es, C t) :
    P (accepted step s es) (run step s es) := by
  refine history_induction (fun h s' => (∀ t ∈ h, C t) → P h s')
    (fun _ => h0) ?_ es hC
  intro h s₁ s₂ e ih hs hall
  have hpre : ∀ t ∈ h, C t := fun t ht =>
    hall t (List.mem_append_left _ ht)
  exact hstep h s₁ s₂ e (ih hpre) hs hpre
    (hall _ (List.mem_append_right _ (List.mem_singleton_self _)))

/-- The state rule: an invariant of single accepted events is an
invariant of runs. -/
theorem run_induction {s : σ} (P : σ → Prop) (h0 : P s)
    (hstep : ∀ (s₁ s₂ : σ) (e : ε), P s₁ → step s₁ e = .ok s₂ → P s₂)
    (es : List ε) : P (run step s es) :=
  history_induction (fun _ s' => P s') h0
    (fun _ s₁ s₂ e h hs => hstep s₁ s₂ e h hs) es

/-- An invariant holds before each accepted event. -/
theorem before_accepted {s : σ} (P : σ → Prop) (h0 : P s)
    (hstep : ∀ (s₁ s₂ : σ) (e : ε), P s₁ → step s₁ e = .ok s₂ → P s₂)
    {es : List ε} {t : Transition σ ε} (ht : t ∈ accepted step s es) :
    P t.before := by
  obtain ⟨x, y, hsplit⟩ := List.mem_iff_append.mp ht
  obtain ⟨es', -, hrun, -⟩ := accepted_split hsplit
  exact hrun ▸ run_induction P h0 hstep es'

/-- The rule for what later states keep of earlier ones: a preorder that
every accepted transition respects relates the state after each of them
to the last state. -/
theorem after_accepted (R : σ → σ → Prop) (hrefl : ∀ s, R s s)
    (htrans : ∀ s₁ s₂ s₃, R s₁ s₂ → R s₂ s₃ → R s₁ s₃) {s : σ}
    {es : List ε} (h : ∀ t ∈ accepted step s es, R t.before t.after) :
    ∀ t ∈ accepted step s es, R t.after (run step s es) := by
  refine history_induction_of (fun t => R t.before t.after)
    (fun h s' => ∀ t ∈ h, R t.after s') (fun t ht => by cases ht) ?_ es h
  intro h s₁ s₂ e ih _ _ hR t ht
  rcases List.mem_append.mp ht with ht | ht
  · exact htrans _ _ _ (ih t ht) hR
  · rw [List.mem_singleton.mp ht]
    exact hrefl s₂

end Lumix.Run
