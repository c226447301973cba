/-
Traces that a state keeps of its run.

A proof may let the state remember what it has seen, and who did what.
`seen_run` turns what is remembered back into a fact about the run: it
held after some of the events. `recorded_run` does so for entries of who
did what: there is a process of that number with that task. Statements
can then speak of the run alone.
-/
import Lumix.Lib.Program

namespace Lumix

-- ========================================================= what was seen

/-- What is remembered held at some time. -/
theorem Run.seen_run {σ ε τ β : Type} {step : σ → ε → Except τ σ} {s : σ}
    (seen : σ → List β) (P : β → σ → Prop) (hstart : ∀ o ∈ seen s, P o s)
    (hstep : ∀ s e s', step s e = .ok s' → ∀ o ∈ seen s',
      o ∈ seen s ∨ P o s')
    {es : List ε} {o : β} (ho : o ∈ seen (Run.run step s es)) :
    ∃ fs, fs <+: es ∧ P o (Run.run step s fs) := by
  induction es using List.reverseRecOn with
  | nil => exact ⟨[], List.prefix_refl _, hstart o ho⟩
  | append_singleton es e ih =>
      have hearlier : o ∈ seen (Run.run step s es) →
          ∃ fs, fs <+: es ++ [e] ∧ P o (Run.run step s fs) := by
        intro hold
        obtain ⟨fs, hfs, hP⟩ := ih hold
        exact ⟨fs, hfs.trans (List.prefix_append _ _), hP⟩
      cases h : step (Run.run step s es) e with
      | error u =>
          rw [Run.run_concat, Run.next_error h] at ho
          exact hearlier ho
      | ok s' =>
          have hlast : Run.run step s (es ++ [e]) = s' := by
            rw [Run.run_concat, Run.next_ok h]
          rw [hlast] at ho
          rcases hstep _ e s' h o ho with hold | hP
          · exact hearlier hold
          · exact ⟨_, List.prefix_refl _, hlast.symm ▸ hP⟩

-- ========================================================== who did what

namespace System

variable {Q : Type} {A : Q → Type} {ε ρ τ σ χ η : Type}

/-- Every entry is of a process that is there. -/
def Recorded (asks : Q → τ) (entries : σ → List (ℕ × τ))
    (p : Machine A ε ρ τ σ) : Prop :=
  AllUse (fun t q => asks q = t) p
    ∧ ∀ x ∈ entries p.shared, ∃ code, p.procs[x.1]? = some ⟨x.2, code⟩

variable {sys : System A ε ρ τ σ χ η} {asks : Q → τ}
  {entries : σ → List (ℕ × τ)} {p p' : Machine A ε ρ τ σ}

/-- A process keeps its number and its task. -/
theorem kept_put {i : ℕ} {t : τ} {c c' : Option (Prog A ε ρ)} {x : ℕ × τ}
    (hi : p.procs[i]? = some ⟨t, c⟩)
    (h : ∃ code, p.procs[x.1]? = some ⟨x.2, code⟩) :
    ∃ code, (p.procs.set i ⟨t, c'⟩)[x.1]? = some ⟨x.2, code⟩ := by
  obtain ⟨code, hcode⟩ := h
  obtain ⟨hlt, -⟩ := List.getElem?_eq_some_iff.mp hcode
  by_cases hx : i = x.1
  · subst hx
    rw [hi] at hcode
    injection hcode with hcode
    injection hcode with htask
    exact ⟨c', by rw [List.getElem?_set_self hlt, htask]⟩
  · exact ⟨code, by rw [List.getElem?_set_ne hx]; exact hcode⟩

/-- A process stays when others join. -/
theorem kept_join {procs : List (Proc A ε ρ τ)} {x : ℕ × τ}
    (h : ∃ code, p.procs[x.1]? = some ⟨x.2, code⟩) :
    ∃ code, (p.procs ++ procs)[x.1]? = some ⟨x.2, code⟩ := by
  obtain ⟨code, hcode⟩ := h
  obtain ⟨hlt, -⟩ := List.getElem?_eq_some_iff.mp hcode
  exact ⟨code, (List.getElem?_append_left hlt).trans hcode⟩

/-- So in every event. -/
theorem Recorded.next (huses : ∀ t, (sys.code t).Uses fun q => asks q = t)
    (hexec : ∀ i q c s, ∀ x ∈ entries (sys.exec i q c s).1,
      x ∈ entries s ∨ x = (i, asks q))
    (hout : ∀ e s s' ts, sys.outside e s = some (s', ts) →
      entries s' = entries s)
    (h : Recorded asks entries p) {e : MachineEvent τ χ η}
    (hmoved : sys.Moved p e p') : Recorded asks entries p' := by
  refine ⟨h.1.next huses hmoved, ?_⟩
  cases hmoved with
  | started t => exact fun x hx => kept_join (h.2 x hx)
  | ran hi =>
      intro x hx
      refine kept_put hi ?_
      rcases hexec _ _ _ _ x hx with hold | rfl
      · exact h.2 x hold
      · rw [(h.1 _ _ _ hi).1]
        exact ⟨_, hi⟩
  | killed hi => exact fun x hx => kept_put hi (h.2 x hx)
  | happened he =>
      intro x hx
      have hold : x ∈ entries p.shared := (hout _ _ _ _ he) ▸ hx
      exact kept_join (h.2 x hold)

/-- The rule for runs that start without a process. -/
theorem recorded_run (asks : Q → τ) (entries : σ → List (ℕ × τ))
    (huses : ∀ t, (sys.code t).Uses fun q => asks q = t)
    (hexec : ∀ i q c s, ∀ x ∈ entries (sys.exec i q c s).1,
      x ∈ entries s ∨ x = (i, asks q))
    (hout : ∀ e s s' ts, sys.outside e s = some (s', ts) →
      entries s' = entries s)
    {s : σ} (hs : entries s = []) (es : List (MachineEvent τ χ η)) :
    Recorded asks entries (Run.run sys.step ⟨s, []⟩ es) := by
  refine Run.run_induction (Recorded asks entries) ⟨?_, ?_⟩
    (fun _ _ _ h hstep => h.next huses hexec hout (step_cases hstep)) es
  · intro i t c hi
    cases hi
  · intro x hx
    rw [hs] at hx
    cases hx

end System

end Lumix
