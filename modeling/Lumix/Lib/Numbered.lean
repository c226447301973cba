/-
Runs of programs whose processes are told apart.

A process counts on its number being new: `Fresh i` is what holds of a
number that no process has yet, and whatever the others do keeps it. The
postcondition of a process may then speak of its number, and so may what
its calls leave in the state. `numbered_run` is the rule of `Program` for
this case, and `late_run` the one for what is started from some state on.
-/
import Lumix.Lib.Program
import Lumix.Lib.Statement

namespace Lumix.System

variable {Q : Type} {A : Q → Type} {ε ρ τ σ χ η : Type}

/-- Every process is safe where the state stands, and the numbers that
are left are fresh. -/
structure Numbered (sys : System A ε ρ τ σ χ η) (D : Discipline Q σ χ)
    (Fresh : ℕ → σ → Prop) (post : ℕ → τ → Except ε ρ → σ → Prop)
    (p : Machine A ε ρ τ σ) : Prop where
  inv : D.Inv p.shared
  fresh : ∀ i, p.procs.length ≤ i → Fresh i p.shared
  safe : ∀ i t c, p.procs[i]? = some ⟨t, some c⟩ →
    D.Safe sys.exec i (post i t) c p.shared

variable {sys : System A ε ρ τ σ χ η} {D : Discipline Q σ χ}
  {Fresh : ℕ → σ → Prop} {post : ℕ → τ → Except ε ρ → σ → Prop}
  {p p' : Machine A ε ρ τ σ}

namespace Numbered

/-- A process that has returned. -/
theorem finished (L : D.Lawful sys.exec) (h : Numbered sys D Fresh post p)
    {i : ℕ} {t : τ} {r : ρ} (hi : p.procs[i]? = some ⟨t, some (.pure r)⟩) :
    post i t (.ok r) p.shared :=
  (h.safe i t _ hi).now L h.inv

/-- New processes take the numbers that follow. -/
theorem join (L : D.Lawful sys.exec)
    (hstart : ∀ t i s, D.Inv s → Fresh i s →
      D.Safe sys.exec i (post i t) (sys.code t) s)
    (h : Numbered sys D Fresh post p) {s' : σ} {ts : List τ}
    (hinv : D.Inv s') (hrely : ∀ i, D.Rely i p.shared s')
    (hfresh : ∀ i, Fresh i p.shared → Fresh i s') :
    Numbered sys D Fresh post
      { shared := s', procs := p.procs ++ ts.map sys.spawn } := by
  refine ⟨hinv, fun i hi => hfresh i (h.fresh i ?_), fun i t c hi => ?_⟩
  · rw [List.length_append] at hi
    exact Nat.le_trans (Nat.le_add_right ..) hi
  · rcases Nat.lt_or_ge i p.procs.length with hlt | hge
    · rw [List.getElem?_append_left hlt] at hi
      exact (h.safe i t c hi).later L ⟨hrely i, hinv⟩
    · rw [List.getElem?_append_right hge] at hi
      obtain ⟨t', -, heq⟩ := List.mem_map.mp (List.mem_of_getElem? hi)
      injection heq with htask hcode
      injection hcode with hcode
      rw [← htask, ← hcode]
      exact hstart t' i s' hinv (hfresh i (h.fresh i hge))

/-- One process goes on, the others see what they rely on. -/
theorem put (L : D.Lawful sys.exec) (h : Numbered sys D Fresh post p)
    {i : ℕ} (hlt : i < p.procs.length) {s' : σ} {t : τ}
    {code : Option (Prog A ε ρ)} (hinv : D.Inv s')
    (hrely : ∀ j, j ≠ i → D.Rely j p.shared s')
    (hfresh : ∀ j, j ≠ i → Fresh j p.shared → Fresh j s')
    (hcode : ∀ c, code = some c → D.Safe sys.exec i (post i t) c s') :
    Numbered sys D Fresh post
      { shared := s', procs := p.procs.set i ⟨t, code⟩ } := by
  refine ⟨hinv, fun j hj => ?_, fun j t' c hj => ?_⟩
  · rw [List.length_set] at hj
    exact hfresh j (by omega) (h.fresh j hj)
  · by_cases hij : i = j
    · subst hij
      rw [List.getElem?_set_self hlt] at hj
      injection hj with hj
      injection hj with htask hc
      exact htask ▸ hcode c hc
    · rw [List.getElem?_set_ne hij] at hj
      exact (h.safe j t' c hj).later L ⟨hrely j (Ne.symm hij), hinv⟩

/-- So in every event. -/
theorem next (L : D.Lawful sys.exec) (hallow : ∀ i q c s, D.Allow i q c s)
    (hstart : ∀ t i s, D.Inv s → Fresh i s →
      D.Safe sys.exec i (post i t) (sys.code t) s)
    (hfresh : ∀ i j q c s, j ≠ i → D.Pre i q s → Fresh j s →
      Fresh j (sys.exec i q c s).1)
    (hout : ∀ e s s' ts, D.Inv s → sys.outside e s = some (s', ts) →
      D.Inv s' ∧ (∀ i, D.Rely i s s') ∧ ∀ i, Fresh i s → Fresh i s')
    (h : Numbered sys D Fresh post p) {e : MachineEvent τ χ η}
    (hmoved : sys.Moved p e p') : Numbered sys D Fresh post p' := by
  cases hmoved with
  | started t =>
      show Numbered sys D Fresh post
        { shared := p.shared, procs := p.procs ++ [t].map sys.spawn }
      exact h.join L hstart h.inv (fun i => L.refl i _) fun _ hi => hi
  | ran hi =>
      rename_i i c t q k
      obtain ⟨hlt, -⟩ := List.getElem?_eq_some_iff.mp hi
      obtain ⟨hpre, hrest⟩ :=
        h.safe i t _ hi p.shared ⟨L.refl i _, h.inv⟩
      obtain ⟨hinv, hrely⟩ :=
        L.keeps i q c _ h.inv hpre (hallow i q c _)
      refine h.put L hlt hinv hrely
        (fun j hj => hfresh i j q c _ hj hpre) fun c' hc' => ?_
      injection hc' with hc'
      exact hc' ▸ hrest c (hallow i q c _)
  | killed hi =>
      obtain ⟨hlt, -⟩ := List.getElem?_eq_some_iff.mp hi
      refine h.put L hlt h.inv (fun j _ => L.refl j _) (fun _ _ hj => hj)
        fun c hc => ?_
      cases hc
  | happened he =>
      obtain ⟨hinv, hrely, hkeep⟩ := hout _ _ _ _ h.inv he
      exact h.join L hstart hinv hrely hkeep

end Numbered

/-- The rule for runs. -/
theorem numbered_run (L : D.Lawful sys.exec)
    (hallow : ∀ i q c s, D.Allow i q c s)
    (hstart : ∀ t i s, D.Inv s → Fresh i s →
      D.Safe sys.exec i (post i t) (sys.code t) s)
    (hfresh : ∀ i j q c s, j ≠ i → D.Pre i q s → Fresh j s →
      Fresh j (sys.exec i q c s).1)
    (hout : ∀ e s s' ts, D.Inv s → sys.outside e s = some (s', ts) →
      D.Inv s' ∧ (∀ i, D.Rely i s s') ∧ ∀ i, Fresh i s → Fresh i s')
    (h : Numbered sys D Fresh post p) (es : List (MachineEvent τ χ η)) :
    Numbered sys D Fresh post (Run.run sys.step p es) :=
  Run.run_induction (Numbered sys D Fresh post) h
    (fun _ _ _ h hs => h.next L hallow hstart hfresh hout (step_cases hs))
    es

/-- Where no call needs knowledge, processes that are started from here on
return what their programs are safe for; the rest may be at any point. -/
theorem late_run (L : D.Lawful sys.exec)
    (hallow : ∀ i q c s, D.Allow i q c s) (hpre : ∀ i q s, D.Pre i q s)
    {after : τ → Except ε ρ → σ → Prop}
    (hstart : ∀ t i s, D.Inv s → D.Safe sys.exec i (after t) (sys.code t) s)
    (hout : ∀ e s s' ts, D.Inv s → sys.outside e s = some (s', ts) →
      D.Inv s' ∧ ∀ i, D.Rely i s s')
    (hinv : D.Inv p.shared) (es : List (MachineEvent τ χ η)) :
    D.Inv (Run.run sys.step p es).shared
      ∧ ∀ i t r, p.procs.length ≤ i →
        (Run.run sys.step p es).procs[i]? = some ⟨t, some (.pure r)⟩ →
        after t (.ok r) (Run.run sys.step p es).shared := by
  have hnow : Numbered sys D (fun _ _ => True)
      (fun i t r s => p.procs.length ≤ i → after t r s) p := by
    refine ⟨hinv, fun _ _ => trivial, fun i t c hi => ?_⟩
    obtain ⟨hlt, -⟩ := List.getElem?_eq_some_iff.mp hi
    refine (Discipline.Safe.of_uses (fun i q s _ => hpre i q s)
      (Prog.uses_any c)).mono fun _ _ _ _ hle => ?_
    exact absurd hlt (Nat.not_lt.mpr hle)
  have hcode : ∀ t i s, D.Inv s → True → D.Safe sys.exec i
      (fun r s' => p.procs.length ≤ i → after t r s') (sys.code t) s :=
    fun t i s hs _ => (hstart t i s hs).mono fun _ _ _ h _ => h
  have h := numbered_run L hallow hcode (fun _ _ _ _ _ _ _ h => h)
    (fun e s s' ts hs he => ⟨(hout e s s' ts hs he).1,
      (hout e s s' ts hs he).2, fun _ h => h⟩) hnow es
  exact ⟨h.inv, fun i t r hle hi => h.finished L hi hle⟩

end Lumix.System

-- ========================================================== statements

namespace Lumix.Statement

variable {Q : Type} {A : Q → Type} {ε δ σ α : Type}
  {perform : ℕ → δ → σ → (q : Q) → σ × Except ε (A q)} {lost : ε}
  {D : Discipline Q σ (Choice δ)} {i : ℕ} {s : σ}

/-- A statement that may fail, and what follows its answer. -/
theorem answer_then {P : α → σ → Prop} {q : Q} {f : A q → Prog A ε α}
    (h : ∀ s', D.Later i s s' → D.Pre i q s'
      ∧ ∀ draw a, (perform i draw s' q).2 = .ok a →
        D.Allow i q (.go draw) s' →
        D.Safe (fun i => exec (perform i) lost) i
          (fun r s' => ∀ a, r = .ok a → P a s') (f a)
          (perform i draw s' q).1) :
    D.Safe (fun i => exec (perform i) lost) i
      (fun r s' => ∀ a, r = .ok a → P a s') (Prog.query q >>= f) s := by
  refine .query_then fun s' hs' => ?_
  obtain ⟨hpre, hrest⟩ := h s' hs'
  refine ⟨hpre, fun c hc a ha => ?_⟩
  obtain ⟨draw, rfl, hperform⟩ := exec_answered ha
  exact hrest draw a (congrArg Prod.snd hperform) hc

end Lumix.Statement
