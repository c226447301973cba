/-
Runs in which no process disturbs what another is counting on.

A program between two calls has learned something about the state, and
what it has learned matters as long as its next call is pending. So a
`Reliance` says, for each kind of call, what a process about to make it
relies on (`Rely`) and what must hold when it does (`Pre`). A program is
`Steady` in a state if, as long as what its pending call relies on is
kept, each call is made with its precondition; a transition is `Calm` if
it keeps what every other pending call relies on. `steady_run` is the one
induction.

In `Lumix.Discipline` the reliance is fixed for a process and the steps
of the others are proved to keep it. Here it changes from call to call,
and that the others keep it is a condition on the run.
-/
import Lumix.Lib.Program

namespace Lumix

/-- `Rely q` is what a process about to call `q` counts on, `Pre q` what
is to hold when it does, `Allow q c` says which choices are considered. -/
structure Reliance (Q σ χ : Type) where
  Pre : Q → σ → Prop
  Rely : Q → σ → σ → Prop
  Allow : Q → χ → σ → Prop

namespace Reliance

variable {Q : Type} {A : Q → Type} {ε α β σ χ : Type}

/-- What is relied on is a preorder on states. -/
structure Lawful (D : Reliance Q σ χ) : Prop where
  refl : ∀ q s, D.Rely q s s
  trans : ∀ q s₁ s₂ s₃, D.Rely q s₁ s₂ → D.Rely q s₂ s₃ → D.Rely q s₁ s₃

variable (D : Reliance Q σ χ)
  (exec : (q : Q) → χ → σ → σ × Except ε (A q))

/-- The program's calls are allowed, whatever the others did before each
of them, and its result is as promised. -/
def Steady (post : α → σ → Prop) : Prog A ε α → σ → Prop
  | .pure a, s => post a s
  | .throw _, _ => True
  | .call q k, s => ∀ s', D.Rely q s s' → D.Pre q s' ∧
      ∀ c, D.Allow q c s' →
        Steady post (k (exec q c s').2) (exec q c s').1

variable {D exec}

namespace Steady

variable {post : α → σ → Prop} {s s' : σ}

/-- Whatever promises more. -/
theorem mono {post' : α → σ → Prop} {p : Prog A ε α}
    (h : D.Steady exec post p s) (hpost : ∀ a s, post a s → post' a s) :
    D.Steady exec post' p s := by
  induction p generalizing s with
  | pure a => exact hpost a s h
  | throw e => trivial
  | call q k ih =>
      exact fun s' hs => ⟨(h s' hs).1, fun c hc => ih _ ((h s' hs).2 c hc)⟩

/-- Step after step. -/
theorem bind {p : Prog A ε β} {f : β → Prog A ε α}
    (h : D.Steady exec (fun b s => D.Steady exec post (f b) s) p s) :
    D.Steady exec post (p >>= f) s := by
  induction p generalizing s with
  | pure b => exact h
  | throw e => trivial
  | call q k ih =>
      exact fun s' hs => ⟨(h s' hs).1, fun c hc => ih _ ((h s' hs).2 c hc)⟩

/-- A call whose answer, if it comes, leaves the postcondition. -/
theorem query {q : Q} {post : A q → σ → Prop}
    (h : ∀ s', D.Rely q s s' → D.Pre q s' ∧
      ∀ c, D.Allow q c s' → ∀ a, (exec q c s').2 = .ok a →
        post a (exec q c s').1) :
    D.Steady exec post (Prog.query q) s := by
  intro s' hs
  obtain ⟨hpre, hrest⟩ := h s' hs
  refine ⟨hpre, fun c hc => ?_⟩
  cases hr : (exec q c s').2 with
  | ok a => exact hrest c hc a hr
  | error e => trivial

/-- Calls that need nothing. -/
theorem of_uses {P : Q → Prop} (hpre : ∀ q s, P q → D.Pre q s)
    {p : Prog A ε α} (h : p.Uses P) :
    D.Steady exec (fun _ _ => True) p s := by
  induction p generalizing s with
  | pure a => trivial
  | throw e => trivial
  | call q k ih =>
      exact fun s' _ => ⟨hpre q s' h.1, fun c _ => ih _ (h.2 _)⟩

/-- A program that is about to make a call counts on no more than what
the call relies on. -/
theorem later (L : D.Lawful) {p : Prog A ε α}
    (h : D.Steady exec (fun _ _ => True) p s)
    (hs : ∀ q, p.next = some q → D.Rely q s s') :
    D.Steady exec (fun _ _ => True) p s' := by
  cases p with
  | pure a => trivial
  | throw e => trivial
  | call q k =>
      exact fun s'' hs' => h s'' (L.trans q _ _ _ (hs q rfl) hs')

/-- The next call of a steady program is allowed. -/
theorem next (L : D.Lawful) {p : Prog A ε α}
    (h : D.Steady exec post p s) {q : Q} (hq : p.next = some q) :
    D.Pre q s := by
  cases p with
  | pure a => cases hq
  | throw e => cases hq
  | call q' k =>
      injection hq with hq
      exact hq ▸ (h s (L.refl q' s)).1

end Steady

end Reliance

-- ================================================================ runs

namespace System

variable {Q : Type} {A : Q → Type} {ε ρ τ σ χ η : Type}

/-- The transition keeps what every pending call relies on, that of the
process which moves apart, and its choice is among those considered. -/
structure Calm (D : Reliance Q σ χ)
    (t : Run.Transition (Machine A ε ρ τ σ) (MachineEvent τ χ η)) :
    Prop where
  spares : ∀ j q, t.before.next j = some q → (∀ c, t.event ≠ .run j c) →
    D.Rely q t.before.shared t.after.shared
  allows : ∀ i c q, t.event = .run i c → t.before.next i = some q →
    D.Allow q c t.before.shared

/-- Every process is steady where the state stands. -/
def AllSteady (D : Reliance Q σ χ)
    (exec : (q : Q) → χ → σ → σ × Except ε (A q))
    (p : Machine A ε ρ τ σ) : Prop :=
  ∀ (i : ℕ) (t : τ) (c : Prog A ε ρ), p.procs[i]? = some ⟨t, some c⟩ →
    D.Steady exec (fun _ _ => True) c p.shared

variable {D : Reliance Q σ χ}
  {exec : (q : Q) → χ → σ → σ × Except ε (A q)}
  {sys : System A ε ρ τ σ χ η} {p p' : Machine A ε ρ τ σ}

/-- The pending calls of steady processes are made with their
preconditions. -/
theorem AllSteady.pre (L : D.Lawful) (h : AllSteady D exec p) {i : ℕ}
    {q : Q} (hq : p.next i = some q) : D.Pre q p.shared := by
  unfold Machine.next at hq
  cases hi : p.procs[i]? with
  | none =>
      rw [hi] at hq
      cases hq
  | some proc =>
      rw [hi] at hq
      obtain ⟨t, code⟩ := proc
      cases code with
      | none => cases hq
      | some c => exact (h i t c hi).next L hq

/-- The other processes, which see the state move on. -/
theorem AllSteady.later (L : D.Lawful) (h : AllSteady D exec p) {s' : σ}
    {i : ℕ} {t : τ} {c : Prog A ε ρ} (hi : p.procs[i]? = some ⟨t, some c⟩)
    (hs : ∀ q, p.next i = some q → D.Rely q p.shared s') :
    D.Steady exec (fun _ _ => True) c s' := by
  refine (h i t c hi).later L fun q hq => hs q ?_
  unfold Machine.next
  rw [hi]
  exact hq

/-- New processes join the old ones. -/
theorem AllSteady.join (L : D.Lawful) (h : AllSteady D exec p) {s' : σ}
    {ts : List τ}
    (hs : ∀ i q, p.next i = some q → D.Rely q p.shared s')
    (hts : ∀ t ∈ ts, D.Steady exec (fun _ _ => True) (sys.code t) s') :
    AllSteady D exec
      { shared := s', procs := p.procs ++ ts.map sys.spawn } := by
  intro i t c hi
  have hi : (p.procs ++ ts.map sys.spawn)[i]? = some ⟨t, some c⟩ := hi
  rcases Nat.lt_or_ge i p.procs.length with hlt | hge
  · rw [List.getElem?_append_left hlt] at hi
    exact h.later L hi (hs i)
  · rw [List.getElem?_append_right hge] at hi
    obtain ⟨t', ht', heq⟩ := List.mem_map.mp (List.mem_of_getElem? hi)
    injection heq with htask hcode
    injection hcode with hcode
    rw [← hcode]
    exact hts t' ht'

/-- One process goes on, or is killed. -/
theorem AllSteady.put (L : D.Lawful) (h : AllSteady D exec p) {s' : σ}
    {i : ℕ} {t : τ} {code : Option (Prog A ε ρ)}
    (hs : ∀ j q, j ≠ i → p.next j = some q → D.Rely q p.shared s')
    (hcode : ∀ c, code = some c → D.Steady exec (fun _ _ => True) c s') :
    AllSteady D exec
      { shared := s', procs := p.procs.set i ⟨t, code⟩ } := by
  intro j t' c hj
  have hj : (p.procs.set i ⟨t, code⟩)[j]? = some ⟨t', some c⟩ := hj
  by_cases hij : i = j
  · subst hij
    rw [List.getElem?_set] at hj
    simp only [if_true] at hj
    split at hj
    · injection hj with hj
      injection hj with _ hc
      exact hcode c hc
    · cases hj
  · rw [List.getElem?_set_ne hij] at hj
    exact h.later L hj fun q hq => hs j q (Ne.symm hij) hq

/-- All programs stay steady while each keeps to itself. -/
theorem AllSteady.next (L : D.Lawful) (hexec : ∀ i, sys.exec i = exec)
    (hstart : ∀ t s, D.Steady exec (fun _ _ => True) (sys.code t) s)
    (h : AllSteady D exec p) {e : MachineEvent τ χ η}
    (hmoved : sys.Moved p e p') (hcalm : Calm D ⟨p, e, p'⟩) :
    AllSteady D exec p' := by
  cases hmoved with
  | started t =>
      show AllSteady D exec
        { p with procs := p.procs ++ [t].map sys.spawn }
      exact h.join L (fun i q _ => L.refl q _) fun t' _ => hstart t' _
  | ran hi =>
      rename_i i c t q k
      have hallow : D.Allow q c p.shared :=
        hcalm.allows i c q rfl (Machine.next_pending hi)
      have hgoes := ((h i t _ hi) p.shared (L.refl q _)).2 c hallow
      have hspares := hcalm.spares
      rw [hexec i] at hspares ⊢
      refine h.put L (fun j q' hj hq' => ?_) fun c' hc' => ?_
      · refine hspares j q' hq' fun c' hc' => hj ?_
        injection hc' with hc' _
        exact hc'.symm
      · injection hc' with hc'
        exact hc' ▸ hgoes
  | killed hi =>
      exact h.put L (fun j q _ _ => L.refl q _) nofun
  | happened he =>
      exact h.join L (fun i q hq => hcalm.spares i q hq nofun)
        fun t _ => hstart t _

/-- The rule for runs. -/
theorem steady_run (L : D.Lawful) (hexec : ∀ i, sys.exec i = exec)
    (hstart : ∀ t s, D.Steady exec (fun _ _ => True) (sys.code t) s)
    (h : AllSteady D exec p) {es : List (MachineEvent τ χ η)}
    (hes : ∀ t ∈ Run.accepted sys.step p es, Calm D t) :
    AllSteady D exec (Run.run sys.step p es) :=
  Run.history_induction_of (Calm D) (fun _ p' => AllSteady D exec p') h
    (fun _ _ _ _ h hs _ hcalm =>
      h.next L hexec hstart (step_cases hs) hcalm)
    es hes

end System

end Lumix
