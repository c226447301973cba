/-
Greedy pairing of a list.

The elements lead in turn. A leader that is not yet used takes the first
other unused element it crosses with, and both are used from then on.
Crossing is any partial function of an ordered pair, so it need not be
symmetric, and elements are told apart by their position; what is marked
as used is a key.

`run_pairing` says what the pairs are, `run_maximal` that no two of the
elements left over cross in either order. Both go by the leaders, with
the pairs so far or the leaders so far as what a step extends.
-/
import Mathlib.Data.List.Nodup
import Mathlib.Tactic.Common

namespace Lumix.Greedy

variable {α κ μ : Type*} [DecidableEq κ]

-- ======================================================= the algorithm

/-- What was put out, and whose keys are used. -/
structure State (κ μ : Type*) where
  out : List μ
  used : List κ

/-- Nothing yet. -/
def State.empty : State κ μ := ⟨[], []⟩

variable (key : α → κ) (cross : α → α → Option μ)

/-- The first of the given elements the leader crosses with, and their
result. -/
def partner (a : α × ℕ) (used : List κ) : List (α × ℕ) → Option (α × μ)
  | [] => none
  | b :: rest =>
      if a.2 = b.2 ∨ key b.1 ∈ used then partner a used rest
      else
        match cross a.1 b.1 with
        | some m => some (b.1, m)
        | none => partner a used rest

/-- One leader's turn. -/
def lead (l : List (α × ℕ)) (s : State κ μ) (a : α × ℕ) : State κ μ :=
  if key a.1 ∈ s.used then s
  else
    match partner key cross a s.used l with
    | some (b, m) => ⟨s.out ++ [m], s.used ++ [key a.1, key b]⟩
    | none => s

/-- The turns of the given leaders, in order. -/
def leads (l : List (α × ℕ)) (turns : List (α × ℕ)) : State κ μ :=
  turns.foldl (lead key cross l) State.empty

/-- Everybody leads in turn. -/
def run (l : List α) : State κ μ := leads key cross l.zipIdx l.zipIdx

variable {key cross}

-- ============================================================ one turn

/-- A partner is at another position, unused, and crosses. -/
theorem partner_some {a : α × ℕ} {used : List κ} {l : List (α × ℕ)}
    {b : α} {m : μ} (h : partner key cross a used l = some (b, m)) :
    (∃ j, (b, j) ∈ l ∧ a.2 ≠ j) ∧ key b ∉ used
      ∧ cross a.1 b = some m := by
  induction l with
  | nil => cases h
  | cons c rest ih =>
      have hrest : partner key cross a used rest = some (b, m) →
          (∃ j, (b, j) ∈ c :: rest ∧ a.2 ≠ j) ∧ key b ∉ used
            ∧ cross a.1 b = some m := by
        intro hin
        obtain ⟨⟨j, hj, hne⟩, hb⟩ := ih hin
        exact ⟨⟨j, List.mem_cons_of_mem _ hj, hne⟩, hb⟩
      unfold partner at h
      by_cases hskip : a.2 = c.2 ∨ key c.1 ∈ used
      · rw [if_pos hskip] at h
        exact hrest h
      · rw [if_neg hskip] at h
        obtain ⟨hne, hfree⟩ := not_or.mp hskip
        cases hcross : cross a.1 c.1 with
        | none =>
            rw [hcross] at h
            exact hrest h
        | some m' =>
            simp only [hcross, Option.some.injEq, Prod.mk.injEq] at h
            obtain ⟨rfl, rfl⟩ := h
            exact ⟨⟨c.2, List.mem_cons_self .., hne⟩, hfree, hcross⟩

/-- There is no partner exactly when the leader crosses with none of the
others that are unused. -/
theorem partner_none {a : α × ℕ} {used : List κ} {l : List (α × ℕ)} :
    partner key cross a used l = none
      ↔ ∀ b ∈ l, a.2 ≠ b.2 → key b.1 ∉ used → cross a.1 b.1 = none := by
  induction l with
  | nil => simp [partner]
  | cons c rest ih =>
      rw [List.forall_mem_cons, ← ih, partner]
      by_cases hskip : a.2 = c.2 ∨ key c.1 ∈ used
      · rw [if_pos hskip]
        refine (and_iff_right ?_).symm
        intro hne hfree
        exact absurd hskip (not_or.mpr ⟨hne, hfree⟩)
      · rw [if_neg hskip]
        obtain ⟨hne, hfree⟩ := not_or.mp hskip
        cases hcross : cross a.1 c.1 with
        | none => simp
        | some m => simp [hne, hfree]

/-- A turn uses up nothing that was used before. -/
theorem used_subset_lead (l : List (α × ℕ)) (s : State κ μ) (a : α × ℕ) :
    s.used ⊆ (lead key cross l s a).used := by
  unfold lead
  by_cases hused : key a.1 ∈ s.used
  · rw [if_pos hused]
    exact List.Subset.refl _
  · rw [if_neg hused]
    cases partner key cross a s.used l with
    | none => exact List.Subset.refl _
    | some bm => exact List.subset_append_left _ _

-- =========================================================== the pairs

/-- The state is what the pairs `ps` make of it: each is of two positions
of the list and crosses, and no key is in two places. -/
structure Pairing (key : α → κ) (cross : α → α → Option μ)
    (l : List (α × ℕ)) (ps : List (α × α × μ)) (s : State κ μ) : Prop where
  out : s.out = ps.map fun p => p.2.2
  used : s.used = ps.flatMap fun p => [key p.1, key p.2.1]
  within : ∀ p ∈ ps, ∃ i j, (p.1, i) ∈ l ∧ (p.2.1, j) ∈ l ∧ i ≠ j
  crossed : ∀ p ∈ ps, cross p.1 p.2.1 = some p.2.2
  nodup : s.used.Nodup

omit [DecidableEq κ] in

/-- No pairs yet. -/
theorem Pairing.empty (l : List (α × ℕ)) :
    Pairing key cross l [] State.empty where
  out := rfl
  used := rfl
  within p hp := by cases hp
  crossed p hp := by cases hp
  nodup := List.nodup_nil

/-- A turn adds at most one pair. -/
theorem Pairing.lead {l : List (α × ℕ)} {ps : List (α × α × μ)}
    {s : State κ μ}
    (hkeys : ∀ a ∈ l, ∀ b ∈ l, a.2 ≠ b.2 → key a.1 ≠ key b.1)
    (h : Pairing key cross l ps s) {a : α × ℕ} (ha : a ∈ l) :
    ∃ qs, Pairing key cross l qs (Greedy.lead key cross l s a) := by
  unfold Greedy.lead
  by_cases hused : key a.1 ∈ s.used
  · rw [if_pos hused]
    exact ⟨ps, h⟩
  rw [if_neg hused]
  cases hpartner : partner key cross a s.used l with
  | none => exact ⟨ps, h⟩
  | some bm =>
      obtain ⟨⟨j, hj, hne⟩, hfree, hcross⟩ := partner_some hpartner
      refine ⟨ps ++ [(a.1, bm.1, bm.2)], ?_, ?_, ?_, ?_, ?_⟩
      · rw [List.map_append, ← h.out]
        rfl
      · rw [List.flatMap_append, ← h.used]
        rfl
      · intro p hp
        rcases List.mem_append.mp hp with hp | hp
        · exact h.within p hp
        · rw [List.mem_singleton.mp hp]
          exact ⟨a.2, j, ha, hj, hne⟩
      · intro p hp
        rcases List.mem_append.mp hp with hp | hp
        · exact h.crossed p hp
        · rw [List.mem_singleton.mp hp]
          exact hcross
      · show (s.used ++ [key a.1, key bm.1]).Nodup
        rw [List.nodup_append]
        refine ⟨h.nodup, ?_, ?_⟩
        · have hdiff := hkeys a ha _ hj hne
          simpa using hdiff
        · intro x hx y hy hxy
          subst hxy
          rcases List.mem_pair.mp hy with rfl | rfl
          · exact hused hx
          · exact hfree hx

/-- Any turns make a pairing. -/
theorem Pairing.leads {l : List (α × ℕ)}
    (hkeys : ∀ a ∈ l, ∀ b ∈ l, a.2 ≠ b.2 → key a.1 ≠ key b.1)
    {turns : List (α × ℕ)} (hturns : turns ⊆ l) :
    ∃ ps, Pairing key cross l ps (leads key cross l turns) := by
  have hfold : ∀ (ts : List (α × ℕ)) (s : State κ μ), ts ⊆ l →
      (∃ ps, Pairing key cross l ps s) →
      ∃ ps, Pairing key cross l ps
        (ts.foldl (Greedy.lead key cross l) s) := by
    intro ts
    induction ts with
    | nil => exact fun s _ hs => hs
    | cons t ts ih =>
        intro s hsub hs
        obtain ⟨ps, hps⟩ := hs
        obtain ⟨ht, hts⟩ := List.cons_subset.mp hsub
        exact ih _ hts (hps.lead hkeys ht)
  exact hfold turns State.empty hturns ⟨[], Pairing.empty l⟩

omit [DecidableEq κ] in
/-- Positions with one key are one position. -/
theorem keys_of_nodup {l : List α} (h : (l.map key).Nodup) :
    ∀ a ∈ l.zipIdx, ∀ b ∈ l.zipIdx, a.2 ≠ b.2 → key a.1 ≠ key b.1 := by
  intro a ha b hb hne heq
  have hget : ∀ c ∈ l.zipIdx, (l.map key)[c.2]? = some (key c.1) := by
    intro c hc
    rw [List.getElem?_map, List.mem_zipIdx_iff_getElem?.mp hc]
    rfl
  apply hne
  apply (List.getElem?_inj _ h).mp
  · rw [hget a ha, hget b hb, heq]
  · rw [List.length_map]
    exact List.snd_lt_of_mem_zipIdx ha

/-- What the pairs of a whole run are, where no key repeats. -/
theorem run_pairing {l : List α} (h : (l.map key).Nodup) :
    ∃ ps, Pairing key cross l.zipIdx ps (run key cross l) :=
  Pairing.leads (keys_of_nodup h) (List.Subset.refl _)

-- ========================================================== maximality

/-- No leader among `done` that is still unused crosses with another
element that is. -/
def Settled (key : α → κ) (cross : α → α → Option μ)
    (l done : List (α × ℕ)) (s : State κ μ) : Prop :=
  ∀ a ∈ done, key a.1 ∉ s.used → ∀ b ∈ l, a.2 ≠ b.2 →
    key b.1 ∉ s.used → cross a.1 b.1 = none

/-- Who has led has met everybody who was free, -/
theorem Settled.lead {l done : List (α × ℕ)} {s : State κ μ}
    (h : Settled key cross l done s) (a : α × ℕ) :
    Settled key cross l (done ++ [a]) (Greedy.lead key cross l s a) := by
  intro x hx hxfree y hy hne hyfree
  have hsub : s.used ⊆ (Greedy.lead key cross l s a).used :=
    used_subset_lead l s a
  have hxold : key x.1 ∉ s.used := fun hmem => hxfree (hsub hmem)
  have hyold : key y.1 ∉ s.used := fun hmem => hyfree (hsub hmem)
  rcases List.mem_append.mp hx with hx | hx
  · exact h x hx hxold y hy hne hyold
  · obtain rfl := List.mem_singleton.mp hx
    -- a leader that is still unused found no partner
    unfold Greedy.lead at hxfree
    rw [if_neg hxold] at hxfree
    cases hpartner : partner key cross x s.used l with
    | none => exact partner_none.mp hpartner y hy hne hyold
    | some bm =>
        rw [hpartner] at hxfree
        exact absurd
          (List.mem_append_right _ (List.mem_cons_self ..)) hxfree

/-- one after the other. -/
theorem Settled.leads (l turns : List (α × ℕ)) :
    Settled key cross l turns (leads key cross l turns) := by
  have hfold : ∀ (ts done : List (α × ℕ)) (s : State κ μ),
      Settled key cross l done s →
      Settled key cross l (done ++ ts)
        (ts.foldl (Greedy.lead key cross l) s) := by
    intro ts
    induction ts with
    | nil =>
        intro done s hs
        rw [List.append_nil]
        exact hs
    | cons t ts ih =>
        intro done s hs
        have h := ih (done ++ [t]) _ (hs.lead t)
        rwa [List.append_assoc] at h
  exact hfold turns [] State.empty (fun a ha => by cases ha)

/-- No two elements at different positions that a run leaves over
cross. -/
theorem run_maximal {l : List α} {a b : α × ℕ} (ha : a ∈ l.zipIdx)
    (hb : b ∈ l.zipIdx) (hne : a.2 ≠ b.2)
    (hafree : key a.1 ∉ (run key cross l).used)
    (hbfree : key b.1 ∉ (run key cross l).used) : cross a.1 b.1 = none :=
  Settled.leads l.zipIdx l.zipIdx a ha hafree b hb hne hbfree

end Lumix.Greedy
