/-
Programs that make calls on a shared state, and what runs of many of
them at once keep.

A program is a tree: it returns, throws, or makes a call and goes on
with the answer, which may be an error. Between two calls it touches
nothing, so a pool of programs interleaves at the calls and nowhere
else. Who answers is a parameter: `exec` gives the state after a call
and the answer, for each choice the surroundings can make.

The proof rule is rely and guarantee. A `Discipline` fixes an invariant,
what each process relies on the others to keep (`Rely`), what it must
know before a call (`Pre`), and which choices are considered (`Allow`).
A program is `Safe` in a state when, whatever the others do in between,
each of its calls is made with its precondition and it ends with its
postcondition; `guarded_run` is the one induction over runs.
-/
import Mathlib.Data.List.Basic
import Lumix.Lib.Run

namespace Lumix

-- =========================================================== programs

/-- `A q` is what the call `q` is answered with. -/
inductive Prog {Q : Type} (A : Q → Type) (ε α : Type) : Type
  | pure (a : α)
  | throw (e : ε)
  | call (q : Q) (k : Except ε (A q) → Prog A ε α)

namespace Prog

variable {Q : Type} {A : Q → Type} {ε α β : Type}

/-- One program after another. -/
def bind : Prog A ε α → (α → Prog A ε β) → Prog A ε β
  | .pure a, f => f a
  | .throw e, _ => .throw e
  | .call q k, f => .call q fun r => (k r).bind f

/-- Go on with `h` where the program throws. -/
def handle : Prog A ε α → (ε → Prog A ε α) → Prog A ε α
  | .pure a, _ => .pure a
  | .throw e, h => h e
  | .call q k, h => .call q fun r => (k r).handle h

instance : Monad (Prog A ε) where
  pure := .pure
  bind := bind

instance : MonadExceptOf ε (Prog A ε) where
  throw := .throw
  tryCatch := handle

/-- One call; its error is thrown. -/
def query (q : Q) : Prog A ε (A q) :=
  .call q fun r =>
    match r with
    | .ok a => .pure a
    | .error e => .throw e

/-- What needs no call. -/
def ofExcept : Except ε α → Prog A ε α
  | .ok a => pure a
  | .error e => throw e

/-- The call the program is about to make. -/
def next : Prog A ε α → Option Q
  | .pure _ => none
  | .throw _ => none
  | .call q _ => some q

/-- Every call of the program is of a kind `P`. -/
def Uses (P : Q → Prop) : Prog A ε α → Prop
  | .pure _ => True
  | .throw _ => True
  | .call q k => P q ∧ ∀ r, (k r).Uses P

variable {P : Q → Prop}

@[simp]
theorem uses_pure (a : α) : Uses P (pure a : Prog A ε α) := trivial

@[simp]
theorem uses_throw (e : ε) : Uses P (throw e : Prog A ε α) := trivial

/-- A program that only decides makes no call. -/
@[simp]
theorem uses_ofExcept (x : Except ε α) :
    Uses P (ofExcept x : Prog A ε α) := by
  cases x <;> trivial

/-- Any program makes some calls. -/
theorem uses_any (p : Prog A ε α) : p.Uses fun _ => True := by
  induction p with
  | pure a => trivial
  | throw e => trivial
  | call q k ih => exact ⟨trivial, ih⟩

theorem uses_query {q : Q} (h : P q) : Uses P (query q : Prog A ε (A q)) :=
  ⟨h, fun r => by cases r <;> trivial⟩

/-- Both programs' calls. -/
theorem Uses.bind {p : Prog A ε α} {f : α → Prog A ε β} (hp : p.Uses P)
    (hf : ∀ a, (f a).Uses P) : Uses P (p >>= f) := by
  induction p with
  | pure a => exact hf a
  | throw e => trivial
  | call q k ih => exact ⟨hp.1, fun r => ih r (hp.2 r)⟩

/-- The rest runs on what came of the part without calls. -/
theorem uses_ofExcept_bind {x : Except ε α} {f : α → Prog A ε β}
    (hf : ∀ a, x = .ok a → (f a).Uses P) :
    Uses P (ofExcept x >>= f) := by
  cases x with
  | error e => trivial
  | ok a => exact hf a rfl

/-- The calls of the program and of its handler. -/
theorem Uses.handle {p : Prog A ε α} {h : ε → Prog A ε α} (hp : p.Uses P)
    (hh : ∀ e, (h e).Uses P) : Uses P (tryCatch p h) := by
  induction p with
  | pure a => trivial
  | throw e => exact hh e
  | call q k ih => exact ⟨hp.1, fun r => ih r (hp.2 r)⟩

/-- The calls of a loop. -/
theorem Uses.forM {xs : List β} {f : β → Prog A ε PUnit}
    (hf : ∀ x ∈ xs, (f x).Uses P) : Uses P (xs.forM f) := by
  induction xs with
  | nil => trivial
  | cons x xs ih =>
      show Uses P (f x >>= fun _ => xs.forM f)
      exact (hf x (List.mem_cons_self ..)).bind fun _ =>
        ih fun y hy => hf y (List.mem_cons_of_mem _ hy)

/-- The calls of a loop with an accumulator. -/
theorem Uses.foldlM {xs : List β} {f : α → β → Prog A ε α} {a : α}
    (hf : ∀ x ∈ xs, ∀ a, (f a x).Uses P) : Uses P (xs.foldlM f a) := by
  induction xs generalizing a with
  | nil => trivial
  | cons x xs ih =>
      show Uses P (f a x >>= fun a' => xs.foldlM f a')
      exact (hf x (List.mem_cons_self ..) a).bind fun a' =>
        ih fun y hy => hf y (List.mem_cons_of_mem _ hy)

/-- A result that is mapped makes no call. -/
theorem Uses.map {p : Prog A ε α} {f : α → β} (hp : p.Uses P) :
    Uses P (f <$> p) :=
  hp.bind fun _ => trivial

/-- Calls of more kinds. -/
theorem Uses.mono {P' : Q → Prop} {p : Prog A ε α} (hp : p.Uses P)
    (h : ∀ q, P q → P' q) : p.Uses P' := by
  induction p with
  | pure a => trivial
  | throw e => trivial
  | call q k ih => exact ⟨h q hp.1, fun r => ih r (hp.2 r)⟩

end Prog

-- ======================================================== disciplines

/-- `Rely i` is what process `i` counts on while others run, `Pre i q`
what it knows when it calls `q`, `Allow i q c` says that the choice `c`
for that call is among those considered. -/
structure Discipline (Q σ χ : Type) where
  Inv : σ → Prop
  Rely : ℕ → σ → σ → Prop
  Pre : ℕ → Q → σ → Prop
  Allow : ℕ → Q → χ → σ → Prop

namespace Discipline

variable {Q : Type} {A : Q → Type} {ε α β σ χ : Type}

/-- The states process `i` may find itself in after `s`. -/
def Later (D : Discipline Q σ χ) (i : ℕ) (s s' : σ) : Prop :=
  D.Rely i s s' ∧ D.Inv s'

/-- A call made with its precondition keeps the invariant and what every
other process relies on. -/
structure Lawful (D : Discipline Q σ χ)
    (exec : ℕ → (q : Q) → χ → σ → σ × Except ε (A q)) : Prop where
  refl : ∀ i s, D.Rely i s s
  trans : ∀ i s₁ s₂ s₃, D.Rely i s₁ s₂ → D.Rely i s₂ s₃ → D.Rely i s₁ s₃
  keeps : ∀ i q c s, D.Inv s → D.Pre i q s → D.Allow i q c s →
    D.Inv (exec i q c s).1 ∧ ∀ j, j ≠ i → D.Rely j s (exec i q c s).1

/-- A call keeps what its own process relies on, too. -/
def Uniform (D : Discipline Q σ χ)
    (exec : ℕ → (q : Q) → χ → σ → σ × Except ε (A q)) : Prop :=
  ∀ i j q c s, D.Inv s → D.Pre j q s → D.Allow j q c s →
    D.Rely i s (exec j q c s).1

variable (D : Discipline Q σ χ)
  (exec : ℕ → (q : Q) → χ → σ → σ × Except ε (A q)) (i : ℕ)

/-- Whatever the others do in between, each call of the program is one
it may make, and in the end its result is as promised. -/
def Safe (post : Except ε α → σ → Prop) : Prog A ε α → σ → Prop
  | .pure a, s => ∀ s', D.Later i s s' → post (.ok a) s'
  | .throw e, s => ∀ s', D.Later i s s' → post (.error e) s'
  | .call q k, s => ∀ s', D.Later i s s' → D.Pre i q s' ∧
      ∀ c, D.Allow i q c s' →
        Safe post (k (exec i q c s').2) (exec i q c s').1

variable {D exec i}

/-- The program has returned, with `P`. -/
def Returns (P : α → σ → Prop) (r : Except ε α) (s : σ) : Prop :=
  ∃ a, r = .ok a ∧ P a s

namespace Safe

variable {post : Except ε α → σ → Prop} {s s' : σ}

/-- A safe program is safe later. -/
theorem later (L : D.Lawful exec) {p : Prog A ε α}
    (h : D.Safe exec i post p s) (hs : D.Later i s s') :
    D.Safe exec i post p s' := by
  have htrans : ∀ s'', D.Later i s' s'' → D.Later i s s'' :=
    fun s'' h' => ⟨L.trans i _ _ _ hs.1 h'.1, h'.2⟩
  cases p with
  | pure a => exact fun s'' h' => h s'' (htrans s'' h')
  | throw e => exact fun s'' h' => h s'' (htrans s'' h')
  | call q k => exact fun s'' h' => h s'' (htrans s'' h')

/-- A finished program has its postcondition now. -/
theorem now (L : D.Lawful exec) {a : α}
    (h : D.Safe exec i post (.pure a) s) (hs : D.Inv s) :
    post (.ok a) s :=
  h s ⟨L.refl i s, hs⟩

/-- What is thrown is as promised. -/
theorem thrown (L : D.Lawful exec) {e : ε}
    (h : D.Safe exec i post (.throw e) s) (hs : D.Inv s) :
    post (.error e) s :=
  h s ⟨L.refl i s, hs⟩

/-- Whatever is promised in the end. -/
theorem mono {post' : Except ε α → σ → Prop} {p : Prog A ε α}
    (h : D.Safe exec i post p s)
    (hpost : ∀ r s', D.Inv s' → post r s' → post' r s') :
    D.Safe exec i post' p s := by
  induction p generalizing s with
  | pure a => exact fun s' hs => hpost _ s' hs.2 (h s' hs)
  | throw e => exact fun s' hs => hpost _ s' hs.2 (h s' hs)
  | call q k ih =>
      exact fun s' hs => ⟨(h s' hs).1, fun c hc => ih _ ((h s' hs).2 c hc)⟩

-- the three rules a program's text is taken apart with

/-- Step after step, by way of what holds in between. -/
theorem bind (L : D.Lawful exec) (mid : Except ε β → σ → Prop)
    {p : Prog A ε β} {f : β → Prog A ε α}
    (h : D.Safe exec i mid p s) (hs : D.Inv s)
    (hok : ∀ a s', D.Inv s' → mid (.ok a) s' →
      D.Safe exec i post (f a) s')
    (herror : ∀ e s', D.Inv s' → mid (.error e) s' → post (.error e) s') :
    D.Safe exec i post (p >>= f) s := by
  induction p generalizing s with
  | pure a => exact hok a s hs (h.now L hs)
  | throw e => exact fun s' hs' => herror e s' hs'.2 (h s' hs')
  | call q k ih =>
      intro s' hs'
      obtain ⟨hpre, hrest⟩ := h s' hs'
      refine ⟨hpre, fun c hc => ih _ (hrest c hc) ?_⟩
      exact (L.keeps i q c s' hs'.2 hpre hc).1

/-- A result that is mapped. -/
theorem map {p : Prog A ε β} {f : β → α}
    (h : D.Safe exec i (fun r s' => post (r.map f) s') p s) :
    D.Safe exec i post (f <$> p) s := by
  induction p generalizing s with
  | pure a => exact fun s' hs => h s' hs
  | throw e => exact fun s' hs => h s' hs
  | call q k ih =>
      exact fun s' hs => ⟨(h s' hs).1, fun c hc => ih _ ((h s' hs).2 c hc)⟩

/-- A handler may assume what holds where its program throws. -/
theorem handle (L : D.Lawful exec) (mid : Except ε α → σ → Prop)
    {p : Prog A ε α} {h : ε → Prog A ε α}
    (hp : D.Safe exec i mid p s) (hs : D.Inv s)
    (hok : ∀ a s', D.Inv s' → mid (.ok a) s' → post (.ok a) s')
    (herror : ∀ e s', D.Inv s' → mid (.error e) s' →
      D.Safe exec i post (h e) s') :
    D.Safe exec i post (tryCatch p h) s := by
  induction p generalizing s with
  | pure a => exact fun s' hs' => hok a s' hs'.2 (hp s' hs')
  | throw e => exact herror e s hs (hp.thrown L hs)
  | call q k ih =>
      intro s' hs'
      obtain ⟨hpre, hrest⟩ := hp s' hs'
      refine ⟨hpre, fun c hc => ih _ (hrest c hc) ?_⟩
      exact (L.keeps i q c s' hs'.2 hpre hc).1

/-- Where errors are of no interest, a throw is safe. -/
theorem throw (h : ∀ e s', D.Inv s' → post (.error e) s') (e : ε) :
    D.Safe exec i post (.throw e : Prog A ε α) s :=
  fun s' hs => h e s' hs.2

/-- A call and what follows it. -/
theorem query_bind {q : Q} {f : A q → Prog A ε α}
    (h : ∀ s', D.Later i s s' → D.Pre i q s' ∧
      ∀ c, D.Allow i q c s' →
        (∀ a, (exec i q c s').2 = .ok a →
          D.Safe exec i post (f a) (exec i q c s').1)
        ∧ ∀ e, (exec i q c s').2 = .error e →
          D.Safe exec i post (.throw e) (exec i q c s').1) :
    D.Safe exec i post (Prog.query q >>= f) s := by
  intro s' hs
  obtain ⟨hpre, hrest⟩ := h s' hs
  refine ⟨hpre, fun c hc => ?_⟩
  obtain ⟨hok, herror⟩ := hrest c hc
  cases hr : (exec i q c s').2 with
  | ok a => exact hok a hr
  | error e => exact herror e hr

/-- A call that is answered, whatever is allowed. -/
theorem query_ok {q : Q} {f : A q → Prog A ε α}
    (h : ∀ s', D.Later i s s' → D.Pre i q s' ∧
      ∀ c, D.Allow i q c s' → ∃ s'' a, exec i q c s' = (s'', .ok a) ∧
        D.Safe exec i post (f a) s'') :
    D.Safe exec i post (Prog.query q >>= f) s := by
  refine query_bind fun s' hs => ⟨(h s' hs).1, fun c hc => ?_⟩
  obtain ⟨s'', a, hexec, hsafe⟩ := (h s' hs).2 c hc
  rw [hexec]
  refine ⟨fun a' ha' => ?_, fun e he => by cases he⟩
  injection ha' with ha'
  exact ha' ▸ hsafe

/-- A call in last place. -/
theorem query {q : Q} {post : Except ε (A q) → σ → Prop}
    (h : ∀ s', D.Later i s s' → D.Pre i q s' ∧
      ∀ c, D.Allow i q c s' → ∀ s'', D.Later i (exec i q c s').1 s'' →
        post (exec i q c s').2 s'') :
    D.Safe exec i post (Prog.query q) s := by
  intro s' hs
  obtain ⟨hpre, hrest⟩ := h s' hs
  refine ⟨hpre, fun c hc => ?_⟩
  have hpost := hrest c hc
  cases hr : (exec i q c s').2 with
  | ok a => exact fun s'' hs'' => hr ▸ hpost s'' hs''
  | error e => exact fun s'' hs'' => hr ▸ hpost s'' hs''

/-- A loop: `I` is what holds after the passes made so far, whatever the
others do. -/
theorem foldlM (L : D.Lawful exec) (I : List β → α → σ → Prop)
    {f : α → β → Prog A ε α} {xs : List β}
    (hstable : ∀ pre a s s', I pre a s → D.Later i s s' → I pre a s')
    (hpass : ∀ pre x suf, xs = pre ++ x :: suf → ∀ a s', D.Inv s' →
      I pre a s' →
      D.Safe exec i (fun r s'' => ∀ a', r = .ok a' → I (pre ++ [x]) a' s'')
        (f a x) s')
    {a : α} (hs : D.Inv s) (h : I [] a s) :
    D.Safe exec i (fun r s' => ∀ a', r = .ok a' → I xs a' s')
      (xs.foldlM f a) s := by
  -- the induction is on what is left, `pre` is what is done
  have hrest : ∀ (suf pre : List β), xs = pre ++ suf → ∀ a s', D.Inv s' →
      I pre a s' →
      D.Safe exec i (fun r s'' => ∀ a', r = .ok a' → I xs a' s'')
        (suf.foldlM f a) s' := by
    intro suf
    induction suf with
    | nil =>
        intro pre hxs a s' _ h s'' hs'' a' ha'
        injection ha' with ha'
        rw [hxs, List.append_nil, ← ha']
        exact hstable pre a s' s'' h hs''
    | cons x suf ih =>
        intro pre hxs a s' hs' h
        show D.Safe exec i _ (f a x >>= fun a' => suf.foldlM f a') s'
        refine (hpass pre x suf hxs a s' hs' h).bind L _ hs' ?_ ?_
        · intro a' s'' hs'' hI
          refine ih (pre ++ [x]) ?_ a' s'' hs'' (hI a' rfl)
          rw [hxs, List.append_assoc, List.singleton_append]
        · intro e s'' _ _ a' ha'
          cases ha'
  exact hrest xs [] rfl a s hs h

/-- A loop keeps what each pass carries on from the elements before
it. -/
theorem forM (L : D.Lawful exec) (I : List β → σ → Prop)
    {f : β → Prog A ε PUnit} {xs : List β}
    (hstable : ∀ pre s s', I pre s → D.Later i s s' → I pre s')
    (hpass : ∀ pre x suf, xs = pre ++ x :: suf → ∀ s', D.Inv s' →
      I pre s' →
      D.Safe exec i (fun r s'' => ∀ a, r = .ok a → I (pre ++ [x]) s'')
        (f x) s')
    (hs : D.Inv s) (h : I [] s) :
    D.Safe exec i (fun r s' => ∀ a, r = .ok a → I xs s')
      (xs.forM f) s := by
  have hrest : ∀ (suf pre : List β), xs = pre ++ suf → ∀ s', D.Inv s' →
      I pre s' →
      D.Safe exec i (fun r s'' => ∀ a, r = .ok a → I xs s'')
        (suf.forM f) s' := by
    intro suf
    induction suf with
    | nil =>
        intro pre hxs s' _ h s'' hs'' a ha
        rw [hxs, List.append_nil]
        exact hstable pre s' s'' h hs''
    | cons x suf ih =>
        intro pre hxs s' hs' h
        show D.Safe exec i _ (f x >>= fun _ => suf.forM f) s'
        refine (hpass pre x suf hxs s' hs' h).bind L _ hs' ?_ ?_
        · intro a s'' hs'' hI
          refine ih (pre ++ [x]) ?_ s'' hs'' (hI a rfl)
          rw [hxs, List.append_assoc, List.singleton_append]
        · intro e s'' _ _ a ha
          cases ha
  exact hrest xs [] rfl s hs h

-- programs of which only what they return matters

/-- Then a throw is safe. -/
theorem throws {P : α → σ → Prop} (e : ε) :
    D.Safe exec i (fun r s' => ∀ a, r = .ok a → P a s')
      (.throw e : Prog A ε α) s := by
  intro s' _ a ha
  cases ha

/-- A step without a call, and what follows it. -/
theorem ofExcept_then {P : α → σ → Prop} {x : Except ε β}
    {f : β → Prog A ε α}
    (h : ∀ b, x = .ok b →
      D.Safe exec i (fun r s' => ∀ a, r = .ok a → P a s') (f b) s) :
    D.Safe exec i (fun r s' => ∀ a, r = .ok a → P a s')
      (Prog.ofExcept x >>= f) s := by
  cases x with
  | ok b => exact h b rfl
  | error e => exact throws e

/-- A program, and what follows its result. -/
theorem bind_then (L : D.Lawful exec) {P : α → σ → Prop}
    {M : β → σ → Prop} {p : Prog A ε β} {f : β → Prog A ε α}
    (h : D.Safe exec i (fun r s' => ∀ b, r = .ok b → M b s') p s)
    (hs : D.Inv s)
    (hok : ∀ b s', D.Inv s' → M b s' →
      D.Safe exec i (fun r s' => ∀ a, r = .ok a → P a s') (f b) s') :
    D.Safe exec i (fun r s' => ∀ a, r = .ok a → P a s') (p >>= f) s := by
  refine h.bind L _ hs (fun b s' hs' hmid => hok b s' hs' (hmid b rfl)) ?_
  intro e s' _ _ a ha
  cases ha

/-- A call, and what follows its answer. -/
theorem query_then {P : α → σ → Prop} {q : Q} {f : A q → Prog A ε α}
    (h : ∀ s', D.Later i s s' → D.Pre i q s' ∧
      ∀ c, D.Allow i q c s' → ∀ a, (exec i q c s').2 = .ok a →
        D.Safe exec i (fun r s' => ∀ a, r = .ok a → P a s') (f a)
          (exec i q c s').1) :
    D.Safe exec i (fun r s' => ∀ a, r = .ok a → P a s')
      (Prog.query q >>= f) s :=
  query_bind fun s' hs => ⟨(h s' hs).1, fun c hc =>
    ⟨fun a ha => (h s' hs).2 c hc a ha, fun e _ => throws e⟩⟩

-- programs that never throw

/-- A program that returns, and what follows. -/
theorem bind_returns (L : D.Lawful exec) {M : β → σ → Prop}
    {p : Prog A ε β} {f : β → Prog A ε α}
    (h : D.Safe exec i (Returns M) p s) (hs : D.Inv s)
    (hok : ∀ a s', D.Inv s' → M a s' → D.Safe exec i post (f a) s') :
    D.Safe exec i post (p >>= f) s := by
  refine h.bind L _ hs ?_ ?_
  · intro a s' hs' hreturns
    obtain ⟨a', ha, hmid⟩ := hreturns
    injection ha with ha
    exact hok a s' hs' (ha ▸ hmid)
  · intro e s' _ hreturns
    obtain ⟨a, ha, -⟩ := hreturns
    cases ha

/-- A call that is always answered. -/
theorem query_returns {q : Q} {P : A q → σ → Prop}
    (h : ∀ s', D.Later i s s' → D.Pre i q s' ∧
      ∀ c, D.Allow i q c s' → ∃ s'' a, exec i q c s' = (s'', .ok a) ∧
        ∀ s₃, D.Later i s'' s₃ → P a s₃) :
    D.Safe exec i (Returns P) (Prog.query q) s := by
  refine query fun s' hs => ⟨(h s' hs).1, fun c hc s₃ hs₃ => ?_⟩
  obtain ⟨s'', a, hexec, hP⟩ := (h s' hs).2 c hc
  rw [hexec] at hs₃ ⊢
  exact ⟨a, rfl, hP s₃ hs₃⟩

/-- A loop whose every pass returns. -/
theorem forM_returns (L : D.Lawful exec) (I : List β → σ → Prop)
    {f : β → Prog A ε PUnit} {xs : List β}
    (hstable : ∀ pre s s', I pre s → D.Later i s s' → I pre s')
    (hpass : ∀ pre x suf, xs = pre ++ x :: suf → ∀ s', D.Inv s' →
      I pre s' →
      D.Safe exec i (Returns fun _ s'' => I (pre ++ [x]) s'') (f x) s')
    (hs : D.Inv s) (h : I [] s) :
    D.Safe exec i (Returns fun _ s' => I xs s') (xs.forM f) s := by
  have hrest : ∀ (suf pre : List β), xs = pre ++ suf → ∀ s', D.Inv s' →
      I pre s' →
      D.Safe exec i (Returns fun _ s'' => I xs s'') (suf.forM f) s' := by
    intro suf
    induction suf with
    | nil =>
        intro pre hxs s' _ h s'' hs''
        rw [List.append_nil] at hxs
        exact ⟨_, rfl, hxs ▸ hstable pre s' s'' h hs''⟩
    | cons x suf ih =>
        intro pre hxs s' hs' h
        show D.Safe exec i _ (f x >>= fun _ => suf.forM f) s'
        refine (hpass pre x suf hxs s' hs' h).bind_returns L hs' ?_
        intro a s'' hs'' hI
        refine ih (pre ++ [x]) ?_ s'' hs'' hI
        rw [hxs, List.append_assoc, List.singleton_append]
  exact hrest xs [] rfl s hs h

/-- What no call disturbs may be set aside. -/
theorem frame (U : D.Uniform exec) {I : σ → Prop}
    (hI : ∀ s s', I s → D.Rely i s s' → I s') {p : Prog A ε α}
    (h : D.Safe exec i post p s) (hs : I s) :
    D.Safe exec i (fun r s' => post r s' ∧ I s') p s := by
  induction p generalizing s with
  | pure a => exact fun s' hs' => ⟨h s' hs', hI s s' hs hs'.1⟩
  | throw e => exact fun s' hs' => ⟨h s' hs', hI s s' hs hs'.1⟩
  | call q k ih =>
      intro s' hs'
      obtain ⟨hpre, hrest⟩ := h s' hs'
      refine ⟨hpre, fun c hc => ih _ (hrest c hc) ?_⟩
      exact hI s' _ (hI s s' hs hs'.1)
        (U i i q c s' hs'.2 hpre hc)

/-- A program whose calls need only what no call disturbs. -/
theorem of_uses_with (U : D.Uniform exec) {I : σ → Prop} {P : Q → Prop}
    (hI : ∀ s s', I s → D.Rely i s s' → I s')
    (hpre : ∀ q s, P q → I s → D.Pre i q s) {p : Prog A ε α}
    (h : p.Uses P) (hs : I s) :
    D.Safe exec i (fun _ s' => I s') p s := by
  induction p generalizing s with
  | pure a => exact fun s' hs' => hI s s' hs hs'.1
  | throw e => exact fun s' hs' => hI s s' hs hs'.1
  | call q k ih =>
      intro s' hs'
      have hs₁ := hI s s' hs hs'.1
      have hq := hpre q s' h.1 hs₁
      exact ⟨hq, fun c hc => ih _ (h.2 _)
        (hI s' _ hs₁ (U i i q c s' hs'.2 hq hc))⟩

/-- A program whose calls need no knowledge. -/
theorem of_uses {P : Q → Prop} (hpre : ∀ i q s, P q → D.Pre i q s)
    {p : Prog A ε α} (h : p.Uses P) :
    D.Safe exec i (fun _ _ => True) p s := by
  induction p generalizing s with
  | pure a => exact fun s' _ => trivial
  | throw e => exact fun s' _ => trivial
  | call q k ih =>
      exact fun s' _ => ⟨hpre i q s' h.1, fun c _ => ih _ (h.2 _)⟩

end Safe

end Discipline

-- ============================================================== pools

/-- A process: what it was started for, and the rest of its program,
none if it was killed. -/
structure Proc {Q : Type} (A : Q → Type) (ε ρ τ : Type) where
  task : τ
  code : Option (Prog A ε ρ)

/-- The shared state, and the processes in the order they started. -/
structure Machine {Q : Type} (A : Q → Type) (ε ρ τ σ : Type) where
  shared : σ
  procs : List (Proc A ε ρ τ)

/-- The call process `i` is about to make. -/
def Machine.next {Q : Type} {A : Q → Type} {ε ρ τ σ : Type}
    (m : Machine A ε ρ τ σ) (i : ℕ) : Option Q :=
  (m.procs[i]?).bind fun p => p.code.bind Prog.next

/-- A process that is about to make a call. -/
theorem Machine.next_pending {Q : Type} {A : Q → Type} {ε ρ τ σ : Type}
    {m : Machine A ε ρ τ σ} {i : ℕ} {t : τ} {q : Q}
    {k : Except ε (A q) → Prog A ε ρ}
    (hi : m.procs[i]? = some ⟨t, some (.call q k)⟩) :
    m.next i = some q := by
  rw [Machine.next, hi]
  rfl

/-- A process was started for `t` and has not been killed. -/
def Machine.Alive {Q : Type} {A : Q → Type} {ε ρ τ σ : Type}
    (m : Machine A ε ρ τ σ) (t : τ) : Prop :=
  ∃ (i : ℕ) (c : Prog A ε ρ), m.procs[i]? = some ⟨t, some c⟩

/-- A process starts, makes its next call or dies, or something happens
outside. -/
inductive MachineEvent (τ χ η : Type)
  | start (t : τ)
  | run (i : ℕ) (c : χ)
  | kill (i : ℕ)
  | outside (e : η)

/-- `code` is the program of a task, `exec` answers its calls, `outside`
is what else happens to the state, with the tasks that follow from it. -/
structure System {Q : Type} (A : Q → Type) (ε ρ τ σ χ η : Type) where
  code : τ → Prog A ε ρ
  exec : ℕ → (q : Q) → χ → σ → σ × Except ε (A q)
  outside : η → σ → Option (σ × List τ)

namespace System

variable {Q : Type} {A : Q → Type} {ε ρ τ σ χ η : Type}

/-- A process at its start. -/
def spawn (sys : System A ε ρ τ σ χ η) (t : τ) : Proc A ε ρ τ :=
  ⟨t, some (sys.code t)⟩

/-- One event. A process that has ended, or was killed, does nothing. -/
def step (sys : System A ε ρ τ σ χ η) (p : Machine A ε ρ τ σ) :
    MachineEvent τ χ η → Except Unit (Machine A ε ρ τ σ)
  | .start t => .ok { p with procs := p.procs ++ [sys.spawn t] }
  | .run i c =>
      match p.procs[i]? with
      | some ⟨t, some (.call q k)⟩ =>
          let (s', r) := sys.exec i q c p.shared
          .ok { shared := s', procs := p.procs.set i ⟨t, some (k r)⟩ }
      | _ => .error ()
  | .kill i =>
      match p.procs[i]? with
      | some ⟨t, some (.call _ _)⟩ =>
          .ok { p with procs := p.procs.set i ⟨t, none⟩ }
      | _ => .error ()
  | .outside e =>
      match sys.outside e p.shared with
      | none => .error ()
      | some (s', ts) =>
          .ok { shared := s', procs := p.procs ++ ts.map sys.spawn }

/-- Everything an accepted event can do. -/
inductive Moved (sys : System A ε ρ τ σ χ η) (p : Machine A ε ρ τ σ) :
    MachineEvent τ χ η → Machine A ε ρ τ σ → Prop
  | started (t : τ) :
      Moved sys p (.start t) { p with procs := p.procs ++ [sys.spawn t] }
  | ran {i : ℕ} {c : χ} {t : τ} {q : Q}
      {k : Except ε (A q) → Prog A ε ρ}
      (hi : p.procs[i]? = some ⟨t, some (.call q k)⟩) :
      Moved sys p (.run i c)
        { shared := (sys.exec i q c p.shared).1
          procs := p.procs.set i
            ⟨t, some (k (sys.exec i q c p.shared).2)⟩ }
  | killed {i : ℕ} {t : τ} {q : Q} {k : Except ε (A q) → Prog A ε ρ}
      (hi : p.procs[i]? = some ⟨t, some (.call q k)⟩) :
      Moved sys p (.kill i) { p with procs := p.procs.set i ⟨t, none⟩ }
  | happened {e : η} {s' : σ} {ts : List τ}
      (he : sys.outside e p.shared = some (s', ts)) :
      Moved sys p (.outside e)
        { shared := s', procs := p.procs ++ ts.map sys.spawn }

/-- The inversion of one accepted event. -/
theorem step_cases {sys : System A ε ρ τ σ χ η} {p p' : Machine A ε ρ τ σ}
    {e : MachineEvent τ χ η} (h : sys.step p e = .ok p') :
    sys.Moved p e p' := by
  cases e with
  | start t =>
      injection h with h
      exact h ▸ .started t
  | run i c =>
      simp only [step] at h
      split at h
      · rename_i t q k hi
        injection h with h
        exact h ▸ .ran hi
      · cases h
  | kill i =>
      simp only [step] at h
      split at h
      · rename_i t q k hi
        injection h with h
        exact h ▸ .killed hi
      · cases h
  | outside e =>
      simp only [step] at h
      split at h
      · cases h
      · rename_i s' ts he
        injection h with h
        exact h ▸ .happened he

/-- Without a kill, whoever is alive stays alive. -/
theorem Moved.alive {sys : System A ε ρ τ σ χ η}
    {p p' : Machine A ε ρ τ σ} {e : MachineEvent τ χ η}
    (hmoved : sys.Moved p e p') (hkill : ∀ i, e ≠ .kill i) {t : τ}
    (h : p.Alive t) : p'.Alive t := by
  obtain ⟨i, c, hi⟩ := h
  have hjoin : ∀ procs : List (Proc A ε ρ τ),
      (p.procs ++ procs)[i]? = some ⟨t, some c⟩ := fun procs => by
    obtain ⟨hlt, -⟩ := List.getElem?_eq_some_iff.mp hi
    exact (List.getElem?_append_left hlt).trans hi
  cases hmoved with
  | started t' => exact ⟨i, c, hjoin _⟩
  | ran hj =>
      rename_i j c' t' q k
      by_cases hij : j = i
      · subst hij
        rw [hi] at hj
        injection hj with hj
        injection hj with ht
        subst ht
        obtain ⟨hlt, -⟩ := List.getElem?_eq_some_iff.mp hi
        exact ⟨j, _, List.getElem?_set_self hlt⟩
      · exact ⟨i, c, (List.getElem?_set_ne hij).trans hi⟩
  | killed hj => exact absurd rfl (hkill _)
  | happened he => exact ⟨i, c, hjoin _⟩

/-- It is alive. -/
theorem alive_spawned (sys : System A ε ρ τ σ χ η) {s : σ}
    {procs : List (Proc A ε ρ τ)} {ts : List τ} {t : τ} (h : t ∈ ts) :
    Machine.Alive
      (⟨s, procs ++ ts.map sys.spawn⟩ : Machine A ε ρ τ σ) t := by
  obtain ⟨k, hk⟩ := List.mem_iff_getElem?.mp h
  refine ⟨procs.length + k, sys.code t, ?_⟩
  rw [List.getElem?_append_right (Nat.le_add_right ..),
    Nat.add_sub_cancel_left, List.getElem?_map, hk]
  rfl

-- ============================================================= the calls

/-- Every process makes calls of the kinds its task is for. -/
def AllUse (P : τ → Q → Prop) (p : Machine A ε ρ τ σ) : Prop :=
  ∀ (i : ℕ) (t : τ) (c : Prog A ε ρ), p.procs[i]? = some ⟨t, some c⟩ →
    c.Uses (P t)

/-- Processes that join make their own calls. -/
theorem AllUse.join {sys : System A ε ρ τ σ χ η} {P : τ → Q → Prop}
    (hcode : ∀ t, (sys.code t).Uses (P t)) {p : Machine A ε ρ τ σ}
    (h : AllUse P p) (s' : σ) (ts : List τ) :
    AllUse P { shared := s', procs := p.procs ++ ts.map sys.spawn } := by
  intro i t c hi
  rcases Nat.lt_or_ge i p.procs.length with hlt | hge
  · rw [List.getElem?_append_left hlt] at hi
    exact h i t c hi
  · rw [List.getElem?_append_right hge] at hi
    obtain ⟨t', -, heq⟩ := List.mem_map.mp (List.mem_of_getElem? hi)
    injection heq with htask hc
    injection hc with hc
    rw [← htask, ← hc]
    exact hcode t'

/-- So does one that moves on. -/
theorem AllUse.put {P : τ → Q → Prop} {p : Machine A ε ρ τ σ}
    (h : AllUse P p) (s' : σ) (i : ℕ) {t : τ}
    {code : Option (Prog A ε ρ)} (hcode : ∀ c, code = some c → c.Uses (P t)) :
    AllUse P { shared := s', procs := p.procs.set i ⟨t, code⟩ } := by
  intro j t' c hj
  by_cases hij : i = j
  · subst hij
    rw [List.getElem?_set] at hj
    simp only [if_true] at hj
    split at hj
    · injection hj with hj
      injection hj with htask hc
      exact htask ▸ hcode c hc
    · cases hj
  · rw [List.getElem?_set_ne hij] at hj
    exact h j t' c hj

/-- So in every event. -/
theorem AllUse.next {sys : System A ε ρ τ σ χ η} {P : τ → Q → Prop}
    (hcode : ∀ t, (sys.code t).Uses (P t)) {p p' : Machine A ε ρ τ σ}
    (h : AllUse P p) {e : MachineEvent τ χ η} (hmoved : sys.Moved p e p') :
    AllUse P p' := by
  cases hmoved with
  | started t => exact h.join hcode _ [t]
  | ran hi =>
      refine h.put _ _ fun c hc => ?_
      injection hc with hc
      exact hc ▸ (h _ _ _ hi).2 _
  | killed hi =>
      refine h.put _ _ fun c hc => ?_
      cases hc
  | happened he => exact h.join hcode _ _

/-- The rule for runs. -/
theorem uses_run {sys : System A ε ρ τ σ χ η} {P : τ → Q → Prop}
    (hcode : ∀ t, (sys.code t).Uses (P t)) {p : Machine A ε ρ τ σ}
    (h : AllUse P p) (es : List (MachineEvent τ χ η)) :
    AllUse P (Run.run sys.step p es) :=
  Run.run_induction (AllUse P) h
    (fun _ _ _ h hs => h.next hcode (step_cases hs)) es

-- ============================================================ the rule

/-- A condition on a transition: on the task it starts, or on the call
it makes, with the choice and the state before. -/
def Meets (starts : τ → Prop) (calls : ℕ → Q → χ → σ → Prop)
    (t : Run.Transition (Machine A ε ρ τ σ) (MachineEvent τ χ η)) : Prop :=
  match t.event with
  | .start task => starts task
  | .run i c => ∀ q ∈ t.before.next i, calls i q c t.before.shared
  | .kill _ => True
  | .outside _ => True

instance (starts : τ → Prop) (calls : ℕ → Q → χ → σ → Prop)
    [DecidablePred starts] [∀ i q c s, Decidable (calls i q c s)]
    (t : Run.Transition (Machine A ε ρ τ σ) (MachineEvent τ χ η)) :
    Decidable (Meets starts calls t) := by
  unfold Meets
  split <;> infer_instance

/-- Conditions on what is started and on the calls, in one. -/
theorem meets_of_started {sys : System A ε ρ τ σ χ η}
    {p : Machine A ε ρ τ σ} {es : List (MachineEvent τ χ η)}
    {starts : τ → Prop} {calls : ℕ → Q → χ → σ → Prop}
    (hstart : ∀ e ∈ es, ∀ t, e = .start t → starts t)
    (hes : ∀ t ∈ Run.accepted sys.step p es,
      Meets (fun _ => True) calls t) :
    ∀ t ∈ Run.accepted sys.step p es, Meets starts calls t := by
  intro t ht
  have hcalls := hes t ht
  unfold Meets at hcalls ⊢
  split
  · rename_i task he
    exact hstart _ (Run.event_of_mem_accepted ht) task he
  · rename_i i c he
    rw [he] at hcalls
    exact hcalls
  · trivial
  · trivial

variable {D : Discipline Q σ χ} {post : τ → Except ε ρ → σ → Prop}

/-- Every process is safe where the state stands. -/
structure Guarded (sys : System A ε ρ τ σ χ η) (D : Discipline Q σ χ)
    (post : τ → Except ε ρ → σ → Prop) (p : Machine A ε ρ τ σ) : Prop where
  inv : D.Inv p.shared
  safe : ∀ i t c, p.procs[i]? = some ⟨t, some c⟩ →
    D.Safe sys.exec i (post t) c p.shared

namespace Guarded

variable {sys : System A ε ρ τ σ χ η} {p p' : Machine A ε ρ τ σ}

/-- A process that has returned. -/
theorem finished (L : D.Lawful sys.exec) (h : Guarded sys D post p) {i : ℕ}
    {t : τ} {r : ρ} (hi : p.procs[i]? = some ⟨t, some (.pure r)⟩) :
    post t (.ok r) p.shared :=
  (h.safe i t _ hi).now L h.inv

/-- A pending call is made with its precondition. -/
theorem pre (L : D.Lawful sys.exec) (h : Guarded sys D post p) {i : ℕ}
    {t : τ} {q : Q} {k : Except ε (A q) → Prog A ε ρ}
    (hi : p.procs[i]? = some ⟨t, some (.call q k)⟩) :
    D.Pre i q p.shared :=
  (h.safe i t _ hi p.shared ⟨L.refl i _, h.inv⟩).1

/-- What a process threw is as promised. -/
theorem threw (L : D.Lawful sys.exec) (h : Guarded sys D post p) {i : ℕ}
    {t : τ} {e : ε} (hi : p.procs[i]? = some ⟨t, some (.throw e)⟩) :
    post t (.error e) p.shared :=
  (h.safe i t _ hi).thrown L h.inv

/-- New processes join the old ones, which only see the state move on. -/
theorem join (L : D.Lawful sys.exec) (h : Guarded sys D post p) {s' : σ}
    {ts : List τ} (hinv : D.Inv s') (hrely : ∀ i, D.Rely i p.shared s')
    (hts : ∀ t ∈ ts, ∀ i, D.Safe sys.exec i (post t) (sys.code t) s') :
    Guarded sys D post
      { shared := s', procs := p.procs ++ ts.map sys.spawn } := by
  refine ⟨hinv, fun i t c hi => ?_⟩
  rcases Nat.lt_or_ge i p.procs.length with hlt | hge
  · rw [List.getElem?_append_left hlt] at hi
    exact (h.safe i t c hi).later L ⟨hrely i, hinv⟩
  · rw [List.getElem?_append_right hge] at hi
    obtain ⟨t', ht', heq⟩ :=
      List.mem_map.mp (List.mem_of_getElem? hi)
    injection heq with htask hcode
    injection hcode with hcode
    rw [← htask, ← hcode]
    exact hts t' ht' i

/-- One process goes on, the others see what they rely on. -/
theorem put (L : D.Lawful sys.exec) (h : Guarded sys D post p) {i : ℕ}
    {s' : σ} {t : τ} {code : Option (Prog A ε ρ)}
    (hinv : D.Inv s') (hrely : ∀ j, j ≠ i → D.Rely j p.shared s')
    (hcode : ∀ c, code = some c → D.Safe sys.exec i (post t) c s') :
    Guarded sys D post
      { shared := s', procs := p.procs.set i ⟨t, code⟩ } := by
  refine ⟨hinv, fun j t' c hj => ?_⟩
  by_cases hij : i = j
  · subst hij
    rw [List.getElem?_set] at hj
    simp only [if_true] at hj
    split at hj
    · injection hj with hj
      injection hj with htask hc
      exact htask ▸ hcode c hc
    · cases hj
  · rw [List.getElem?_set_ne hij] at hj
    exact (h.safe j t' c hj).later L ⟨hrely j (Ne.symm hij), hinv⟩

/-- While every event meets the conditions, all processes stay
guarded. -/
theorem next (L : D.Lawful sys.exec) {starts : τ → Prop}
    (hstart : ∀ t, starts t → ∀ i s, D.Inv s →
      D.Safe sys.exec i (post t) (sys.code t) s)
    (hout : ∀ e s s' ts, D.Inv s → sys.outside e s = some (s', ts) →
      D.Inv s' ∧ (∀ i, D.Rely i s s')
        ∧ ∀ t ∈ ts, ∀ i, D.Safe sys.exec i (post t) (sys.code t) s')
    (h : Guarded sys D post p) {e : MachineEvent τ χ η}
    (hmoved : sys.Moved p e p') (hmeets : Meets starts D.Allow ⟨p, e, p'⟩) :
    Guarded sys D post p' := by
  cases hmoved with
  | started t =>
      have hsafe : ∀ t' ∈ [t], ∀ i,
          D.Safe sys.exec i (post t') (sys.code t') p.shared := by
        intro t' ht' i
        rw [List.mem_singleton.mp ht']
        exact hstart t hmeets i _ h.inv
      exact h.join L h.inv (fun i => L.refl i _) hsafe
  | ran hi =>
      rename_i i c t q k
      have hallow : D.Allow i q c p.shared :=
        hmeets q (Machine.next_pending hi)
      obtain ⟨hpre, hrest⟩ :=
        h.safe i t _ hi p.shared ⟨L.refl i _, h.inv⟩
      obtain ⟨hinv, hrely⟩ := L.keeps i q c _ h.inv hpre hallow
      refine h.put L hinv hrely fun c' hc' => ?_
      injection hc' with hc'
      exact hc' ▸ hrest c hallow
  | killed hi =>
      refine h.put L h.inv (fun j _ => L.refl j _) fun c hc => ?_
      cases hc
  | happened he =>
      obtain ⟨hinv, hrely, hts⟩ := hout _ _ _ _ h.inv he
      exact h.join L hinv hrely hts

end Guarded

/-- The rule for runs. -/
theorem guarded_run {sys : System A ε ρ τ σ χ η} (L : D.Lawful sys.exec)
    {starts : τ → Prop}
    (hstart : ∀ t, starts t → ∀ i s, D.Inv s →
      D.Safe sys.exec i (post t) (sys.code t) s)
    (hout : ∀ e s s' ts, D.Inv s → sys.outside e s = some (s', ts) →
      D.Inv s' ∧ (∀ i, D.Rely i s s')
        ∧ ∀ t ∈ ts, ∀ i, D.Safe sys.exec i (post t) (sys.code t) s')
    {p : Machine A ε ρ τ σ} (h : Guarded sys D post p)
    {es : List (MachineEvent τ χ η)}
    (hes : ∀ t ∈ Run.accepted sys.step p es, Meets starts D.Allow t) :
    Guarded sys D post (Run.run sys.step p es) :=
  Run.history_induction_of (Meets starts D.Allow)
    (fun _ p' => Guarded sys D post p') h
    (fun _ _ _ _ h hs _ hp => h.next L hstart hout (step_cases hs) hp)
    es hes

end System

end Lumix
