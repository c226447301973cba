/-
What `matchIntents` matches and what it leaves over.

The separator is the one thing that goes wrong. A group whose key does
not read back as its assets is scanned against a group it does not
complement, and its own counterparts are never found. `PipeHarmless`
says of a list of intents that neither comes to anything, and
`matches_well_iff` that the matching then, and only then, is what it
should be (`MatchesWell`).

`Scanned` is what holds after each group: who was matched with whom,
and that a scanned group and its reverse have no two left over. What a
scan leaves over is `scan_exhausts`. As long as only plain intents are
used, two reverse groups are used alike (`used_alike`), which is what
decides whether a later group finds anything.
-/
import Mathlib.Algebra.Group.Nat.Even
import Lumix.Committee.Groups
import Lumix.Lib.Exec

namespace Lumix.Committee

-- =========================================================== statements

/-- The two sides trade each other's assets. -/
def Complementary (a b : Reconstructed) : Prop :=
  a.inputAsset = b.outputAsset ∧ a.outputAsset = b.inputAsset

instance (a b : Reconstructed) : Decidable (Complementary a b) :=
  inferInstanceAs (Decidable (_ ∧ _))

/-- The matches are of different intents, each in one match only, that
complement each other as recorded, for the smaller amount; and no two
intents left over complement each other. -/
structure MatchesWell (intents : List Reconstructed)
    (out : List MatchResult) : Prop where
  disjoint : (out.flatMap MatchResult.ids).Nodup
  sound : ∀ m ∈ out, ∃ a ∈ intents, ∃ b ∈ intents,
    a.intentId = m.intentAId ∧ b.intentId = m.intentBId ∧ a ≠ b
      ∧ Complementary a b
      ∧ a.inputAsset = m.inputAsset ∧ a.outputAsset = m.outputAsset
      ∧ m.matchedAmount7dp = (min a.amount7dp b.amount7dp).repr
  maximal : ∀ x ∈ intents, ∀ y ∈ intents, x ≠ y → Complementary x y →
    x.intentId ∈ out.flatMap MatchResult.ids
      ∨ y.intentId ∈ out.flatMap MatchResult.ids

/-- The intents that sell `x` for `y`. -/
def sells (intents : List Reconstructed) (x y : String) :
    List Reconstructed :=
  intents.filter fun i => i.inputAsset = x ∧ i.outputAsset = y

/-- The separator does no harm. An intent that is not plain has no
counterpart; and where its key reads as the reverse of some intents,
these are all matched among the two readings' own intents before it is
scanned: one of them came before it, and they are no more than their own
counterparts (an even number where they are their own). -/
structure PipeHarmless (intents : List Reconstructed) : Prop where
  alone : ∀ d ∈ intents, ¬d.Plain → ∀ e ∈ intents, d ≠ e →
    ¬Complementary d e
  spent : ∀ before d after, intents = before ++ d :: after → ¬d.Plain →
    sells intents (splitKey d.key).2 (splitKey d.key).1 ≠ [] →
    (∃ e ∈ before,
      (e.inputAsset = (splitKey d.key).1
        ∧ e.outputAsset = (splitKey d.key).2)
      ∨ (e.inputAsset = (splitKey d.key).2
        ∧ e.outputAsset = (splitKey d.key).1))
    ∧ if (splitKey d.key).1 = (splitKey d.key).2 then
        Even (sells intents (splitKey d.key).1 (splitKey d.key).2).length
      else
        (sells intents (splitKey d.key).2 (splitKey d.key).1).length
          ≤ (sells intents (splitKey d.key).1 (splitKey d.key).2).length

/-- Assets without the separator do no harm. -/
theorem pipeHarmless_of_plain {intents : List Reconstructed}
    (h : ∀ i ∈ intents, i.Plain) : PipeHarmless intents where
  alone d hd hplain := absurd (h d hd) hplain
  spent before d after hsplit hplain := by
    refine absurd (h d ?_) hplain
    rw [hsplit]
    exact List.mem_append_right _ (List.mem_cons_self ..)

-- ============================================================= one scan

/-- The match of `a` with `b` while the group of `key` is scanned. -/
def resultOf (key : String) (a b : Reconstructed) : MatchResult where
  intentAId := a.intentId
  intentBId := b.intentId
  matchedAmount7dp :=
    (if a.amount7dp < b.amount7dp then a.amount7dp else b.amount7dp).repr
  inputAsset := (splitKey key).1
  outputAsset := (splitKey key).2

/-- The smaller amount is the minimum. -/
theorem repr_smaller (m n : ℕ) :
    (if m < n then m else n).repr = (min m n).repr := by
  by_cases h : m < n
  · rw [if_pos h, Nat.min_eq_left h.le]
  · rw [if_neg h, Nat.min_eq_right (not_lt.mp h)]

/-- What is used stays used. -/
theorem used_subset_scan (inAsset outAsset : String)
    (s r : List Reconstructed) (m : Matched) :
    m.used ⊆ (scan inAsset outAsset s r m).used := by
  induction s, r, m using scan.induct inAsset outAsset with
  | case1 a s b r m hused ih =>
      rw [scan, if_pos hused]
      exact ih
  | case2 a s b r m hused hskip ih =>
      rw [scan, if_neg hused, if_pos hskip]
      exact ih
  | case3 a s b r m hused hskip ih =>
      rw [scan, if_neg hused, if_neg hskip]
      exact fun x hx => ih (List.mem_append_left _ hx)
  | case4 s r m hnil =>
      rw [scan]
      · exact List.Subset.refl _
      · exact hnil

/-- A scan adds matches of an element of one list with an element of the
other, neither used before. -/
theorem scan_extends (key : String) (s r : List Reconstructed)
    (m : Matched) :
    ∃ new, (scan (splitKey key).1 (splitKey key).2 s r m).matchResults
        = m.matchResults ++ new
      ∧ ∀ x ∈ new, ∃ a ∈ s, ∃ b ∈ r, x = resultOf key a b
        ∧ a.intentId ∉ m.used ∧ b.intentId ∉ m.used := by
  induction s, r, m using scan.induct (splitKey key).1 (splitKey key).2
    with
  | case1 a s b r m hused ih =>
      rw [scan, if_pos hused]
      obtain ⟨new, hres, hnew⟩ := ih
      refine ⟨new, hres, ?_⟩
      intro x hx
      obtain ⟨a', ha', h⟩ := hnew x hx
      exact ⟨a', List.mem_cons_of_mem _ ha', h⟩
  | case2 a s b r m hused hskip ih =>
      rw [scan, if_neg hused, if_pos hskip]
      obtain ⟨new, hres, hnew⟩ := ih
      refine ⟨new, hres, ?_⟩
      intro x hx
      obtain ⟨a', ha', b', hb', h⟩ := hnew x hx
      exact ⟨a', ha', b', List.mem_cons_of_mem _ hb', h⟩
  | case3 a s b r m hused hskip ih =>
      rw [scan, if_neg hused, if_neg hskip]
      obtain ⟨new, hres, hnew⟩ := ih
      have hpush : m.used
          ⊆ (m.push (splitKey key).1 (splitKey key).2 a b).used :=
        List.subset_append_left _ _
      refine ⟨resultOf key a b :: new, ?_, ?_⟩
      · rw [hres]
        exact List.append_assoc _ [_] _
      · intro x hx
        rcases List.mem_cons.mp hx with rfl | hx
        · exact ⟨a, List.mem_cons_self .., b, List.mem_cons_self .., rfl,
            hused, (not_or.mp hskip).1⟩
        · obtain ⟨a', ha', b', hb', hx, ha, hb⟩ := hnew x hx
          exact ⟨a', List.mem_cons_of_mem _ ha', b',
            List.mem_cons_of_mem _ hb', hx, fun h => ha (hpush h),
            fun h => hb (hpush h)⟩
  | case4 s r m hnil =>
      refine ⟨[], ?_, fun x hx => by cases hx⟩
      rw [scan, List.append_nil]
      exact hnil

/-- A scan ends with the first list used up, or at an intent for which
the other list has none left but itself. -/
theorem scan_exhausts (inAsset outAsset : String)
    (s r : List Reconstructed) (m : Matched) :
    ∃ pre post, s = pre ++ post
      ∧ (∀ a ∈ pre, a.intentId ∈ (scan inAsset outAsset s r m).used)
      ∧ ∀ a rest, post = a :: rest → ∀ b ∈ r,
        b.intentId ∈ (scan inAsset outAsset s r m).used
          ∨ b.intentId = a.intentId := by
  induction s, r, m using scan.induct inAsset outAsset with
  | case1 a s b r m hused ih =>
      have hstay := used_subset_scan inAsset outAsset s (b :: r) m hused
      rw [scan, if_pos hused]
      obtain ⟨pre, post, rfl, hpre, hpost⟩ := ih
      exact ⟨a :: pre, post, rfl, List.forall_mem_cons.mpr ⟨hstay, hpre⟩,
        hpost⟩
  | case2 a s b r m hused hskip ih =>
      have hstay := used_subset_scan inAsset outAsset (a :: s) r m
      rw [scan, if_neg hused, if_pos hskip]
      obtain ⟨pre, post, hsplit, hpre, hpost⟩ := ih
      refine ⟨pre, post, hsplit, hpre, ?_⟩
      intro a' rest hrest b' hb'
      rcases List.mem_cons.mp hb' with rfl | hb'
      · rcases hskip with hb | hself
        · exact Or.inl (hstay hb)
        · -- `b` was dropped for being `a`: the scan ends at `a`, or `a`
          -- is used later
          cases pre with
          | nil =>
              rw [List.nil_append, hrest] at hsplit
              obtain ⟨rfl, -⟩ := List.cons.inj hsplit
              exact Or.inr hself.symm
          | cons p pre =>
              obtain ⟨rfl, -⟩ := List.cons.inj hsplit
              left
              rw [← hself]
              exact hpre a (List.mem_cons_self ..)
      · exact hpost a' rest hrest b' hb'
  | case3 a s b r m hused hskip ih =>
      have hstay := used_subset_scan inAsset outAsset s r
        (m.push inAsset outAsset a b)
      have hids : ∀ x ∈ [a.intentId, b.intentId],
          x ∈ (scan inAsset outAsset s r
            (m.push inAsset outAsset a b)).used :=
        fun x hx => hstay (List.mem_append_right _ hx)
      rw [scan, if_neg hused, if_neg hskip]
      obtain ⟨pre, post, rfl, hpre, hpost⟩ := ih
      refine ⟨a :: pre, post, rfl, ?_, ?_⟩
      · exact List.forall_mem_cons.mpr ⟨hids _ (by simp), hpre⟩
      · intro a' rest hrest b' hb'
        rcases List.mem_cons.mp hb' with rfl | hb'
        · exact Or.inl (hids _ (by simp))
        · exact hpost a' rest hrest b' hb'
  | case4 s r m hnil =>
      refine ⟨[], s, rfl, fun a ha => (by cases ha), ?_⟩
      intro a rest hs b hb
      cases r with
      | nil => cases hb
      | cons b' r => exact absurd rfl (hnil a rest b' r hs)

-- ============================================================ one group

/-- What holds once the groups of `done` are scanned. -/
structure Scanned (intents : List Reconstructed) (done : List String)
    (m : Matched) : Prop where
  disjoint : m.Disjoint (intents.map Reconstructed.intentId)
  matched : ∀ x ∈ m.matchResults, ∃ a ∈ intents, ∃ b ∈ intents,
    x = resultOf a.key a b ∧ a.key ∈ done ∧ b.key = reverseKey a.key
  exhausted : ∀ a ∈ intents, a.key ∈ done → ∀ b ∈ intents,
    b.key = reverseKey a.key → a ≠ b →
    a.intentId ∈ m.used ∨ b.intentId ∈ m.used

/-- Nothing is scanned yet. -/
theorem Scanned.start (intents : List Reconstructed) :
    Scanned intents [] ⟨[], []⟩ where
  disjoint := ⟨rfl, List.nodup_nil, List.nil_subset _⟩
  matched x hx := by cases hx
  exhausted a _ ha := by cases ha

/-- Sorting keeps the intents. -/
theorem mem_sortByAmount {g : List Reconstructed} {i : Reconstructed} :
    i ∈ sortByAmount g ↔ i ∈ g := List.mem_insertionSort _

/-- What the scan of one group adds. -/
theorem matchGroup_extends {intents g : List Reconstructed} {key : String}
    (hg : (groupByPair intents).get key = some g) (m : Matched) :
    m.used ⊆ (matchGroup (groupByPair intents) m (key, g)).used
      ∧ ∃ new, (matchGroup (groupByPair intents) m (key, g)).matchResults
          = m.matchResults ++ new
        ∧ ∀ x ∈ new, ∃ a ∈ intents, ∃ b ∈ intents, x = resultOf key a b
          ∧ a.key = key ∧ b.key = reverseKey key
          ∧ a.intentId ∉ m.used ∧ b.intentId ∉ m.used := by
  unfold matchGroup
  cases hr : (groupByPair intents).get
      (pairKey (splitKey key).2 (splitKey key).1) with
  | none =>
      simp only [hr]
      exact ⟨List.Subset.refl _, [], (List.append_nil _).symm,
        fun x hx => by cases hx⟩
  | some r =>
      simp only [hr]
      refine ⟨used_subset_scan _ _ _ _ m, ?_⟩
      obtain ⟨new, hres, hnew⟩ :=
        scan_extends key (sortByAmount g) (sortByAmount r) m
      refine ⟨new, hres, ?_⟩
      intro x hx
      obtain ⟨a, ha, b, hb, hx, hfree⟩ := hnew x hx
      obtain ⟨hain, hakey⟩ :=
        (mem_group hg a).mp (mem_sortByAmount.mp ha)
      obtain ⟨hbin, hbkey⟩ :=
        (mem_group hr b).mp (mem_sortByAmount.mp hb)
      exact ⟨a, hain, b, hbin, hx, hakey, hbkey, hfree⟩

/-- The scan of a group leaves no two over, of the group and its
reverse. -/
theorem matchGroup_exhausts {intents g : List Reconstructed}
    (hids : (intents.map Reconstructed.intentId).Nodup) {key : String}
    (hg : (groupByPair intents).get key = some g) (m : Matched)
    {a b : Reconstructed} (ha : a ∈ intents) (hakey : a.key = key)
    (hb : b ∈ intents) (hbkey : b.key = reverseKey key) (hne : a ≠ b) :
    a.intentId ∈ (matchGroup (groupByPair intents) m (key, g)).used
      ∨ b.intentId
        ∈ (matchGroup (groupByPair intents) m (key, g)).used := by
  have hinj := List.inj_on_of_nodup_map hids
  obtain ⟨r, hr⟩ := group_of_mem hb
  rw [hbkey] at hr
  have hscan : matchGroup (groupByPair intents) m (key, g)
      = scan (splitKey key).1 (splitKey key).2 (sortByAmount g)
        (sortByAmount r) m := by
    unfold matchGroup
    have hr' : (groupByPair intents).get
        (pairKey (splitKey key).2 (splitKey key).1) = some r := hr
    simp only [hr']
  rw [hscan]
  have hag : ∀ i, i ∈ sortByAmount g ↔ i ∈ intents ∧ i.key = key :=
    fun i => mem_sortByAmount.trans (mem_group hg i)
  have hbr : ∀ i, i ∈ sortByAmount r
      ↔ i ∈ intents ∧ i.key = reverseKey key :=
    fun i => mem_sortByAmount.trans (mem_group hr i)
  obtain ⟨pre, post, hsplit, hpre, hpost⟩ :=
    scan_exhausts (splitKey key).1 (splitKey key).2 (sortByAmount g)
      (sortByAmount r) m
  have hmem : a ∈ pre ++ post := by
    rw [← hsplit]
    exact (hag a).mpr ⟨ha, hakey⟩
  rcases List.mem_append.mp hmem with hin | hin
  · exact Or.inl (hpre a hin)
  · obtain ⟨c, rest, rfl⟩ := List.exists_cons_of_ne_nil
      (List.ne_nil_of_mem hin)
    rcases hpost c rest rfl b ((hbr b).mpr ⟨hb, hbkey⟩) with hbused | hbc
    · exact Or.inr hbused
    · -- the scan ended at `b` itself, so its group is its own reverse and
      -- holds `a`
      have hc : c ∈ sortByAmount g := by
        rw [hsplit]
        simp
      obtain ⟨hcin, hckey⟩ := (hag c).mp hc
      obtain rfl := hinj hb hcin hbc
      have har : a ∈ sortByAmount r := by
        refine (hbr a).mpr ⟨ha, ?_⟩
        rw [hakey, ← hbkey, hckey]
      rcases hpost b rest rfl a har with haused | hab
      · exact Or.inl haused
      · exact absurd (hinj ha hb hab) hne

/-- A group is scanned with its opposite. -/
theorem Scanned.group {intents g : List Reconstructed}
    (hids : (intents.map Reconstructed.intentId).Nodup)
    {done : List String} {m : Matched} (h : Scanned intents done m)
    {key : String} (hg : (groupByPair intents).get key = some g) :
    Scanned intents (done ++ [key])
      (matchGroup (groupByPair intents) m (key, g)) := by
  obtain ⟨hstay, new, hres, hnew⟩ := matchGroup_extends hg m
  refine ⟨matchGroup_disjoint (OrderedMap.mem_entries.mpr hg) h.disjoint,
    ?_, ?_⟩
  · intro x hx
    rw [hres] at hx
    rcases List.mem_append.mp hx with hx | hx
    · obtain ⟨a, ha, b, hb, hx, hdone, hkey⟩ := h.matched x hx
      exact ⟨a, ha, b, hb, hx, List.mem_append_left _ hdone, hkey⟩
    · obtain ⟨a, ha, b, hb, hx, rfl, hkey, -⟩ := hnew x hx
      exact ⟨a, ha, b, hb, hx, by simp, hkey⟩
  · intro a ha hdone b hb hkey hne
    rcases List.mem_append.mp hdone with hdone | hdone
    · exact (h.exhausted a ha hdone b hb hkey hne).imp
        (fun hin => hstay hin) (fun hin => hstay hin)
    · have hakey := List.mem_singleton.mp hdone
      rw [hakey] at hkey
      exact matchGroup_exhausts hids hg m ha hakey hb hkey hne

-- ========================================================= whole runs

/-- The state after the groups of `entries`. -/
def afterGroups (intents : List Reconstructed)
    (entries : List (String × List Reconstructed)) : Matched :=
  entries.foldl (matchGroup (groupByPair intents)) ⟨[], []⟩

/-- One group more. -/
theorem afterGroups_concat (intents : List Reconstructed)
    (entries : List (String × List Reconstructed))
    (kg : String × List Reconstructed) :
    afterGroups intents (entries ++ [kg])
      = matchGroup (groupByPair intents) (afterGroups intents entries)
        kg := by
  unfold afterGroups
  rw [List.foldl_append]
  rfl

/-- So are all groups so far. -/
theorem Scanned.afterGroups {intents : List Reconstructed}
    (hids : (intents.map Reconstructed.intentId).Nodup)
    {entries : List (String × List Reconstructed)}
    (h : entries <+: (groupByPair intents).entries) :
    Scanned intents (entries.map Prod.fst)
      (Committee.afterGroups intents entries) := by
  induction entries using List.reverseRecOn with
  | nil => exact Scanned.start intents
  | append_singleton entries kg ih =>
      have hpre : entries <+: (groupByPair intents).entries :=
        (List.prefix_append _ _).trans h
      have hmem : (kg.1, kg.2) ∈ (groupByPair intents).entries :=
        h.subset (by simp)
      rw [afterGroups_concat, List.map_append]
      exact (ih hpre).group hids (OrderedMap.mem_entries.mp hmem)

/-- What is matched after some groups stays matched. -/
theorem results_prefix {intents : List Reconstructed}
    {pre post : List (String × List Reconstructed)}
    (h : pre ++ post <+: (groupByPair intents).entries) :
    (afterGroups intents pre).matchResults
      <+: (afterGroups intents (pre ++ post)).matchResults := by
  induction post using List.reverseRecOn with
  | nil =>
      simp only [List.append_nil, List.prefix_refl]
  | append_singleton post kg ih =>
      rw [← List.append_assoc] at h ⊢
      have hmem : (kg.1, kg.2) ∈ (groupByPair intents).entries :=
        h.subset (by simp)
      obtain ⟨-, new, hres, -⟩ := matchGroup_extends
        (OrderedMap.mem_entries.mp hmem)
        (afterGroups intents (pre ++ post))
      rw [afterGroups_concat, hres]
      exact (ih ((List.prefix_append _ _).trans h)).trans
        (List.prefix_append _ _)

/-- The matches are those after all groups. -/
theorem matchIntents_eq (intents : List Reconstructed) :
    matchIntents intents
      = (afterGroups intents (groupByPair intents).entries).matchResults :=
  rfl

-- ========================================================== used alike

/-- Only plain intents are used. -/
def PlainUsed (intents : List Reconstructed) (m : Matched) : Prop :=
  ∀ i ∈ intents, i.intentId ∈ m.used → i.Plain

section Alike

variable {intents : List Reconstructed} {done : List String} {m : Matched}

/-- A used id is one of a match's two. -/
theorem Scanned.mem_used (h : Scanned intents done m) {id : String} :
    id ∈ m.used ↔ ∃ x ∈ m.matchResults,
      id = x.intentAId ∨ id = x.intentBId := by
  rw [h.disjoint.used, List.mem_flatMap]
  unfold MatchResult.ids
  simp

/-- Where only plain intents are used, a match is of two that complement
each other, as it records. -/
theorem Scanned.complementary (h : Scanned intents done m)
    (hclean : PlainUsed intents m) {x : MatchResult}
    (hx : x ∈ m.matchResults) :
    ∃ a ∈ intents, ∃ b ∈ intents, x = resultOf a.key a b ∧ a.key ∈ done
      ∧ a.inputAsset = x.inputAsset ∧ a.outputAsset = x.outputAsset
      ∧ b.inputAsset = x.outputAsset ∧ b.outputAsset = x.inputAsset := by
  obtain ⟨a, ha, b, hb, rfl, hdone, hkey⟩ := h.matched x hx
  have hplain : a.Plain := hclean a ha (h.mem_used.mpr ⟨_, hx, Or.inl rfl⟩)
  have hsplit := hplain.splitKey_key
  obtain ⟨hin, hout⟩ := key_eq_reverse.mp hkey
  refine ⟨a, ha, b, hb, rfl, hdone, ?_, ?_, hin, hout⟩
  · show a.inputAsset = (splitKey a.key).1
    rw [hsplit]
  · show a.outputAsset = (splitKey a.key).2
    rw [hsplit]

/-- The used ones of the intents that sell `x` for `y`. -/
def usedSells (intents : List Reconstructed) (m : Matched) (x y : String) :
    List Reconstructed :=
  (sells intents x y).filter fun i => i.intentId ∈ m.used

/-- The intents that sell one asset for another. -/
theorem mem_sells {x y : String} {i : Reconstructed} :
    i ∈ sells intents x y
      ↔ i ∈ intents ∧ i.inputAsset = x ∧ i.outputAsset = y := by
  unfold sells
  rw [List.mem_filter, decide_eq_true_eq]

/-- The matches recorded for a pair of assets. -/
def recorded (m : Matched) (x y : String) : List MatchResult :=
  m.matchResults.filter fun r => r.inputAsset = x ∧ r.outputAsset = y

/-- The matches of a pair. -/
theorem mem_recorded {x y : String} {r : MatchResult} :
    r ∈ recorded m x y
      ↔ r ∈ m.matchResults ∧ r.inputAsset = x ∧ r.outputAsset = y := by
  unfold recorded
  rw [List.mem_filter, decide_eq_true_eq]

/-- They are among the matches. -/
theorem recorded_sublist (m : Matched) (x y : String) :
    (recorded m x y).Sublist m.matchResults := List.filter_sublist

/-- The ids of some matches' first sides and of others' second sides are
all different. -/
theorem Scanned.nodup_sides (h : Scanned intents done m)
    {as bs : List MatchResult} (has : as.Sublist m.matchResults)
    (hbs : bs.Sublist m.matchResults) :
    (as.map MatchResult.intentAId
      ++ bs.map MatchResult.intentBId).Nodup := by
  have hperm : (m.matchResults.map MatchResult.intentAId
      ++ m.matchResults.map MatchResult.intentBId).Perm m.used := by
    rw [h.disjoint.used]
    clear has hbs h
    induction m.matchResults with
    | nil => exact List.Perm.refl _
    | cons r rs ih =>
        show (r.intentAId :: (rs.map MatchResult.intentAId
          ++ r.intentBId :: rs.map MatchResult.intentBId)).Perm
          (r.intentAId :: r.intentBId :: rs.flatMap MatchResult.ids)
        exact (List.perm_middle.trans (ih.cons _)).cons _
  exact (hperm.nodup_iff.mpr h.disjoint.nodup).sublist
    ((has.map _).append (hbs.map _))

/-- The used sellers of `x` for `y` are the first sides of the matches
recorded so and the second sides of those recorded the other way. -/
theorem Scanned.usedSells_length (h : Scanned intents done m)
    (hids : (intents.map Reconstructed.intentId).Nodup)
    (hclean : PlainUsed intents m) (x y : String) :
    (usedSells intents m x y).length
      = (recorded m x y).length + (recorded m y x).length := by
  have hinj := List.inj_on_of_nodup_map hids
  have hsub : (usedSells intents m x y).Sublist intents :=
    List.filter_sublist.trans List.filter_sublist
  have hperm : ((usedSells intents m x y).map
      Reconstructed.intentId).Perm
      ((recorded m x y).map MatchResult.intentAId
        ++ (recorded m y x).map MatchResult.intentBId) := by
    rw [List.perm_ext_iff_of_nodup (hids.sublist (hsub.map _))
      (h.nodup_sides (recorded_sublist m x y) (recorded_sublist m y x))]
    intro id
    rw [List.mem_append, List.mem_map, List.mem_map, List.mem_map]
    constructor
    · rintro ⟨i, hi, rfl⟩
      obtain ⟨hsell, hused⟩ := List.mem_filter.mp hi
      obtain ⟨hin, hix, hiy⟩ := mem_sells.mp hsell
      obtain ⟨r, hr, hid⟩ := h.mem_used.mp (of_decide_eq_true hused)
      obtain ⟨a, ha, b, hb, hrab, -, hax, hay, hbx, hby⟩ :=
        h.complementary hclean hr
      rcases hid with hid | hid
      · left
        obtain rfl : i = a := hinj hin ha (by rw [hid, hrab]; rfl)
        exact ⟨r, mem_recorded.mpr ⟨hr, hax ▸ hix, hay ▸ hiy⟩, hid.symm⟩
      · right
        obtain rfl : i = b := hinj hin hb (by rw [hid, hrab]; rfl)
        exact ⟨r, mem_recorded.mpr ⟨hr, hby ▸ hiy, hbx ▸ hix⟩, hid.symm⟩
    · have hside : ∀ i ∈ intents, i.intentId ∈ m.used →
          i.inputAsset = x → i.outputAsset = y →
          i ∈ usedSells intents m x y := by
        intro i hin hused hix hiy
        exact List.mem_filter.mpr
          ⟨mem_sells.mpr ⟨hin, hix, hiy⟩, decide_eq_true hused⟩
      rintro (⟨r, hr, rfl⟩ | ⟨r, hr, rfl⟩)
      · obtain ⟨hr, hrx, hry⟩ := mem_recorded.mp hr
        obtain ⟨a, ha, b, hb, hrab, -, hax, hay, -⟩ :=
          h.complementary hclean hr
        have hid : a.intentId = r.intentAId := by rw [hrab]; rfl
        refine ⟨a, hside a ha ?_ (hax.trans hrx) (hay.trans hry), hid⟩
        exact h.mem_used.mpr ⟨r, hr, Or.inl hid⟩
      · obtain ⟨hr, hrx, hry⟩ := mem_recorded.mp hr
        obtain ⟨a, ha, b, hb, hrab, -, -, -, hbx, hby⟩ :=
          h.complementary hclean hr
        have hid : b.intentId = r.intentBId := by rw [hrab]; rfl
        refine ⟨b, hside b hb ?_ (hbx.trans hry) (hby.trans hrx), hid⟩
        exact h.mem_used.mpr ⟨r, hr, Or.inr hid⟩
  have hlen := hperm.length_eq
  rwa [List.length_map, List.length_append, List.length_map,
    List.length_map] at hlen

/-- Two reverse groups are used alike, and a group that is its own
reverse in pairs. -/
theorem Scanned.used_alike (h : Scanned intents done m)
    (hids : (intents.map Reconstructed.intentId).Nodup)
    (hclean : PlainUsed intents m) (x y : String) :
    (usedSells intents m x y).length = (usedSells intents m y x).length
      ∧ Even (usedSells intents m x x).length := by
  rw [h.usedSells_length hids hclean, h.usedSells_length hids hclean,
    h.usedSells_length hids hclean]
  exact ⟨Nat.add_comm _ _, ⟨_, rfl⟩⟩

/-- The used sellers are all of them once they are as many. -/
theorem used_of_length_le {x y : String}
    (hle : (sells intents x y).length ≤ (usedSells intents m x y).length) :
    ∀ i ∈ sells intents x y, i.intentId ∈ m.used := by
  have heq : usedSells intents m x y = sells intents x y :=
    List.filter_sublist.eq_of_length_le hle
  intro i hi
  rw [← heq] at hi
  exact of_decide_eq_true (List.mem_filter.mp hi).2

/-- If all are used, all are sold. -/
theorem usedSells_eq_sells {x y : String}
    (hall : ∀ i ∈ sells intents x y, i.intentId ∈ m.used) :
    usedSells intents m x y = sells intents x y :=
  List.filter_eq_self.mpr fun i hi => decide_eq_true (hall i hi)

/-- A used seller is of a group that is scanned, or of the reverse of
one. -/
theorem Scanned.seller_scanned (h : Scanned intents done m)
    (hids : (intents.map Reconstructed.intentId).Nodup)
    (hclean : PlainUsed intents m) {x y : String} {i : Reconstructed}
    (hi : i ∈ sells intents x y) (hused : i.intentId ∈ m.used) :
    pairKey x y ∈ done ∨ pairKey y x ∈ done := by
  have hinj := List.inj_on_of_nodup_map hids
  obtain ⟨hin, hix, hiy⟩ := mem_sells.mp hi
  obtain ⟨r, hr, hid⟩ := h.mem_used.mp hused
  obtain ⟨a, ha, b, hb, hrab, hdone, hax, hay, hbx, hby⟩ :=
    h.complementary hclean hr
  rcases hid with hid | hid
  · left
    obtain rfl : i = a := hinj hin ha (by rw [hid, hrab]; rfl)
    rwa [Reconstructed.key_eq hix hiy] at hdone
  · right
    obtain rfl : i = b := hinj hin hb (by rw [hid, hrab]; rfl)
    rwa [Reconstructed.key_eq (hax.trans (hby.symm.trans hiy))
      (hay.trans (hbx.symm.trans hix))] at hdone

/-- Where one seller is left over, all the others are used. -/
theorem sells_length_of_one_left
    (hids : (intents.map Reconstructed.intentId).Nodup) {x y : String}
    {b : Reconstructed} (hb : b ∈ sells intents x y)
    (hfree : b.intentId ∉ m.used)
    (hused : ∀ p ∈ sells intents x y, p ≠ b → p.intentId ∈ m.used) :
    (sells intents x y).length = (usedSells intents m x y).length + 1 := by
  have hsum := List.length_eq_length_filter_add
    (fun i : Reconstructed => decide (i.intentId ∈ m.used))
    (l := sells intents x y)
  have hnodup : (sells intents x y).Nodup :=
    hids.of_map.sublist List.filter_sublist
  have hone : (sells intents x y).filter (fun i =>
      !decide (i.intentId ∈ m.used)) = [b] := by
    apply List.perm_singleton.mp
    apply (List.perm_ext_iff_of_nodup
      (hnodup.sublist List.filter_sublist) (List.nodup_singleton b)).mpr
    intro p
    rw [List.mem_filter, List.mem_singleton, Bool.not_eq_true',
      decide_eq_false_iff_not]
    constructor
    · rintro ⟨hp, hpfree⟩
      by_contra hpb
      exact hpfree (hused p hp hpb)
    · rintro rfl
      exact ⟨hb, hfree⟩
  rw [hone, List.length_singleton] at hsum
  exact hsum

/-- Of two intents that trade each other's assets one is used, once
either of their groups is scanned. -/
theorem Scanned.one_used (h : Scanned intents done m) {x y : String}
    (hx : '|' ∉ x.toList) (hy : '|' ∉ y.toList) {p b : Reconstructed}
    (hp : p ∈ sells intents x y) (hb : b ∈ sells intents y x)
    (hne : p ≠ b) (hdone : pairKey x y ∈ done ∨ pairKey y x ∈ done) :
    p.intentId ∈ m.used ∨ b.intentId ∈ m.used := by
  obtain ⟨hpin, hpx, hpy⟩ := mem_sells.mp hp
  obtain ⟨hbin, hbx, hby⟩ := mem_sells.mp hb
  have hpkey := Reconstructed.key_eq hpx hpy
  have hbkey := Reconstructed.key_eq hbx hby
  rcases hdone with hdone | hdone
  · refine h.exhausted p hpin (hpkey ▸ hdone) b hbin ?_ hne
    rw [hbkey, hpkey, reverseKey_pairKey hx hy]
  · refine (h.exhausted b hbin (hbkey ▸ hdone) p hpin ?_ hne.symm).symm
    rw [hpkey, hbkey, reverseKey_pairKey hy hx]

end Alike

-- ===================================================== plain suffices

/-- Two intents with one key are both plain or neither is. -/
theorem plain_of_key_eq {i j : Reconstructed} (hi : i.Plain)
    (h : j.key = i.key) : j.Plain := by
  obtain ⟨hin, hout⟩ := pairKey_eq hi.1 hi.2 h
  unfold Reconstructed.Plain
  rw [hin, hout]
  exact hi

/-- Where the separator does no harm, a group that is not plain finds
every intent its key reads as the reverse of used up. -/
theorem PipeHarmless.reverse_used {intents : List Reconstructed}
    (h : PipeHarmless intents)
    (hids : (intents.map Reconstructed.intentId).Nodup)
    {pre post : List (String × List Reconstructed)}
    {a : Reconstructed} {g : List Reconstructed}
    (hentries : (groupByPair intents).entries = pre ++ (a.key, g) :: post)
    (hclean : PlainUsed intents (afterGroups intents pre))
    (ha : a ∈ intents)
    (hplain : ¬a.Plain) {b : Reconstructed} (hb : b ∈ intents)
    (hkey : b.key = reverseKey a.key) :
    b.intentId ∈ (afterGroups intents pre).used := by
  have hscanned := Scanned.afterGroups hids
    (hentries ▸ List.prefix_append pre _)
  obtain ⟨hbin, hbout⟩ := key_eq_reverse.mp hkey
  obtain ⟨hx, hy⟩ := splitKey_plain a.key
  -- the first intent of the group, and one of either reading before it
  obtain ⟨before, d, rest, hsplit, hfirst, hd⟩ :=
    Exec.exists_first_not (p := fun i : Reconstructed => i.key ≠ a.key)
      fun hall => hall a ha rfl
  rw [not_not] at hd
  have hdplain : ¬d.Plain :=
    fun hdp => hplain (plain_of_key_eq hdp hd.symm)
  have hspent := h.spent before d rest hsplit hdplain
  rw [hd] at hspent
  generalize (splitKey a.key).1 = x at *
  generalize (splitKey a.key).2 = y at *
  have hbsell : b ∈ sells intents y x := mem_sells.mpr ⟨hb, hbin, hbout⟩
  obtain ⟨⟨e, he, heside⟩, hcount⟩ := hspent (List.ne_nil_of_mem hbsell)
  have hdone : e.key ∈ pre.map Prod.fst := by
    have hkeys : (groupByPair (before ++ d :: rest)).keys
        = pre.map Prod.fst ++ d.key :: post.map Prod.fst := by
      rw [← hsplit, hd]
      unfold OrderedMap.keys
      rw [hentries, List.map_append, List.map_cons]
    exact mem_pre_of_mem_before hkeys (fun i hi => hd ▸ hfirst i hi) he
  have hgroup : pairKey x y ∈ pre.map Prod.fst
      ∨ pairKey y x ∈ pre.map Prod.fst := by
    rcases heside with ⟨hex, hey⟩ | ⟨hey, hex⟩
    · exact Or.inl (Reconstructed.key_eq hex hey ▸ hdone)
    · exact Or.inr (Reconstructed.key_eq hey hex ▸ hdone)
  by_contra hunused
  -- so all the readings' other intents are used up
  have hused : ∀ p ∈ sells intents x y, p ≠ b →
      p.intentId ∈ (afterGroups intents pre).used := fun p hp hpb =>
    (hscanned.one_used hx hy hp hbsell hpb hgroup).resolve_right hunused
  by_cases hxy : x = y
  · subst hxy
    rw [if_pos rfl, sells_length_of_one_left hids hbsell hunused hused]
      at hcount
    obtain ⟨-, heven⟩ := hscanned.used_alike hids hclean x x
    exact (Nat.even_add_one.mp hcount) heven
  · rw [if_neg hxy] at hcount
    obtain ⟨halike, -⟩ := hscanned.used_alike hids hclean x y
    have hall : ∀ p ∈ sells intents x y,
        p.intentId ∈ (afterGroups intents pre).used := by
      intro p hp
      apply hused p hp
      rintro rfl
      exact hxy ((mem_sells.mp hp).2.1.symm.trans hbin)
    rw [usedSells_eq_sells hall] at halike
    exact hunused (used_of_length_le (halike ▸ hcount) b hbsell)

/-- Where separators do no harm only plain intents are used, -/
theorem PipeHarmless.clean {intents : List Reconstructed}
    (h : PipeHarmless intents)
    (hids : (intents.map Reconstructed.intentId).Nodup)
    {entries : List (String × List Reconstructed)}
    (hpre : entries <+: (groupByPair intents).entries) :
    PlainUsed intents (afterGroups intents entries) := by
  have hinj := List.inj_on_of_nodup_map hids
  induction entries using List.reverseRecOn with
  | nil => exact fun i _ hi => by cases hi
  | append_singleton entries kg ih =>
      have hclean := ih ((List.prefix_append _ _).trans hpre)
      have hmem : (kg.1, kg.2) ∈ (groupByPair intents).entries :=
        hpre.subset (by simp)
      have hscanned := Scanned.afterGroups hids hpre
      obtain ⟨-, new, hres, hnew⟩ := matchGroup_extends
        (OrderedMap.mem_entries.mp hmem) (afterGroups intents entries)
      intro i hi hused
      obtain ⟨x, hx, hid⟩ := hscanned.mem_used.mp hused
      rw [afterGroups_concat, hres] at hx
      rcases List.mem_append.mp hx with hx | hx
      · exact hclean i hi ((Scanned.afterGroups hids
          ((List.prefix_append _ _).trans hpre)).mem_used.mpr ⟨x, hx, hid⟩)
      · obtain ⟨a, ha, b, hb, rfl, hakey, hbkey, -, hbfree⟩ := hnew x hx
        rcases hid with hid | hid
        · obtain rfl := hinj hi ha hid
          by_contra hplain
          obtain ⟨post, hpost⟩ := hpre
          have hentries : (groupByPair intents).entries
              = entries ++ (i.key, kg.2) :: post := by
            rw [hakey, ← hpost, List.append_assoc]
            rfl
          exact hbfree (h.reverse_used hids hentries hclean hi hplain hb
            (hakey ▸ hbkey))
        · obtain rfl := hinj hi hb hid
          exact plain_of_key_eq_reverse hbkey

/-- Where the separator does no harm the matching is what it should be. -/
theorem PipeHarmless.matches_well {intents : List Reconstructed}
    (h : PipeHarmless intents)
    (hids : (intents.map Reconstructed.intentId).Nodup) :
    MatchesWell intents (matchIntents intents) := by
  have hscanned := Scanned.afterGroups hids
    (List.prefix_refl (groupByPair intents).entries)
  have hclean := h.clean hids (List.prefix_refl _)
  have hused := hscanned.disjoint.used
  rw [matchIntents_eq]
  refine ⟨hused ▸ hscanned.disjoint.nodup, ?_, ?_⟩
  · intro x hx
    obtain ⟨a, ha, b, hb, hrab, -, hain, haout, hbin, hbout⟩ :=
      hscanned.complementary hclean hx
    refine ⟨a, ha, b, hb, by rw [hrab]; rfl, by rw [hrab]; rfl, ?_,
      ⟨hain.trans hbout.symm, haout.trans hbin.symm⟩, hain, haout, ?_⟩
    · rintro rfl
      have hnodup := hscanned.disjoint.nodup
      rw [hused, List.nodup_flatMap] at hnodup
      have hpair := hnodup.1 x hx
      rw [hrab] at hpair
      exact absurd hpair (by simp [MatchResult.ids, resultOf])
    · rw [hrab]
      exact repr_smaller _ _
  · intro x hx y hy hne hcomp
    rw [← hused]
    by_cases hplain : x.Plain
    · have hdone : x.key ∈ (groupByPair intents).entries.map Prod.fst :=
        mem_keys_groupByPair.mpr ⟨x, hx, rfl⟩
      apply hscanned.exhausted x hx hdone y hy _ hne
      rw [key_eq_reverse, hplain.splitKey_key]
      exact ⟨hcomp.2.symm, hcomp.1.symm⟩
    · exact absurd hcomp (h.alone x hx hplain y hy hne)

-- ==================================================== plain is necessary

/-- The counterpart of a plain intent is plain. -/
theorem Complementary.plain {a b : Reconstructed} (h : Complementary a b)
    (ha : a.Plain) : b.Plain := by
  unfold Reconstructed.Plain
  rw [← h.1, ← h.2]
  exact ha.symm

section Necessary

variable {intents : List Reconstructed}
  (hids : (intents.map Reconstructed.intentId).Nodup)
  (hwell : MatchesWell intents (matchIntents intents))

include hids hwell

/-- Sound matches are of plain intents. -/
theorem MatchesWell.clean : PlainUsed intents
    (afterGroups intents (groupByPair intents).entries) := by
  have hinj := List.inj_on_of_nodup_map hids
  have hscanned := Scanned.afterGroups hids
    (List.prefix_refl (groupByPair intents).entries)
  intro i hi hused
  obtain ⟨x, hx, hid⟩ := hscanned.mem_used.mp hused
  obtain ⟨a, ha, b, hb, haid, hbid, -, hcomp, hain, haout, -⟩ :=
    hwell.sound x hx
  have haplain : a.Plain := by
    obtain ⟨a', ha', _, -, hrab, -⟩ := hscanned.matched x hx
    have hid' : a.intentId = a'.intentId := by
      rw [haid, hrab]
      rfl
    obtain rfl := hinj ha ha' hid'
    apply plain_of_splitKey
    rw [hain, haout, hrab]
    rfl
  rcases hid with hid | hid
  · rw [← haid] at hid
    rwa [hinj hi ha hid]
  · rw [← hbid] at hid
    rw [hinj hi hb hid]
    exact hcomp.plain haplain

/-- and where the matches are right, after any groups. -/
theorem MatchesWell.clean_prefix
    {pre : List (String × List Reconstructed)}
    (hpre : pre <+: (groupByPair intents).entries) :
    PlainUsed intents (afterGroups intents pre) := by
  obtain ⟨post, hpost⟩ := hpre
  have hscanned := Scanned.afterGroups hids
    (List.prefix_refl (groupByPair intents).entries)
  have hprefix := Scanned.afterGroups hids (hpost ▸ List.prefix_append _ _)
  intro i hi hused
  obtain ⟨x, hx, hid⟩ := hprefix.mem_used.mp hused
  have hresults : (afterGroups intents pre).matchResults
      <+: (afterGroups intents (pre ++ post)).matchResults := by
    apply results_prefix
    exact hpost ▸ List.prefix_refl _
  rw [hpost] at hresults
  exact hwell.clean hids i hi
    (hscanned.mem_used.mpr ⟨x, hresults.subset hx, hid⟩)

/-- Before a group that is not plain is scanned, all it could find is
used. -/
theorem MatchesWell.reverse_used
    {pre post : List (String × List Reconstructed)} {d : Reconstructed}
    {g : List Reconstructed}
    (hentries : (groupByPair intents).entries = pre ++ (d.key, g) :: post)
    (hd : d ∈ intents) (hplain : ¬d.Plain) {b : Reconstructed}
    (hb : b ∈ intents) (hkey : b.key = reverseKey d.key) :
    b.intentId ∈ (afterGroups intents pre).used := by
  have hnext : pre ++ [(d.key, g)] <+: (groupByPair intents).entries := by
    rw [hentries]
    exact ⟨post, List.append_assoc _ _ _⟩
  have hg : (groupByPair intents).get d.key = some g :=
    OrderedMap.mem_entries.mp (by rw [hentries]; simp)
  have hclean := hwell.clean_prefix hids hnext
  have hscanned := Scanned.afterGroups hids hnext
  have hbefore := Scanned.afterGroups hids
    ((List.prefix_append pre [(d.key, g)]).trans hnext)
  have hdfree : d.intentId ∉ (afterGroups intents
      (pre ++ [(d.key, g)])).used := fun hin => hplain (hclean d hd hin)
  have hne : d ≠ b := by
    rintro rfl
    exact hplain (plain_of_key_eq_reverse hkey)
  have hbused : b.intentId ∈ (afterGroups intents
      (pre ++ [(d.key, g)])).used := by
    rw [afterGroups_concat] at hdfree ⊢
    exact (matchGroup_exhausts hids hg _ hd rfl hb hkey hne).resolve_left
      hdfree
  obtain ⟨x, hx, hid⟩ := hscanned.mem_used.mp hbused
  obtain ⟨-, new, hres, hnew⟩ :=
    matchGroup_extends hg (afterGroups intents pre)
  have hx' := hx
  rw [afterGroups_concat, hres] at hx
  rcases List.mem_append.mp hx with hx | hx
  · exact hbefore.mem_used.mpr ⟨x, hx, hid⟩
  · -- a new match would use an intent of the group of `d`
    obtain ⟨a, ha, b', hb', rfl, hakey, -⟩ := hnew x hx
    have haplain := hclean a ha
      (hscanned.mem_used.mpr ⟨_, hx', Or.inl rfl⟩)
    exact absurd (plain_of_key_eq haplain hakey.symm) hplain

/-- So right matches mean that separators do no harm. -/
theorem MatchesWell.harmless : PipeHarmless intents where
  alone d hd hplain e he hne hcomp := by
    have hscanned := Scanned.afterGroups hids
      (List.prefix_refl (groupByPair intents).entries)
    have hclean := hwell.clean hids
    have hmax := hwell.maximal d hd e he hne hcomp
    rw [matchIntents_eq, ← hscanned.disjoint.used] at hmax
    apply hplain
    rcases hmax with hused | hused
    · exact hclean d hd hused
    · have hback : Complementary e d := ⟨hcomp.2.symm, hcomp.1.symm⟩
      exact hback.plain (hclean e he hused)
  spent before d after hsplit hplain hsome := by
    have hd : d ∈ intents := by
      rw [hsplit]
      simp
    obtain ⟨g, hg⟩ := group_of_mem hd
    obtain ⟨pre, post, hentries⟩ :=
      List.append_of_mem (OrderedMap.mem_entries.mpr hg)
    have hpre : pre <+: (groupByPair intents).entries :=
      hentries ▸ List.prefix_append pre _
    have hscanned := Scanned.afterGroups hids hpre
    have hclean := hwell.clean_prefix hids hpre
    obtain ⟨hx, hy⟩ := splitKey_plain d.key
    have hall : ∀ b ∈ sells intents (splitKey d.key).2 (splitKey d.key).1,
        b.intentId ∈ (afterGroups intents pre).used := by
      intro b hb
      obtain ⟨hbin, hbx, hby⟩ := mem_sells.mp hb
      exact hwell.reverse_used hids hentries hd hplain hbin
        (key_eq_reverse.mpr ⟨hbx, hby⟩)
    have hkeys : (groupByPair (before ++ d :: after)).keys
        = pre.map Prod.fst ++ d.key :: post.map Prod.fst := by
      rw [← hsplit]
      unfold OrderedMap.keys
      rw [hentries, List.map_append, List.map_cons]
    generalize (splitKey d.key).1 = x at *
    generalize (splitKey d.key).2 = y at *
    constructor
    · obtain ⟨b, hb⟩ := List.exists_mem_of_ne_nil _ hsome
      rcases hscanned.seller_scanned hids hclean hb (hall b hb)
        with hdone | hdone
      · obtain ⟨e, he, hek⟩ := mem_keys_before hkeys hdone
        exact ⟨e, he, Or.inr (pairKey_eq hy hx hek)⟩
      · obtain ⟨e, he, hek⟩ := mem_keys_before hkeys hdone
        exact ⟨e, he, Or.inl (pairKey_eq hx hy hek)⟩
    · obtain ⟨halike, -⟩ := hscanned.used_alike hids hclean y x
      by_cases hxy : x = y
      · rw [if_pos hxy]
        subst hxy
        obtain ⟨-, heven⟩ := hscanned.used_alike hids hclean x x
        rwa [usedSells_eq_sells hall] at heven
      · rw [if_neg hxy]
        rw [usedSells_eq_sells hall] at halike
        rw [halike]
        exact List.filter_sublist.length_le

end Necessary

/-- Whatever intents with distinct ids come in, the matching is sound,
disjoint and maximal exactly where the separator does no harm; where no
asset holds it, in particular. -/
theorem matches_well_iff {intents : List Reconstructed}
    (hids : (intents.map Reconstructed.intentId).Nodup) :
    MatchesWell intents (matchIntents intents) ↔ PipeHarmless intents :=
  ⟨MatchesWell.harmless hids, fun h => h.matches_well hids⟩

/-- Two crossing intents, and three that trade an asset for itself. -/
def crossed : List Reconstructed := [
  ⟨"A", 50000000, "USDC", "XLM"⟩,
  ⟨"X", 100000000, "USDC", "USDC"⟩,
  ⟨"Y", 100000000, "USDC", "USDC"⟩,
  ⟨"B", 70000000, "XLM", "USDC"⟩,
  ⟨"Z", 100000000, "USDC", "USDC"⟩]

/-- Two that cross are matched right. -/
theorem matches_well_crossed :
    MatchesWell crossed (matchIntents crossed) := by
  have hids : (crossed.map Reconstructed.intentId).Nodup := by decide
  exact (matches_well_iff hids).mpr (pipeHarmless_of_plain (by decide))

/-- The first intent's assets are joined to a key that reads as one of
`A` for `B`. -/
def piped : List Reconstructed := [
  ⟨"1", 50000000, "A|B", "C"⟩,
  ⟨"2", 50000000, "B", "A"⟩]

theorem not_matches_well_piped :
    (piped.map Reconstructed.intentId).Nodup
      ∧ ¬MatchesWell piped (matchIntents piped) := by
  have hids : (piped.map Reconstructed.intentId).Nodup := by decide
  refine ⟨hids, ?_⟩
  intro hwell
  have hharmless := MatchesWell.harmless hids hwell
  obtain ⟨⟨e, he, -⟩, -⟩ := hharmless.spent [] ⟨"1", 50000000, "A|B", "C"⟩
    [⟨"2", 50000000, "B", "A"⟩] rfl (by decide) (by decide)
  cases he

end Lumix.Committee
