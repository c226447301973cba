/-
Who is matched with whom, read off the offers.

On every market the offers of the one asset and those of the other stand
in two lines, the smallest first, and face each other (`opposite`); the
offers of an asset for itself are paired up along their one line. Where
the separator does no harm, that is what `matchIntents` matches: an
intent's deal is with the one opposite it (`dealOf_matchIntents`),
whichever group is scanned first.

`Faced` is what holds after each group: whoever is opposite on a market
one of whose two groups was scanned has a deal. A market is empty of
deals until then, as used intents are of groups scanned
(`Scanned.seller_scanned`), so the scan that comes first runs down two
whole lines (`scan_zip`, `scan_pairUp`).

`Aligned` compares those of a list who are good with the others: nobody
good is opposite anybody else. Then, and only then, the good ones have
the deals they would have by themselves (`deals_kept_iff`).
-/
import Lumix.Committee.Maximal
import Lumix.Lib.Lines

namespace Lumix.Committee

open Lines

-- =========================================================== statements

/-- Whom an intent is matched with, and for how much. -/
def dealOf (out : List MatchResult) (id : String) :
    Option (String × String) :=
  out.findSome? fun m =>
    if m.intentAId = id then some (m.intentBId, m.matchedAmount7dp)
    else if m.intentBId = id then some (m.intentAId, m.matchedAmount7dp)
    else none

/-- The offers of `x` for `y`, the smallest first. -/
def line (intents : List Reconstructed) (x y : String) :
    List Reconstructed :=
  sortByAmount (sells intents x y)

/-- The offers that face each other on the market of `x` for `y`. -/
def opposite (intents : List Reconstructed) (x y : String) :
    List (Reconstructed × Reconstructed) :=
  if x = y then pairUp (line intents x x)
  else (line intents x y).zip (line intents y x)

/-- The one opposite. -/
def facing (intents : List Reconstructed) (a : Reconstructed) :
    Option Reconstructed :=
  (opposite intents a.inputAsset a.outputAsset).findSome? fun q =>
    if q.1 = a then some q.2 else if q.2 = a then some q.1 else none

/-- No good intent is opposite one that is not. -/
def Aligned (good : String → Bool) (intents : List Reconstructed) : Prop :=
  ∀ a ∈ intents, Agree (fun i => good i.intentId)
    (opposite intents a.inputAsset a.outputAsset)

instance (good : String → Bool) (intents : List Reconstructed) :
    Decidable (Aligned good intents) :=
  inferInstanceAs (Decidable (∀ a ∈ intents,
    ∀ q ∈ opposite intents a.inputAsset a.outputAsset, _ = _))

-- ================================================================ deals

/-- The two ids of a match have each other, where no id is in two. -/
theorem dealOf_of_mem {out : List MatchResult}
    (hids : (out.flatMap MatchResult.ids).Nodup) {m : MatchResult}
    (hm : m ∈ out) :
    dealOf out m.intentAId = some (m.intentBId, m.matchedAmount7dp)
      ∧ dealOf out m.intentBId
        = some (m.intentAId, m.matchedAmount7dp) := by
  induction out with
  | nil => cases hm
  | cons r out ih =>
      rw [List.flatMap_cons, List.nodup_append] at hids
      obtain ⟨hr, hrest, hapart⟩ := hids
      have hne : r.intentAId ≠ r.intentBId := by
        unfold MatchResult.ids at hr
        simpa using hr
      unfold dealOf
      rw [List.findSome?_cons, List.findSome?_cons]
      rcases List.mem_cons.mp hm with rfl | hm
      · rw [if_pos rfl, if_neg hne, if_pos rfl]
        exact ⟨rfl, rfl⟩
      · have hother : ∀ id ∈ m.ids, r.intentAId ≠ id
            ∧ r.intentBId ≠ id := fun id hid =>
          have hin := List.mem_flatMap.mpr ⟨m, hm, hid⟩
          ⟨hapart _ (List.mem_cons_self ..) _ hin,
            hapart _ (List.mem_cons_of_mem _ (List.mem_cons_self ..))
              _ hin⟩
        obtain ⟨hA, hB⟩ := hother m.intentAId (List.mem_cons_self ..)
        obtain ⟨hA', hB'⟩ := hother m.intentBId
          (List.mem_cons_of_mem _ (List.mem_cons_self ..))
        rw [if_neg hA, if_neg hB, if_neg hA', if_neg hB']
        exact ih hrest hm

/-- A deal is one of the matches. -/
theorem mem_of_dealOf {out : List MatchResult} {id : String}
    {deal : String × String} (h : dealOf out id = some deal) :
    ∃ m ∈ out, (m.intentAId = id
        ∧ deal = (m.intentBId, m.matchedAmount7dp))
      ∨ (m.intentBId = id
        ∧ deal = (m.intentAId, m.matchedAmount7dp)) := by
  unfold dealOf at h
  obtain ⟨m, hm, hdeal⟩ := List.exists_of_findSome?_eq_some h
  refine ⟨m, hm, ?_⟩
  split at hdeal
  · rename_i hA
    injection hdeal with hdeal
    exact .inl ⟨hA, hdeal.symm⟩
  · split at hdeal
    · rename_i hB
      injection hdeal with hdeal
      exact .inr ⟨hB, hdeal.symm⟩
    · cases hdeal

-- =============================================================== markets

section Markets

variable {intents : List Reconstructed} {x y : String}

/-- The intents that sell one asset for another. -/
theorem mem_line {i : Reconstructed} :
    i ∈ line intents x y
      ↔ i ∈ intents ∧ i.inputAsset = x ∧ i.outputAsset = y :=
  mem_sortByAmount.trans mem_sells

/-- No more often than they are there. -/
theorem nodup_line (h : intents.Nodup) : (line intents x y).Nodup :=
  (List.perm_insertionSort _ _).nodup_iff.mpr (h.filter _)

/-- Who faces each other are two, and trade each other's assets. -/
theorem mem_opposite (hnodup : intents.Nodup)
    {q : Reconstructed × Reconstructed} (hq : q ∈ opposite intents x y) :
    q.1 ∈ line intents x y ∧ q.2 ∈ line intents y x ∧ q.1 ≠ q.2 := by
  unfold opposite at hq
  split at hq
  · rename_i hxy
    subst hxy
    obtain ⟨hfst, hsnd⟩ := mem_of_mem_pairUp hq
    exact ⟨hfst, hsnd, ne_of_mem_pairUp (nodup_line hnodup) hq⟩
  · rename_i hxy
    obtain ⟨hfst, hsnd⟩ := List.of_mem_zip (a := q.1) (b := q.2) hq
    refine ⟨hfst, hsnd, fun heq => hxy ?_⟩
    have hx := (mem_line.mp hfst).2.1
    have hy := (mem_line.mp hsnd).2.1
    rw [← hx, heq, hy]

/-- From the other side it is the same market. -/
theorem opposite_swap {q : Reconstructed × Reconstructed}
    (hne : x ≠ y) (hq : q ∈ opposite intents x y) :
    q.swap ∈ opposite intents y x := by
  unfold opposite at *
  rw [if_neg hne] at hq
  rw [if_neg hne.symm, ← List.zip_swap]
  exact List.mem_map_of_mem hq

/-- Of two that could trade one has somebody opposite. -/
theorem covered_opposite {a b : Reconstructed}
    (ha : a ∈ line intents x y) (hb : b ∈ line intents y x)
    (hne : a ≠ b) :
    Covered (opposite intents x y) a
      ∨ Covered (opposite intents x y) b := by
  unfold opposite
  split
  · rename_i hxy
    subst hxy
    exact covered_pairUp ha hb hne
  · exact covered_zip ha hb

/-- What an intent faces faces it. -/
theorem facing_eq_some {a b : Reconstructed}
    (h : facing intents a = some b) :
    (a, b) ∈ opposite intents a.inputAsset a.outputAsset
      ∨ (b, a) ∈ opposite intents a.inputAsset a.outputAsset := by
  unfold facing at h
  obtain ⟨⟨c, d⟩, hq, hside⟩ := List.exists_of_findSome?_eq_some h
  split at hside
  · rename_i hfst
    injection hside with hsnd
    obtain rfl : c = a := hfst
    obtain rfl : d = b := hsnd
    exact .inl hq
  · split at hside
    · rename_i hsnd
      injection hside with hfst
      obtain rfl : d = a := hsnd
      obtain rfl : c = b := hfst
      exact .inr hq
    · cases hside

/-- It faces nobody if all opposite are taken. -/
theorem facing_eq_none {a : Reconstructed} :
    facing intents a = none
      ↔ ¬Covered (opposite intents a.inputAsset a.outputAsset) a := by
  unfold facing Covered
  rw [List.findSome?_eq_none_iff]
  simp only [not_exists, not_and, not_or]
  refine forall₂_congr fun q _ => ?_
  split
  · rename_i hfst
    simp [hfst]
  · rename_i hfst
    split
    · rename_i hsnd
      simp [hsnd]
    · rename_i hsnd
      simp [hfst, hsnd]

end Markets

-- ================================================================ scans

/-- The two have a match with each other. -/
def Dealt (m : Matched) (a b : Reconstructed) : Prop :=
  resultOf a.key a b ∈ m.matchResults
    ∨ resultOf b.key b a ∈ m.matchResults

/-- A scan takes no match back. -/
theorem scan_prefix (key : String) (s r : List Reconstructed)
    (m : Matched) :
    m.matchResults ⊆ (scan (splitKey key).1 (splitKey key).2 s r
      m).matchResults := by
  obtain ⟨new, hres, -⟩ := scan_extends key s r m
  rw [hres]
  exact List.subset_append_left _ _

/-- A match just made is found in the end. -/
theorem mem_scan_push (key : String) (s r : List Reconstructed)
    (m : Matched) (a b : Reconstructed) :
    resultOf key a b ∈ (scan (splitKey key).1 (splitKey key).2 s r
      (m.push (splitKey key).1 (splitKey key).2 a b)).matchResults :=
  scan_prefix key s r _ (List.mem_append_right _ (List.mem_singleton_self _))

/-- Two lines of which nobody is used are run down together. -/
theorem scan_zip (key : String) {s r : List Reconstructed} {m : Matched}
    (hids : ((s ++ r).map Reconstructed.intentId).Nodup)
    (hfree : ∀ i ∈ s ++ r, i.intentId ∉ m.used)
    {q : Reconstructed × Reconstructed} (hq : q ∈ s.zip r) :
    resultOf key q.1 q.2 ∈ (scan (splitKey key).1 (splitKey key).2 s r
      m).matchResults := by
  induction s generalizing r m with
  | nil => cases hq
  | cons a s ih =>
      cases r with
      | nil => cases hq
      | cons b r =>
          have ha := hfree a List.mem_cons_self
          have hb := hfree b (List.mem_append_right _ List.mem_cons_self)
          rw [List.cons_append, List.map_cons, List.nodup_cons] at hids
          obtain ⟨hfirst, hids⟩ := hids
          have hperm : ((s ++ b :: r).map Reconstructed.intentId).Perm
              (b.intentId :: (s ++ r).map Reconstructed.intentId) :=
            (List.perm_middle (a := b)).map _
          rw [hperm.mem_iff, List.mem_cons, not_or] at hfirst
          rw [hperm.nodup_iff, List.nodup_cons] at hids
          rw [scan, if_neg ha, if_neg (not_or.mpr ⟨hb, hfirst.1⟩)]
          rw [List.zip_cons_cons] at hq
          rcases List.mem_cons.mp hq with rfl | hq
          · exact mem_scan_push key s r m a b
          · refine ih hids.2 (fun i hi hused => ?_) hq
            have hin : i ∈ a :: s ++ b :: r := by
              rcases List.mem_append.mp hi with hi | hi
              · exact List.mem_append_left _ (List.mem_cons_of_mem _ hi)
              · exact List.mem_append_right _ (List.mem_cons_of_mem _ hi)
            have hid := List.mem_map_of_mem (f := Reconstructed.intentId) hi
            rcases List.mem_append.mp hused with hused | hused
            · exact hfree i hin hused
            rcases List.mem_cons.mp hused with heq | hused
            · exact hfirst.2 (heq ▸ hid)
            · exact hids.1 (List.mem_singleton.mp hused ▸ hid)

/-- A line nobody of which is used is paired up against itself. -/
theorem scan_pairUp (key : String) {l : List Reconstructed} {m : Matched}
    (hids : (l.map Reconstructed.intentId).Nodup)
    (hfree : ∀ i ∈ l, i.intentId ∉ m.used)
    {q : Reconstructed × Reconstructed} (hq : q ∈ pairUp l) :
    resultOf key q.1 q.2 ∈ (scan (splitKey key).1 (splitKey key).2 l l
      m).matchResults := by
  induction l using pairUp.induct generalizing m with
  | case1 a b l ih =>
      have ha := hfree a List.mem_cons_self
      have hb := hfree b (List.mem_cons_of_mem _ List.mem_cons_self)
      simp only [List.map_cons, List.nodup_cons, List.mem_cons, not_or]
        at hids
      obtain ⟨⟨hab, hal⟩, hbl, hids⟩ := hids
      -- `a` passes itself over, takes `b`, and then `b` is used
      have hscan : scan (splitKey key).1 (splitKey key).2 (a :: b :: l)
            (a :: b :: l) m
          = scan (splitKey key).1 (splitKey key).2 l l
              (m.push (splitKey key).1 (splitKey key).2 a b) := by
        rw [scan, if_neg ha, if_pos (.inr rfl), scan, if_neg ha,
          if_neg (not_or.mpr ⟨hb, hab⟩)]
        cases l with
        | nil => simp only [scan]
        | cons c l =>
            rw [scan, if_pos]
            exact List.mem_append_right _ (by simp)
      rw [hscan]
      rw [pairUp] at hq
      rcases List.mem_cons.mp hq with rfl | hq
      · exact mem_scan_push key l l m a b
      · refine ih hids (fun i hi hused => ?_) hq
        have hid := List.mem_map_of_mem (f := Reconstructed.intentId) hi
        rcases List.mem_append.mp hused with hused | hused
        · exact hfree i (List.mem_cons_of_mem _
            (List.mem_cons_of_mem _ hi)) hused
        rcases List.mem_cons.mp hused with heq | hused
        · exact hal (heq ▸ hid)
        · exact hbl (List.mem_singleton.mp hused ▸ hid)
  | case2 l hshort =>
      rw [pairUp] at hq
      · cases hq
      · exact hshort

-- ============================================================== groups

/-- Whoever is opposite on a market that was scanned has a deal. -/
def Faced (intents : List Reconstructed) (done : List String)
    (m : Matched) : Prop :=
  ∀ x y, '|' ∉ x.toList → '|' ∉ y.toList →
    pairKey x y ∈ done ∨ pairKey y x ∈ done →
    ∀ q ∈ opposite intents x y, Dealt m q.1 q.2

section Groups

variable {intents : List Reconstructed} {x y : String}

/-- The group of two plain assets are the offers on their market. -/
theorem filter_key_eq_sells (hx : '|' ∉ x.toList) (hy : '|' ∉ y.toList) :
    intents.filter (fun i => i.key = pairKey x y) = sells intents x y := by
  unfold sells
  refine List.filter_congr fun i _ => ?_
  refine decide_eq_decide.mpr ⟨pairKey_eq hx hy, fun h => ?_⟩
  exact Reconstructed.key_eq h.1 h.2

/-- The scan of a market's group, if the market has two sides. -/
theorem matchGroup_line (hx : '|' ∉ x.toList) (hy : '|' ∉ y.toList)
    {g : List Reconstructed}
    (hg : (groupByPair intents).get (pairKey x y) = some g) (m : Matched)
    (hother : line intents y x ≠ []) :
    matchGroup (groupByPair intents) m (pairKey x y, g)
      = scan x y (line intents x y) (line intents y x) m := by
  have hlines : sells intents y x ≠ [] := by
    intro hnil
    apply hother
    rw [line, hnil]
    rfl
  rw [get_groupByPair, filter_key_eq_sells hx hy] at hg
  have hgroup : g = sells intents x y := by
    split at hg
    · cases hg
    · injection hg with hg
      exact hg.symm
  have hrev : (groupByPair intents).get (pairKey y x)
      = some (sells intents y x) := by
    rw [get_groupByPair, filter_key_eq_sells hy hx, if_neg hlines]
  unfold matchGroup
  simp only [splitKey_pairKey hx hy, hrev, hgroup, line]

/-- While neither group of a market was scanned nobody of it is used. -/
theorem Scanned.free {done : List String} {m : Matched}
    (h : Scanned intents done m)
    (hids : (intents.map Reconstructed.intentId).Nodup)
    (hclean : PlainUsed intents m)
    (hnew : ¬(pairKey x y ∈ done ∨ pairKey y x ∈ done)) :
    ∀ i ∈ line intents x y, i.intentId ∉ m.used := fun _ hi hused =>
  hnew (h.seller_scanned hids hclean (mem_sortByAmount.mp hi) hused)

/-- The ids on a market's two lines. -/
theorem nodup_lines (hids : (intents.map Reconstructed.intentId).Nodup)
    (hne : x ≠ y) :
    ((line intents x y ++ line intents y x).map
      Reconstructed.intentId).Nodup := by
  have hinj := List.inj_on_of_nodup_map hids
  have hnodup : intents.Nodup := hids.of_map
  have hapart : (line intents x y ++ line intents y x).Nodup := by
    rw [List.nodup_append]
    refine ⟨nodup_line hnodup, nodup_line hnodup, ?_⟩
    rintro i hi j hj rfl
    exact hne ((mem_line.mp hi).2.1.symm.trans (mem_line.mp hj).2.1)
  refine hapart.map_on fun i hi j hj heq => hinj ?_ ?_ heq
  · exact (List.mem_append.mp hi).elim (fun h => (mem_line.mp h).1)
      fun h => (mem_line.mp h).1
  · exact (List.mem_append.mp hj).elim (fun h => (mem_line.mp h).1)
      fun h => (mem_line.mp h).1

/-- The scan of a market's first group deals with everybody opposite. -/
theorem faced_first (hids : (intents.map Reconstructed.intentId).Nodup)
    (hx : '|' ∉ x.toList) (hy : '|' ∉ y.toList)
    {g : List Reconstructed}
    (hg : (groupByPair intents).get (pairKey x y) = some g) {m : Matched}
    (hfree : ∀ i ∈ line intents x y, i.intentId ∉ m.used)
    (hfree' : ∀ i ∈ line intents y x, i.intentId ∉ m.used)
    {q : Reconstructed × Reconstructed} (hq : q ∈ opposite intents x y) :
    resultOf q.1.key q.1 q.2 ∈ (matchGroup (groupByPair intents) m
      (pairKey x y, g)).matchResults := by
  obtain ⟨hfst, hsnd, -⟩ := mem_opposite hids.of_map hq
  obtain ⟨-, hqx, hqy⟩ := mem_line.mp hfst
  rw [matchGroup_line hx hy hg m (List.ne_nil_of_mem hsnd),
    Reconstructed.key_eq hqx hqy]
  have hsplit := splitKey_pairKey hx hy
  unfold opposite at hq
  split at hq
  · rename_i hxy
    subst hxy
    have hline : ((line intents x x).map Reconstructed.intentId).Nodup :=
      (nodup_line hids.of_map).map_on fun i hi j hj heq =>
        List.inj_on_of_nodup_map hids (mem_line.mp hi).1
          (mem_line.mp hj).1 heq
    have hmem := scan_pairUp (pairKey x x) hline hfree hq
    rwa [hsplit] at hmem
  · rename_i hxy
    have hmem := scan_zip (pairKey x y) (nodup_lines hids hxy)
      (fun i hi => (List.mem_append.mp hi).elim (hfree i) (hfree' i)) hq
    rwa [hsplit] at hmem

/-- What one more group does. -/
theorem Faced.group (hids : (intents.map Reconstructed.intentId).Nodup)
    {done : List String} {m : Matched} (h : Faced intents done m)
    (hscanned : Scanned intents done m) (hclean : PlainUsed intents m)
    {key : String} {g : List Reconstructed}
    (hg : (groupByPair intents).get key = some g) :
    Faced intents (done ++ [key])
      (matchGroup (groupByPair intents) m (key, g)) := by
  intro x y hx hy hdone q hq
  obtain ⟨-, new, hres, -⟩ := matchGroup_extends hg m
  by_cases hold : pairKey x y ∈ done ∨ pairKey y x ∈ done
  · refine (h x y hx hy hold q hq).imp (fun hr => ?_) (fun hr => ?_) <;>
      exact hres ▸ List.mem_append_left _ hr
  · -- the first of the market's two groups
    have hfree := hscanned.free hids hclean hold
    have hfree' := hscanned.free hids hclean (mt Or.symm hold)
    simp only [List.mem_append, List.mem_singleton] at hdone
    have hkey : pairKey x y = key ∨ pairKey y x = key := by
      rcases hdone with (hin | heq) | (hin | heq)
      · exact absurd (.inl hin) hold
      · exact .inl heq
      · exact absurd (.inr hin) hold
      · exact .inr heq
    rcases hkey with rfl | rfl
    · exact .inl (faced_first hids hx hy hg hfree hfree' hq)
    · by_cases hxy : x = y
      · subst hxy
        exact .inl (faced_first hids hx hx hg hfree hfree' hq)
      · exact .inr (faced_first hids hy hx hg hfree' hfree
          (opposite_swap hxy hq))

/-- After some groups, whoever is opposite on a market of theirs has a
deal. -/
theorem PipeHarmless.faced (h : PipeHarmless intents)
    (hids : (intents.map Reconstructed.intentId).Nodup)
    {entries : List (String × List Reconstructed)}
    (hpre : entries <+: (groupByPair intents).entries) :
    Faced intents (entries.map Prod.fst) (afterGroups intents entries) := by
  induction entries using List.reverseRecOn with
  | nil =>
      intro x y _ _ hdone
      rcases hdone with hdone | hdone <;> cases hdone
  | append_singleton entries kg ih =>
      have hbefore : entries <+: (groupByPair intents).entries :=
        (List.prefix_append _ _).trans hpre
      have hmem : (kg.1, kg.2) ∈ (groupByPair intents).entries :=
        hpre.subset (by simp)
      rw [afterGroups_concat, List.map_append]
      exact (ih hbefore).group hids (Scanned.afterGroups hids hbefore)
        (h.clean hids hbefore) (OrderedMap.mem_entries.mp hmem)

end Groups

-- ============================================================= all deals

/-- Who face each other have a deal, for the smaller amount. -/
theorem PipeHarmless.dealOf_opposite {intents : List Reconstructed}
    (h : PipeHarmless intents)
    (hids : (intents.map Reconstructed.intentId).Nodup) {x y : String}
    {q : Reconstructed × Reconstructed} (hq : q ∈ opposite intents x y) :
    dealOf (matchIntents intents) q.1.intentId
        = some (q.2.intentId, (min q.1.amount7dp q.2.amount7dp).repr)
      ∧ dealOf (matchIntents intents) q.2.intentId
        = some (q.1.intentId,
          (min q.2.amount7dp q.1.amount7dp).repr) := by
  have hdisjoint := (matchIntents_disjoint intents).1
  obtain ⟨hfst, hsnd, hne⟩ := mem_opposite hids.of_map hq
  obtain ⟨hin, hx, hy⟩ := mem_line.mp hfst
  obtain ⟨hin', hy', hx'⟩ := mem_line.mp hsnd
  have hplain : q.1.Plain := by
    by_contra hplain
    exact h.alone q.1 hin hplain q.2 hin' hne
      ⟨hx.trans hx'.symm, hy.trans hy'.symm⟩
  have hdone : pairKey x y ∈ (groupByPair intents).keys :=
    mem_keys_groupByPair.mpr ⟨q.1, hin, Reconstructed.key_eq hx hy⟩
  have hpx : '|' ∉ x.toList := hx ▸ hplain.1
  have hpy : '|' ∉ y.toList := hy ▸ hplain.2
  rcases h.faced hids (List.prefix_refl _) x y hpx hpy (.inl hdone) q hq
    with hr | hr
  · obtain ⟨hA, hB⟩ := dealOf_of_mem hdisjoint hr
    simp only [resultOf, repr_smaller] at hA hB
    exact ⟨hA, min_comm q.1.amount7dp _ ▸ hB⟩
  · obtain ⟨hA, hB⟩ := dealOf_of_mem hdisjoint hr
    simp only [resultOf, repr_smaller] at hA hB
    exact ⟨min_comm q.2.amount7dp _ ▸ hB, hA⟩

/-- Nobody has a deal with one whom nobody is opposite: he would have
another deal already. -/
theorem PipeHarmless.not_dealt {intents : List Reconstructed}
    (h : PipeHarmless intents)
    (hids : (intents.map Reconstructed.intentId).Nodup)
    {a b : Reconstructed} (ha : a ∈ intents) (hb : b ∈ intents)
    (halone : facing intents a = none)
    (hin : b.inputAsset = a.outputAsset)
    (hout : b.outputAsset = a.inputAsset) (hne : a ≠ b)
    (amount : String) :
    dealOf (matchIntents intents) b.intentId
      ≠ some (a.intentId, amount) := by
  have hinj := List.inj_on_of_nodup_map hids
  have halone := facing_eq_none.mp halone
  intro hdealt
  have hcovered := (covered_opposite (mem_line.mpr ⟨ha, rfl, rfl⟩)
    (mem_line.mpr ⟨hb, hin, hout⟩) hne).resolve_left halone
  obtain ⟨q, hq, hside⟩ := hcovered
  obtain ⟨hfst, hsnd, -⟩ := mem_opposite hids.of_map hq
  obtain ⟨hd, hd'⟩ := h.dealOf_opposite hids hq
  rcases hside with hside | hside
  · rw [hside, hdealt] at hd
    injection hd with hd
    injection hd with hid
    exact halone ⟨q, hq, .inr (hinj ha (mem_line.mp hsnd).1 hid).symm⟩
  · rw [hside, hdealt] at hd'
    injection hd' with hd'
    injection hd' with hid
    exact halone ⟨q, hq, .inl (hinj ha (mem_line.mp hfst).1 hid).symm⟩

/-- Where the separator does no harm, everybody's deal is with the one
opposite, for the smaller amount. -/
theorem dealOf_matchIntents {intents : List Reconstructed}
    (hids : (intents.map Reconstructed.intentId).Nodup)
    (h : PipeHarmless intents) {a : Reconstructed} (ha : a ∈ intents) :
    dealOf (matchIntents intents) a.intentId
      = (facing intents a).map fun b =>
          (b.intentId, (min a.amount7dp b.amount7dp).repr) := by
  have hinj := List.inj_on_of_nodup_map hids
  have hdisjoint := (matchIntents_disjoint intents).1
  cases hfacing : facing intents a with
  | some b =>
      rcases facing_eq_some hfacing with hq | hq
      · exact (h.dealOf_opposite hids hq).1
      · exact (h.dealOf_opposite hids hq).2
  | none =>
      cases hdeal : dealOf (matchIntents intents) a.intentId with
      | none => rfl
      | some deal =>
          exfalso
          obtain ⟨m, hm, hside⟩ := mem_of_dealOf hdeal
          obtain ⟨c, hc, d, hd, hcid, hdid, hcd, ⟨hco, hco'⟩, -⟩ :=
            (h.matches_well hids).sound m hm
          obtain ⟨hA, hB⟩ := dealOf_of_mem hdisjoint hm
          rcases hside with ⟨hid, -⟩ | ⟨hid, -⟩
          · obtain rfl := hinj ha hc (hid.symm.trans hcid.symm)
            rw [← hdid, ← hcid] at hB
            exact h.not_dealt hids ha hd hfacing hco'.symm hco.symm hcd _
              hB
          · obtain rfl := hinj ha hd (hid.symm.trans hdid.symm)
            rw [← hdid, ← hcid] at hA
            exact h.not_dealt hids ha hc hfacing hco hco' hcd.symm _ hA

-- ======================================================== good and others

section Good

variable {intents : List Reconstructed} {good : String → Bool}
  {x y : String}

/-- The good ones of a list. -/
def goodOnes (good : String → Bool) (intents : List Reconstructed) :
    List Reconstructed :=
  intents.filter fun i => good i.intentId

/-- The good ones of a line are the line of the good ones. -/
theorem line_goodOnes (x y : String) :
    line (goodOnes good intents) x y
      = (line intents x y).filter fun i => good i.intentId := by
  have : IsTrans Reconstructed
      fun a b => ¬b.amount7dp < a.amount7dp :=
    ⟨fun a b c hab hbc => by omega⟩
  have : Std.Total fun a b : Reconstructed =>
      ¬b.amount7dp < a.amount7dp :=
    ⟨fun a b => by omega⟩
  unfold line sortByAmount sells goodOnes
  rw [filter_insertionSort, List.filter_filter, List.filter_filter]
  congr 1
  exact List.filter_congr fun i _ => Bool.and_comm _ _

/-- Where the good ones are opposite each other they stay so. -/
theorem opposite_goodOnes
    (h : Agree (fun i => good i.intentId) (opposite intents x y)) :
    opposite (goodOnes good intents) x y
      = (opposite intents x y).filter fun q => good q.1.intentId := by
  unfold opposite at *
  simp only [line_goodOnes]
  split
  · rename_i hxy
    rw [if_pos hxy] at h
    exact pairUp_filter h
  · rename_i hxy
    rw [if_neg hxy] at h
    exact zip_filter h

/-- And face the same. -/
theorem facing_goodOnes (h : Aligned good intents) {a : Reconstructed}
    (ha : a ∈ intents) (hgood : good a.intentId = true) :
    facing (goodOnes good intents) a = facing intents a := by
  have hagree := h a ha
  unfold facing
  rw [opposite_goodOnes hagree]
  generalize opposite intents a.inputAsset a.outputAsset = pairs at hagree
  induction pairs with
  | nil => rfl
  | cons q pairs ih =>
      obtain ⟨hq, hrest⟩ := List.forall_mem_cons.mp hagree
      rw [List.filter_cons, List.findSome?_cons]
      split
      · rw [List.findSome?_cons, ih hrest]
      · -- a pair of others is none of `a`'s
        rename_i hbad
        have hfst : q.1 ≠ a := by
          rintro rfl
          exact hbad hgood
        have hsnd : q.2 ≠ a := by
          rintro rfl
          exact hbad (hq.trans hgood)
        rw [if_neg hfst, if_neg hsnd]
        exact ih hrest

/-- The intents that are good. -/
theorem mem_goodOnes {a : Reconstructed} :
    a ∈ goodOnes good intents
      ↔ a ∈ intents ∧ good a.intentId = true :=
  List.mem_filter

/-- Their ids are as different as before. -/
theorem nodup_goodOnes
    (hids : (intents.map Reconstructed.intentId).Nodup) :
    ((goodOnes good intents).map Reconstructed.intentId).Nodup :=
  hids.sublist (List.filter_sublist.map _)

/-- Who has a deal among the good ones is good. -/
theorem good_of_dealOf {id : String} {deal : String × String}
    (h : dealOf (matchIntents (goodOnes good intents)) id = some deal) :
    good deal.1 = true := by
  have hsub := (matchIntents_disjoint (goodOnes good intents)).2
  have hgood : ∀ m ∈ matchIntents (goodOnes good intents),
      ∀ id ∈ m.ids, good id = true := by
    intro m hm id hid
    obtain ⟨i, hi, rfl⟩ := List.mem_map.mp
      (hsub (List.mem_flatMap.mpr ⟨m, hm, hid⟩))
    exact (mem_goodOnes.mp hi).2
  obtain ⟨m, hm, ⟨-, rfl⟩ | ⟨-, rfl⟩⟩ := mem_of_dealOf h
  · exact hgood m hm _ (List.mem_cons_of_mem _ (List.mem_cons_self ..))
  · exact hgood m hm _ (List.mem_cons_self ..)

/-- The good ones keep the deals they would have by themselves exactly
if nobody else is opposite one of them. -/
theorem deals_kept_iff
    (hids : (intents.map Reconstructed.intentId).Nodup)
    (h : PipeHarmless intents)
    (h' : PipeHarmless (goodOnes good intents)) :
    (∀ a ∈ intents, good a.intentId = true →
        dealOf (matchIntents intents) a.intentId
          = dealOf (matchIntents (goodOnes good intents)) a.intentId)
      ↔ Aligned good intents := by
  constructor
  · intro hkept a _ q hq
    obtain ⟨hfst, hsnd, -⟩ := mem_opposite hids.of_map hq
    obtain ⟨hd, hd'⟩ := h.dealOf_opposite hids hq
    rw [Bool.eq_iff_iff]
    constructor
    · intro hgood
      rw [hkept q.1 (mem_line.mp hfst).1 hgood] at hd
      exact good_of_dealOf hd
    · intro hgood
      rw [hkept q.2 (mem_line.mp hsnd).1 hgood] at hd'
      exact good_of_dealOf hd'
  · intro haligned a ha hgood
    rw [dealOf_matchIntents hids h ha, dealOf_matchIntents
      (nodup_goodOnes hids) h' (mem_goodOnes.mpr ⟨ha, hgood⟩),
      facing_goodOnes haligned ha hgood]

end Good

end Lumix.Committee
