/-
`matchIntents`: pairs of complementary intents out of the amounts a
round reconstructed.

The intents are grouped by "input|output", and each group is scanned
against the group of the reversed pair with two pointers into the two
sorted lists. One set of used ids is shared by all the scans. `scan` is
that loop with the lists' remainders for the two pointers.

`Disjoint` is the invariant of the whole computation: the used set is
the ids of the matches so far, and no id is in it twice.
-/
import Mathlib.Data.List.Sort
import Lumix.Committee.State

namespace Lumix.Committee

-- ======================================================= the algorithm

/-- An intent with its amount. -/
structure Reconstructed where
  intentId : String
  amount7dp : ℕ
  inputAsset : String
  outputAsset : String
deriving DecidableEq

/-- The key of a pair of assets. -/
def pairKey (inputAsset outputAsset : String) : String :=
  inputAsset ++ "|" ++ outputAsset

/-- `const [inAsset, outAsset] = key.split("|")`: the first two parts,
whatever follows. -/
def splitKey (key : String) : String × String :=
  match (key.toList.splitOn '|').map String.ofList with
  | a :: b :: _ => (a, b)
  | [a] => (a, "undefined")
  | [] => ("undefined", "undefined")

/-- The intents by their pairs, in the order they come. -/
def groupByPair (intents : List Reconstructed) :
    OrderedMap String (List Reconstructed) :=
  intents.foldl
    (fun groups i =>
      let key := pairKey i.inputAsset i.outputAsset
      groups.set key ((groups.get key).getD [] ++ [i]))
    OrderedMap.empty

/-- The comparator answers "before" for a smaller amount only, so equal
amounts keep their order. -/
def sortByAmount (group : List Reconstructed) : List Reconstructed :=
  group.insertionSort fun a b => ¬b.amount7dp < a.amount7dp

/-- The matches so far, and the ids they use. -/
structure Matched where
  matchResults : List MatchResult
  used : List String
deriving DecidableEq

/-- A further match, of the smaller amount. -/
def Matched.push (m : Matched) (inAsset outAsset : String)
    (a b : Reconstructed) : Matched where
  matchResults := m.matchResults ++
    [{ intentAId := a.intentId
       intentBId := b.intentId
       matchedAmount7dp :=
         (if a.amount7dp < b.amount7dp then a.amount7dp
          else b.amount7dp).repr
       inputAsset := inAsset
       outputAsset := outAsset }]
  used := m.used ++ [a.intentId, b.intentId]

/-- The two-pointer loop over what is left of the two sorted groups. -/
def scan (inAsset outAsset : String) :
    List Reconstructed → List Reconstructed → Matched → Matched
  | a :: sorted, b :: reverseSorted, m =>
      if a.intentId ∈ m.used then
        scan inAsset outAsset sorted (b :: reverseSorted) m
      else if b.intentId ∈ m.used ∨ a.intentId = b.intentId then
        scan inAsset outAsset (a :: sorted) reverseSorted m
      else
        scan inAsset outAsset sorted reverseSorted
          (m.push inAsset outAsset a b)
  | _, _, m => m
termination_by sorted reverseSorted _ =>
  sorted.length + reverseSorted.length

/-- One pass of the loop over the groups. -/
def matchGroup (groups : OrderedMap String (List Reconstructed))
    (m : Matched) (kg : String × List Reconstructed) : Matched :=
  let (inAsset, outAsset) := splitKey kg.1
  match groups.get (pairKey outAsset inAsset) with
  | none => m
  | some reverseGroup =>
      scan inAsset outAsset (sortByAmount kg.2) (sortByAmount reverseGroup)
        m

/-- Group by group, each with its opposite. -/
def matchIntents (intents : List Reconstructed) : List MatchResult :=
  let groups := groupByPair intents
  (groups.entries.foldl (matchGroup groups) ⟨[], []⟩).matchResults

-- ======================================================== disjointness

/-- The two ids a match consumes. -/
def MatchResult.ids (m : MatchResult) : List String :=
  [m.intentAId, m.intentBId]

/-- The used set is exactly what the matches consumed, no id twice, and
every used id is one of `ids`. -/
structure Matched.Disjoint (ids : List String) (m : Matched) : Prop where
  used : m.used = m.matchResults.flatMap MatchResult.ids
  nodup : m.used.Nodup
  subset : m.used ⊆ ids

/-- A match of two unused intents uses each once. -/
theorem Matched.Disjoint.push {ids : List String} {m : Matched}
    (h : m.Disjoint ids) (inAsset outAsset : String) {a b : Reconstructed}
    (ha : a.intentId ∉ m.used) (hb : b.intentId ∉ m.used)
    (hab : a.intentId ≠ b.intentId) (hain : a.intentId ∈ ids)
    (hbin : b.intentId ∈ ids) :
    (m.push inAsset outAsset a b).Disjoint ids where
  used := by
    rw [Matched.push, List.flatMap_append, ← h.used]
    rfl
  nodup := by
    show (m.used ++ [a.intentId, b.intentId]).Nodup
    rw [List.nodup_append]
    refine ⟨h.nodup, by simp [hab], ?_⟩
    intro x hx y hy hxy
    subst hxy
    rcases List.mem_cons.mp hy with rfl | hy
    · exact ha hx
    · exact hb (List.mem_singleton.mp hy ▸ hx)
  subset := by
    show m.used ++ [a.intentId, b.intentId] ⊆ ids
    refine List.append_subset.mpr ⟨h.subset, ?_⟩
    intro x hx
    rcases List.mem_cons.mp hx with rfl | hx
    · exact hain
    · exact List.mem_singleton.mp hx ▸ hbin

/-- Every advance of the scan keeps the matches disjoint: it drops a
head, or pushes two heads that are unused and different. -/
theorem scan_disjoint {ids : List String} (inAsset outAsset : String)
    (sorted reverseSorted : List Reconstructed) (m : Matched)
    (ha : ∀ i ∈ sorted, i.intentId ∈ ids)
    (hb : ∀ i ∈ reverseSorted, i.intentId ∈ ids) (h : m.Disjoint ids) :
    (scan inAsset outAsset sorted reverseSorted m).Disjoint ids := by
  induction sorted, reverseSorted, m using scan.induct inAsset outAsset with
  | case1 a sorted b reverseSorted m hused ih =>
      rw [scan, if_pos hused]
      exact ih (fun i hi => ha i (List.mem_cons_of_mem _ hi)) hb h
  | case2 a sorted b reverseSorted m hused hskip ih =>
      rw [scan, if_neg hused, if_pos hskip]
      exact ih ha (fun i hi => hb i (List.mem_cons_of_mem _ hi)) h
  | case3 a sorted b reverseSorted m hused hskip ih =>
      rw [scan, if_neg hused, if_neg hskip]
      obtain ⟨hbused, hne⟩ := not_or.mp hskip
      refine ih (fun i hi => ha i (List.mem_cons_of_mem _ hi))
        (fun i hi => hb i (List.mem_cons_of_mem _ hi)) ?_
      exact h.push _ _ hused hbused hne (ha a (List.mem_cons_self ..))
        (hb b (List.mem_cons_self ..))
  | case4 m sorted reverseSorted hnil =>
      rw [scan]
      · exact h
      · exact hnil

/-- A group holds intents of the list only. -/
theorem mem_of_mem_groupByPair {intents : List Reconstructed}
    {key : String} {group : List Reconstructed}
    (h : (groupByPair intents).get key = some group) :
    ∀ i ∈ group, i ∈ intents := by
  have hfold : ∀ (l : List Reconstructed)
      (groups : OrderedMap String (List Reconstructed)),
      (∀ k g, groups.get k = some g → ∀ i ∈ g, i ∈ intents) →
      (∀ i ∈ l, i ∈ intents) →
      ∀ k g, (l.foldl (fun groups i =>
          let key := pairKey i.inputAsset i.outputAsset
          groups.set key ((groups.get key).getD [] ++ [i])) groups).get k
        = some g → ∀ i ∈ g, i ∈ intents := by
    intro l
    induction l with
    | nil => exact fun groups hg _ => hg
    | cons x l ih =>
        intro groups hg hl
        refine ih _ ?_ (fun i hi => hl i (List.mem_cons_of_mem _ hi))
        intro k g hk i hi
        rw [OrderedMap.get_set] at hk
        by_cases hkey : pairKey x.inputAsset x.outputAsset = k
        · rw [if_pos hkey] at hk
          injection hk with hk
          subst hk
          rcases List.mem_append.mp hi with hi | hi
          · cases hold : groups.get (pairKey x.inputAsset x.outputAsset) with
            | none => rw [hold] at hi; cases hi
            | some g => rw [hold] at hi; exact hg _ g hold i hi
          · rw [List.mem_singleton.mp hi]
            exact hl x (List.mem_cons_self ..)
        · rw [if_neg hkey] at hk
          exact hg k g hk i hi
  exact hfold intents OrderedMap.empty (fun k g hk => by cases hk)
    (fun i hi => hi) key group h

/-- So through a group. -/
theorem matchGroup_disjoint {intents : List Reconstructed} {m : Matched}
    {kg : String × List Reconstructed}
    (hkg : kg ∈ (groupByPair intents).entries)
    (h : m.Disjoint (intents.map Reconstructed.intentId)) :
    (matchGroup (groupByPair intents) m kg).Disjoint
      (intents.map Reconstructed.intentId) := by
  have hsort : ∀ k g, (groupByPair intents).get k = some g →
      ∀ i ∈ sortByAmount g,
        i.intentId ∈ intents.map Reconstructed.intentId := by
    intro k g hk i hi
    rw [sortByAmount, List.mem_insertionSort] at hi
    exact List.mem_map_of_mem (mem_of_mem_groupByPair hk i hi)
  unfold matchGroup
  cases hrev : (groupByPair intents).get
      (pairKey (splitKey kg.1).2 (splitKey kg.1).1) with
  | none => simp only [hrev]; exact h
  | some reverseGroup =>
      simp only [hrev]
      exact scan_disjoint _ _ _ _ m
        (hsort kg.1 kg.2 (OrderedMap.mem_entries.mp hkg))
        (hsort _ reverseGroup hrev) h

/-- The matches of one round consume no id twice, and only ids that were
handed in; the ids themselves need not be distinct. -/
theorem matchIntents_disjoint (intents : List Reconstructed) :
    ((matchIntents intents).flatMap MatchResult.ids).Nodup
      ∧ (matchIntents intents).flatMap MatchResult.ids
          ⊆ intents.map Reconstructed.intentId := by
  have hfold : ∀ (l : List (String × List Reconstructed)) (m : Matched),
      (∀ kg ∈ l, kg ∈ (groupByPair intents).entries) →
      m.Disjoint (intents.map Reconstructed.intentId) →
      (l.foldl (matchGroup (groupByPair intents)) m).Disjoint
        (intents.map Reconstructed.intentId) := by
    intro l
    induction l with
    | nil => exact fun m _ h => h
    | cons kg l ih =>
        intro m hl h
        exact ih _ (fun x hx => hl x (List.mem_cons_of_mem _ hx))
          (matchGroup_disjoint (hl kg (List.mem_cons_self ..)) h)
  have hstart : Matched.Disjoint (intents.map Reconstructed.intentId)
      ⟨[], []⟩ := ⟨rfl, List.nodup_nil, List.nil_subset _⟩
  have h := hfold _ _ (fun kg hkg => hkg) hstart
  rw [matchIntents, ← h.used]
  exact ⟨h.nodup, h.subset⟩

end Lumix.Committee
