/-
The groups `matchIntents` scans: what a joined key splits into, and which
groups there are in which order.

A key splits back into the two assets it was joined of where neither
holds the separator (`splitKey_pairKey`). In any case the two parts that
are read hold none, so the group of the reversed key is always one of
intents that trade exactly these parts (`key_eq_reverse`).
-/
import Mathlib.Data.List.Induction
import Lumix.Committee.Matching

namespace Lumix.Committee

-- ================================================================ keys

/-- Neither asset holds the separator. -/
def Reconstructed.Plain (i : Reconstructed) : Prop :=
  '|' ∉ i.inputAsset.toList ∧ '|' ∉ i.outputAsset.toList

instance : DecidablePred Reconstructed.Plain := fun _ =>
  inferInstanceAs (Decidable (_ ∧ _))

/-- The key of an intent's group. -/
def Reconstructed.key (i : Reconstructed) : String :=
  pairKey i.inputAsset i.outputAsset

/-- `reverseKey` -/
def reverseKey (key : String) : String :=
  pairKey (splitKey key).2 (splitKey key).1

/-- A pair's key is the two assets with a separator between. -/
theorem toList_pairKey (x y : String) :
    (pairKey x y).toList = x.toList ++ '|' :: y.toList := by
  unfold pairKey
  rw [String.toList_append, String.toList_append, List.append_assoc]
  rfl

/-- The parts between separators hold no separator. -/
theorem not_mem_of_mem_splitOn {c : Char} {cs p : List Char}
    (hp : p ∈ cs.splitOn c) : c ∉ p := by
  induction hlen : cs.length using Nat.strong_induction_on
    generalizing cs with
  | _ n ih =>
      by_cases hc : c ∈ cs
      · obtain ⟨u, v, rfl, hu⟩ := List.eq_append_cons_of_mem hc
        have hfree : ∀ x ∈ u, (x == c) = false := by
          intro x hx
          rw [beq_eq_false_iff_ne]
          rintro rfl
          exact hu hx
        have hsplit : (u ++ c :: v).splitOn c = u :: v.splitOn c :=
          List.splitOnP_append_cons_of_forall_mem hfree c
            (beq_self_eq_true c) v
        rw [hsplit] at hp
        rcases List.mem_cons.mp hp with rfl | hp
        · exact hu
        · rw [List.length_append, List.length_cons] at hlen
          exact ih v.length (by omega) hp rfl
      · have hfree : ∀ x ∈ cs, (x == c) = false := by
          intro x hx
          rw [beq_eq_false_iff_ne]
          rintro rfl
          exact hc hx
        have hsplit : cs.splitOn c = [cs] :=
          List.splitOnP_eq_singleton hfree
        rw [hsplit] at hp
        rw [List.mem_singleton.mp hp]
        exact hc

/-- Whatever a key is, the two parts read of it hold no separator. -/
theorem splitKey_plain (key : String) :
    '|' ∉ (splitKey key).1.toList ∧ '|' ∉ (splitKey key).2.toList := by
  have hparts : ∀ p ∈ (key.toList.splitOn '|').map String.ofList,
      '|' ∉ p.toList := by
    intro p hp
    obtain ⟨cs, hcs, rfl⟩ := List.mem_map.mp hp
    rw [String.toList_ofList]
    exact not_mem_of_mem_splitOn hcs
  unfold splitKey
  cases h : (key.toList.splitOn '|').map String.ofList with
  | nil => exact ⟨by decide, by decide⟩
  | cons a rest =>
      rw [h] at hparts
      obtain ⟨ha, hrest⟩ := List.forall_mem_cons.mp hparts
      cases rest with
      | nil =>
          refine ⟨ha, ?_⟩
          show '|' ∉ "undefined".toList
          decide
      | cons b rest => exact ⟨ha, hrest b (List.mem_cons_self ..)⟩

/-- Split at every separator. -/
theorem splitOn_pairKey (x y : String) :
    (pairKey x y).toList.splitOn '|'
      = x.toList.splitOn '|' ++ y.toList.splitOn '|' := by
  rw [toList_pairKey]
  exact List.splitOnP_append_cons _ _ (beq_self_eq_true _)

/-- A text without the separator is one part. -/
theorem splitOn_eq_singleton {cs : List Char} (h : '|' ∉ cs) :
    cs.splitOn '|' = [cs] := by
  apply List.splitOnP_eq_singleton
  intro x hx
  rw [beq_eq_false_iff_ne]
  rintro rfl
  exact h hx

/-- Two assets without the separator are read back. -/
theorem splitKey_pairKey {x y : String} (hx : '|' ∉ x.toList)
    (hy : '|' ∉ y.toList) : splitKey (pairKey x y) = (x, y) := by
  unfold splitKey
  rw [splitOn_pairKey, splitOn_eq_singleton hx, splitOn_eq_singleton hy]
  simp

/-- An intent without separators has its assets back from its key, -/
theorem Reconstructed.Plain.splitKey_key {i : Reconstructed}
    (h : i.Plain) : splitKey i.key = (i.inputAsset, i.outputAsset) :=
  splitKey_pairKey h.1 h.2

/-- An intent whose key is read back as its assets is plain. -/
theorem plain_of_splitKey {i : Reconstructed}
    (h : splitKey i.key = (i.inputAsset, i.outputAsset)) : i.Plain := by
  have hplain := splitKey_plain i.key
  rw [h] at hplain
  exact hplain

/-- A text is one part only if it holds no separator. -/
theorem eq_of_splitOn_singleton {cs p : List Char}
    (h : cs.splitOn '|' = [p]) : cs = p := by
  have hback : ['|'].intercalate (cs.splitOn '|') = cs :=
    List.intercalate_splitOn '|'
  rw [h] at hback
  rw [← hback]
  simp

/-- A key of assets without the separator has no other reading. -/
theorem pairKey_eq {x y a b : String} (hx : '|' ∉ x.toList)
    (hy : '|' ∉ y.toList) (h : pairKey a b = pairKey x y) :
    a = x ∧ b = y := by
  have hparts := splitOn_pairKey a b
  rw [h, splitOn_pairKey, splitOn_eq_singleton hx, splitOn_eq_singleton hy]
    at hparts
  have hne : ∀ cs : List Char, cs.splitOn '|' ≠ [] := fun cs =>
    List.splitOnP_ne_nil _ _
  obtain ⟨p, ps, hp⟩ := List.exists_cons_of_ne_nil (hne a.toList)
  obtain ⟨q, qs, hq⟩ := List.exists_cons_of_ne_nil (hne b.toList)
  have hlen := congrArg List.length hparts
  rw [hp, hq] at hlen hparts
  simp only [List.length_append, List.length_cons, List.length_nil] at hlen
  obtain rfl : ps = [] := List.length_eq_zero_iff.mp (by omega)
  obtain rfl : qs = [] := List.length_eq_zero_iff.mp (by omega)
  simp only [List.cons_append, List.nil_append, List.cons.injEq, and_true]
    at hparts
  rw [← String.toList_inj, ← String.toList_inj, hparts.1, hparts.2]
  exact ⟨eq_of_splitOn_singleton hp, eq_of_splitOn_singleton hq⟩

/-- The group of a reversed key is of the intents that trade the two
parts the other way. -/
theorem key_eq_reverse {b : Reconstructed} {key : String} :
    b.key = reverseKey key
      ↔ b.inputAsset = (splitKey key).2
        ∧ b.outputAsset = (splitKey key).1 := by
  obtain ⟨hfst, hsnd⟩ := splitKey_plain key
  constructor
  · exact pairKey_eq hsnd hfst
  · rintro ⟨hin, hout⟩
    unfold Reconstructed.key reverseKey
    rw [hin, hout]

/-- and its key turned round. -/
theorem reverseKey_pairKey {x y : String} (hx : '|' ∉ x.toList)
    (hy : '|' ∉ y.toList) : reverseKey (pairKey x y) = pairKey y x := by
  unfold reverseKey
  rw [splitKey_pairKey hx hy]

/-- Intents of one pair have one key. -/
theorem Reconstructed.key_eq {i : Reconstructed} {x y : String}
    (hx : i.inputAsset = x) (hy : i.outputAsset = y) :
    i.key = pairKey x y := by
  unfold Reconstructed.key
  rw [hx, hy]

/-- A key that is another turned round has one separator. -/
theorem plain_of_key_eq_reverse {b : Reconstructed} {key : String}
    (h : b.key = reverseKey key) : b.Plain := by
  obtain ⟨hin, hout⟩ := key_eq_reverse.mp h
  obtain ⟨hfst, hsnd⟩ := splitKey_plain key
  unfold Reconstructed.Plain
  rw [hin, hout]
  exact ⟨hsnd, hfst⟩

-- ============================================================== groups

/-- A further intent goes to the end of its group. -/
theorem groupByPair_concat (l : List Reconstructed) (i : Reconstructed) :
    groupByPair (l ++ [i]) = (groupByPair l).set i.key
      (((groupByPair l).get i.key).getD [] ++ [i]) := by
  unfold groupByPair
  rw [List.foldl_append]
  rfl

/-- A group is the intents with its key, in the order they came. -/
theorem get_groupByPair (l : List Reconstructed) (key : String) :
    (groupByPair l).get key
      = if l.filter (fun i => i.key = key) = [] then none
        else some (l.filter fun i => i.key = key) := by
  induction l using List.reverseRecOn with
  | nil => rfl
  | append_singleton l i ih =>
      rw [groupByPair_concat, OrderedMap.get_set, List.filter_append]
      by_cases hkey : i.key = key
      · subst hkey
        rw [if_pos rfl, ih]
        by_cases hnil : l.filter (fun j => j.key = i.key) = []
        · simp [hnil]
        · simp [hnil]
      · rw [if_neg hkey, ih]
        simp [hkey]

/-- A group holds the intents of its key. -/
theorem mem_group {l g : List Reconstructed} {key : String}
    (h : (groupByPair l).get key = some g) (i : Reconstructed) :
    i ∈ g ↔ i ∈ l ∧ i.key = key := by
  rw [get_groupByPair] at h
  by_cases hnil : l.filter (fun j => j.key = key) = []
  · rw [if_pos hnil] at h
    cases h
  · rw [if_neg hnil] at h
    injection h with h
    rw [← h, List.mem_filter, decide_eq_true_eq]

/-- There is a group for every intent. -/
theorem group_of_mem {l : List Reconstructed} {i : Reconstructed}
    (hi : i ∈ l) : ∃ g, (groupByPair l).get i.key = some g := by
  rw [get_groupByPair]
  have hne : l.filter (fun j => j.key = i.key) ≠ [] := by
    apply List.ne_nil_of_mem (a := i)
    rw [List.mem_filter]
    exact ⟨hi, decide_eq_true rfl⟩
  rw [if_neg hne]
  exact ⟨_, rfl⟩

/-- No group is empty. -/
theorem group_ne_nil {l g : List Reconstructed} {key : String}
    (h : (groupByPair l).get key = some g) : g ≠ [] := by
  rw [get_groupByPair] at h
  by_cases hnil : l.filter (fun j => j.key = key) = []
  · rw [if_pos hnil] at h
    cases h
  · rw [if_neg hnil] at h
    injection h with h
    rw [← h]
    exact hnil

/-- Every intent has a group. -/
theorem mem_keys_groupByPair {l : List Reconstructed} {key : String} :
    key ∈ (groupByPair l).keys ↔ ∃ i ∈ l, i.key = key := by
  rw [OrderedMap.mem_keys]
  constructor
  · rintro ⟨g, hg⟩
    obtain ⟨i, hi⟩ := List.exists_mem_of_ne_nil g (group_ne_nil hg)
    exact ⟨i, (mem_group hg i).mp hi⟩
  · rintro ⟨i, hi, rfl⟩
    exact group_of_mem hi

/-- Later intents add their groups at the end. -/
theorem keys_groupByPair_append (l r : List Reconstructed) :
    (groupByPair l).keys <+: (groupByPair (l ++ r)).keys := by
  induction r using List.reverseRecOn with
  | nil =>
      simp only [List.append_nil, List.prefix_refl]
  | append_singleton r i ih =>
      rw [← List.append_assoc, groupByPair_concat]
      refine ih.trans ?_
      show _ <+: (Entries.place _ _ _).map Prod.fst
      rw [Entries.keys_place]
      by_cases hmem : i.key ∈ (groupByPair (l ++ r)).entries.map Prod.fst
      · rw [if_pos hmem]
        exact List.prefix_refl _
      · rw [if_neg hmem]
        exact List.prefix_append _ _

/-- The groups before a group are those of intents that came before its
first one. -/
theorem mem_keys_before {before after : List Reconstructed}
    {d : Reconstructed} {pre post : List String}
    (hkeys : (groupByPair (before ++ d :: after)).keys
      = pre ++ d.key :: post) {key : String} (hkey : key ∈ pre) :
    ∃ e ∈ before, e.key = key := by
  have hnodup := (groupByPair (before ++ d :: after)).nodup
  change (groupByPair (before ++ d :: after)).keys.Nodup at hnodup
  obtain ⟨rest, hrest⟩ := keys_groupByPair_append (before ++ [d]) after
  rw [List.append_assoc, List.singleton_append, hkeys] at hrest
  rw [hkeys] at hnodup
  have hd : d.key ∈ (groupByPair (before ++ [d])).keys :=
    mem_keys_groupByPair.mpr ⟨d, by simp, rfl⟩
  have hne : key ≠ d.key := by
    rintro rfl
    exact List.disjoint_of_nodup_append hnodup hkey (List.mem_cons_self ..)
  -- the key of `d` is among the first keys, so all before it are
  have hmem : key ∈ (groupByPair (before ++ [d])).keys := by
    rcases List.append_eq_append_iff.mp hrest
      with ⟨t, rfl, ht⟩ | ⟨t, ht, -⟩
    · exact absurd hd fun hin => by
        refine List.disjoint_of_nodup_append hnodup
          (List.mem_append_left _ hin) (List.mem_cons_self ..)
    · rw [ht]
      exact List.mem_append_left _ hkey
  obtain ⟨e, he, hek⟩ := mem_keys_groupByPair.mp hmem
  rcases List.mem_append.mp he with he | he
  · exact ⟨e, he, hek⟩
  · rw [List.mem_singleton.mp he] at hek
    exact absurd hek.symm hne

/-- The groups of the intents before the first of a group come before
it. -/
theorem mem_pre_of_mem_before {before after : List Reconstructed}
    {d e : Reconstructed} {pre post : List String}
    (hkeys : (groupByPair (before ++ d :: after)).keys
      = pre ++ d.key :: post)
    (hfirst : ∀ i ∈ before, i.key ≠ d.key) (he : e ∈ before) :
    e.key ∈ pre := by
  obtain ⟨rest, hrest⟩ := keys_groupByPair_append before (d :: after)
  rw [hkeys] at hrest
  have hmem : e.key ∈ (groupByPair before).keys :=
    mem_keys_groupByPair.mpr ⟨e, he, rfl⟩
  rcases List.append_eq_append_iff.mp hrest with ⟨t, ht, -⟩ | ⟨t, ht, ht'⟩
  · rw [ht]
    exact List.mem_append_left _ hmem
  · cases t with
    | nil =>
        rw [List.append_nil] at ht
        rwa [ht] at hmem
    | cons k t =>
        obtain ⟨rfl, -⟩ := List.cons.inj ht'
        have hd : d.key ∈ (groupByPair before).keys := by
          rw [ht]
          simp
        obtain ⟨i, hi, hik⟩ := mem_keys_groupByPair.mp hd
        exact absurd hik (hfirst i hi)

end Lumix.Committee
