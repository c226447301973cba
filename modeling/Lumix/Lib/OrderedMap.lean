/-
Insertion-ordered maps: what a language's `Map` is when iteration visits
the keys in the order of their first insertion. Writing a key that is
present replaces its value where it stands; writing a new key appends.

A map carries the proof that its keys are distinct, so `entries`,
`keys` and `values` list each key once and `get` is the only lookup.
Every operation has one `get` lemma, and `mem_entries` translates a
statement about the iteration into one about lookups.
-/
import Mathlib.Data.List.Nodup
import Mathlib.Tactic.Common

namespace Lumix

variable {κ : Type*} {α : Type*}

-- ======================================================== entry lists

namespace Entries

/-- Replace the value where the key stands, or append the entry. -/
def place [DecidableEq κ] (k : κ) (v : α) : List (κ × α) → List (κ × α)
  | [] => [(k, v)]
  | e :: es => if e.1 = k then (k, v) :: es else e :: place k v es

/-- The value of the first entry under a key. -/
def find [DecidableEq κ] (k : κ) : List (κ × α) → Option α
  | [] => none
  | e :: es => if e.1 = k then some e.2 else find k es

variable [DecidableEq κ]

/-- Placing adds its key at the end, unless it is there. -/
theorem keys_place (k : κ) (v : α) (es : List (κ × α)) :
    (place k v es).map Prod.fst
      = if k ∈ es.map Prod.fst then es.map Prod.fst
        else es.map Prod.fst ++ [k] := by
  induction es with
  | nil => rfl
  | cons e es ih =>
      by_cases h : e.1 = k
      · simp [place, h]
      · rw [place, if_neg h, List.map_cons, ih]
        by_cases hk : k ∈ es.map Prod.fst
        · rw [if_pos hk, if_pos (by simp [hk])]
          rfl
        · rw [if_neg hk, if_neg (by simp [Ne.symm h, hk])]
          rfl

/-- Keys stay different. -/
theorem nodup_place {k : κ} {es : List (κ × α)} (v : α)
    (h : (es.map Prod.fst).Nodup) : ((place k v es).map Prod.fst).Nodup := by
  rw [keys_place]
  by_cases hk : k ∈ es.map Prod.fst
  · rw [if_pos hk]
    exact h
  · rw [if_neg hk]
    exact List.concat_eq_append ▸ h.concat hk

/-- A new key is appended. -/
theorem place_of_notMem {k : κ} {v : α} {es : List (κ × α)}
    (h : k ∉ es.map Prod.fst) : place k v es = es ++ [(k, v)] := by
  induction es with
  | nil => rfl
  | cons e es ih =>
      obtain ⟨hne, hmore⟩ := List.ne_and_not_mem_of_not_mem_cons h
      rw [place, if_neg (Ne.symm hne), ih hmore]
      rfl

/-- What is placed is found, and so is the rest. -/
theorem find_place (k k' : κ) (v : α) (es : List (κ × α)) :
    find k' (place k v es) = if k = k' then some v else find k' es := by
  induction es with
  | nil => rfl
  | cons e es ih =>
      by_cases h : e.1 = k
      · rw [place, if_pos h]
        by_cases hk : k = k' <;> simp [find, h, hk]
      · rw [place, if_neg h, find, ih, find]
        by_cases hk : k = k'
        · rw [if_pos hk, if_pos hk, if_neg (fun he => h (he.trans hk.symm))]
        · rw [if_neg hk, if_neg hk]

/-- What is found is there, -/
theorem mem_of_find {k : κ} {v : α} {es : List (κ × α)}
    (h : find k es = some v) : (k, v) ∈ es := by
  induction es with
  | nil => cases h
  | cons e es ih =>
      by_cases hk : e.1 = k
      · rw [find, if_pos hk] at h
        injection h with hv
        rw [← hk, ← hv]
        exact List.mem_cons_self ..
      · rw [find, if_neg hk] at h
        exact List.mem_cons_of_mem _ (ih h)

/-- and what is there is found. -/
theorem find_of_mem {k : κ} {v : α} {es : List (κ × α)}
    (hn : (es.map Prod.fst).Nodup) (h : (k, v) ∈ es) :
    find k es = some v := by
  induction es with
  | nil => cases h
  | cons e es ih =>
      rw [List.map_cons, List.nodup_cons] at hn
      rcases List.mem_cons.mp h with he | h
      · rw [find, ← he, if_pos rfl]
      · have hne : e.1 ≠ k := fun hk =>
          hn.1 (hk ▸ List.mem_map_of_mem (f := Prod.fst) h)
        rw [find, if_neg hne]
        exact ih hn.2 h

/-- Values that are mapped are found mapped. -/
theorem find_map (f : κ → α → α) (k : κ) (es : List (κ × α)) :
    find k (es.map fun e => (e.1, f e.1 e.2)) = (find k es).map (f k) := by
  induction es with
  | nil => rfl
  | cons e es ih =>
      by_cases h : e.1 = k
      · simp [find, h]
      · simp only [List.map_cons, find, if_neg h]
        exact ih

end Entries

-- =============================================================== maps

/-- A JavaScript `Map`: its entries in the order they were inserted,
under different keys. -/
structure OrderedMap (κ α : Type*) where
  entries : List (κ × α)
  nodup : (entries.map Prod.fst).Nodup

namespace OrderedMap

/-- `new Map()` -/
def empty : OrderedMap κ α where
  entries := []
  nodup := List.nodup_nil

/-- `[...m.keys()]` -/
def keys (m : OrderedMap κ α) : List κ := m.entries.map Prod.fst

/-- `[...m.values()]` -/
def values (m : OrderedMap κ α) : List α := m.entries.map Prod.snd

/-- `m.size` -/
def size (m : OrderedMap κ α) : ℕ := m.entries.length

/-- Change every value, keeping keys and order. -/
def mapValues (f : κ → α → α) (m : OrderedMap κ α) : OrderedMap κ α where
  entries := m.entries.map fun e => (e.1, f e.1 e.2)
  nodup := by
    rw [List.map_map]
    exact m.nodup

variable [DecidableEq κ]

/-- `m.get(k)` -/
def get (m : OrderedMap κ α) (k : κ) : Option α := Entries.find k m.entries

/-- `m.set(k, v)` -/
def set (m : OrderedMap κ α) (k : κ) (v : α) : OrderedMap κ α where
  entries := Entries.place k v m.entries
  nodup := Entries.nodup_place v m.nodup

/-- A map from a list of entries; of two with one key the later counts. -/
def ofList (es : List (κ × α)) : OrderedMap κ α :=
  es.foldl (fun m e => m.set e.1 e.2) empty

/-- Change the value of one key in place; nothing where it is absent. -/
def modify (m : OrderedMap κ α) (k : κ) (f : α → α) : OrderedMap κ α :=
  m.mapValues fun k' v => if k = k' then f v else v

/-- What is set is got, and so is the rest. -/
theorem get_set (m : OrderedMap κ α) (k k' : κ) (v : α) :
    (m.set k v).get k' = if k = k' then some v else m.get k' :=
  Entries.find_place k k' v m.entries

/-- Under its own key. -/
@[simp]
theorem get_set_self (m : OrderedMap κ α) (k : κ) (v : α) :
    (m.set k v).get k = some v := by
  rw [get_set, if_pos rfl]

/-- Under any other. -/
theorem get_set_ne (m : OrderedMap κ α) {k k' : κ} (v : α) (h : k ≠ k') :
    (m.set k v).get k' = m.get k' := by
  rw [get_set, if_neg h]

/-- What several settings leave is one of them, or was there. -/
theorem mem_of_get_foldl_set {es : List (κ × α)} {m : OrderedMap κ α}
    {k : κ} {v : α}
    (h : (es.foldl (fun m e => m.set e.1 e.2) m).get k = some v) :
    (k, v) ∈ es ∨ m.get k = some v := by
  induction es generalizing m with
  | nil => exact .inr h
  | cons e es ih =>
      rcases ih h with hmem | hget
      · exact .inl (List.mem_cons_of_mem _ hmem)
      · rw [get_set] at hget
        by_cases hk : e.1 = k
        · rw [if_pos hk] at hget
          injection hget with hv
          rw [← hk, ← hv]
          exact .inl List.mem_cons_self
        · rw [if_neg hk] at hget
          exact .inr hget

/-- What a map finds was put in. -/
theorem mem_of_get_ofList {es : List (κ × α)} {k : κ} {v : α}
    (h : (ofList es).get k = some v) : (k, v) ∈ es := by
  rcases mem_of_get_foldl_set h with hmem | hget
  · exact hmem
  · cases hget

/-- Values that are mapped are got mapped. -/
@[simp]
theorem get_mapValues (f : κ → α → α) (m : OrderedMap κ α) (k : κ) :
    (m.mapValues f).get k = (m.get k).map (f k) :=
  Entries.find_map f k m.entries

/-- A value that is modified, and the rest. -/
theorem get_modify (m : OrderedMap κ α) (k k' : κ) (f : α → α) :
    (m.modify k f).get k'
      = if k = k' then (m.get k').map f else m.get k' := by
  rw [modify, get_mapValues]
  by_cases h : k = k'
  · simp only [if_pos h]
  · simp only [if_neg h, Option.map_id']

/-- To change nothing is to leave it. -/
theorem modify_id (m : OrderedMap κ α) (k : κ) :
    (m.modify k fun v => v) = m := by
  simp [modify, mapValues]

/-- Two changes are one. -/
theorem modify_modify (m : OrderedMap κ α) (k : κ) (f g : α → α) :
    (m.modify k f).modify k g = m.modify k fun v => g (f v) := by
  simp only [modify, mapValues, List.map_map, OrderedMap.mk.injEq]
  refine List.map_congr_left fun e _ => ?_
  by_cases h : k = e.1 <;> simp [h]

/-- The entries are what can be got, -/
@[simp]
theorem mem_entries {m : OrderedMap κ α} {k : κ} {v : α} :
    (k, v) ∈ m.entries ↔ m.get k = some v :=
  ⟨Entries.find_of_mem m.nodup, Entries.mem_of_find⟩

/-- the keys what it is got under, -/
theorem mem_keys {m : OrderedMap κ α} {k : κ} :
    k ∈ m.keys ↔ ∃ v, m.get k = some v := by
  constructor
  · intro h
    obtain ⟨e, he, rfl⟩ := List.mem_map.mp h
    exact ⟨e.2, mem_entries.mp he⟩
  · rintro ⟨v, h⟩
    exact List.mem_map_of_mem (f := Prod.fst) (mem_entries.mpr h)

/-- and the values what is got. -/
theorem mem_values {m : OrderedMap κ α} {v : α} :
    v ∈ m.values ↔ ∃ k, m.get k = some v := by
  constructor
  · intro h
    obtain ⟨e, he, rfl⟩ := List.mem_map.mp h
    exact ⟨e.1, mem_entries.mp he⟩
  · rintro ⟨k, h⟩
    exact List.mem_map_of_mem (f := Prod.snd) (mem_entries.mpr h)

/-- A map in which no two keys share a value lists each value once. -/
theorem nodup_values {m : OrderedMap κ α}
    (h : ∀ k k' v, m.get k = some v → m.get k' = some v → k = k') :
    m.values.Nodup := by
  have hinj : ∀ e ∈ m.entries, ∀ e' ∈ m.entries, e.2 = e'.2 → e = e' := by
    intro e he e' he' hv
    have hk : e.1 = e'.1 :=
      h _ _ _ (mem_entries.mp he) (hv ▸ mem_entries.mp he')
    exact Prod.ext hk hv
  exact List.Nodup.map_on hinj m.nodup.of_map

end OrderedMap

end Lumix
