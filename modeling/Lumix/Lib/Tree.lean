/-
Trees of lists and records, as data formats nest them, up to the order
of the fields.

Two trees are the same when they differ in the order of fields only
(`Same`). Sorting the fields of every record by their keys
(`sorted`) goes to a normal form of that: trees with one sorted form are
the same (`same_of_sorted_eq`). The converse depends on the order the
fields arrive in where the sort leaves a tie. Some keys have a place of
their own in every record, and come first in that order (`ProperKeys`);
the others come as they were put. So the sorted form is one for all
trees that are the same exactly when no record of the tree has two keys
that tie and have no place (`sorted_eq_iff_tieFree`).
-/
import Mathlib.Data.List.Perm.Basic
import Mathlib.Data.List.Nodup
import Mathlib.Data.List.Forall2

namespace Lumix

/-- A tree of leaves, arrays and objects. -/
inductive Tree (α κ : Type _)
  | leaf (a : α)
  | arr (items : List (Tree α κ))
  | obj (fields : List (κ × Tree α κ))

namespace Tree

variable {α κ : Type _}

/-- By the items of a list and the values of a record. -/
@[elab_as_elim, induction_eliminator]
theorem induct {motive : Tree α κ → Prop}
    (leaf : ∀ a, motive (.leaf a))
    (arr : ∀ items, (∀ t ∈ items, motive t) → motive (.arr items))
    (obj : ∀ fields, (∀ f ∈ fields, motive f.2) → motive (.obj fields))
    (t : Tree α κ) : motive t :=
  @Tree.rec α κ motive (fun items => ∀ t ∈ items, motive t)
    (fun fields => ∀ f ∈ fields, motive f.2) (fun f => motive f.2)
    leaf arr obj
    (fun _ h => (List.not_mem_nil h).elim)
    (fun _ _ ht hts => List.forall_mem_cons.mpr ⟨ht, hts⟩)
    (fun _ h => (List.not_mem_nil h).elim)
    (fun _ _ hf hfs => List.forall_mem_cons.mpr ⟨hf, hfs⟩)
    (fun _ _ ht => ht) t

-- ============================================================== parts

mutual

/-- The tree and all the trees inside it. -/
def parts : Tree α κ → List (Tree α κ)
  | .leaf a => [.leaf a]
  | .arr items => .arr items :: partsItems items
  | .obj fields => .obj fields :: partsFields fields

/-- The parts of an array's items. -/
def partsItems : List (Tree α κ) → List (Tree α κ)
  | [] => []
  | t :: items => parts t ++ partsItems items

/-- The parts of an object's fields. -/
def partsFields : List (κ × Tree α κ) → List (Tree α κ)
  | [] => []
  | (_, t) :: fields => parts t ++ partsFields fields

end

/-- The keys of a record. -/
def keys : Tree α κ → List κ
  | .obj fields => fields.map Prod.fst
  | _ => []

/-- They are gathered over the items, -/
theorem partsItems_eq (items : List (Tree α κ)) :
    partsItems items = items.flatMap parts := by
  induction items with
  | nil => rfl
  | cons t items ih => rw [partsItems, ih, List.flatMap_cons]

/-- and over the fields. -/
theorem partsFields_eq (fields : List (κ × Tree α κ)) :
    partsFields fields = fields.flatMap fun f => f.2.parts := by
  induction fields with
  | nil => rfl
  | cons f fields ih => rw [partsFields, ih, List.flatMap_cons]

/-- A part of an array is the array or a part of an item, -/
theorem mem_parts_arr {u : Tree α κ} {items : List (Tree α κ)} :
    u ∈ (arr items).parts ↔ u = .arr items ∨ ∃ t ∈ items, u ∈ t.parts := by
  rw [parts, partsItems_eq, List.mem_cons, List.mem_flatMap]

/-- one of an object the object or a part of a field. -/
theorem mem_parts_obj {u : Tree α κ} {fields : List (κ × Tree α κ)} :
    u ∈ (obj fields).parts
      ↔ u = .obj fields ∨ ∃ f ∈ fields, u ∈ f.2.parts := by
  rw [parts, partsFields_eq, List.mem_cons, List.mem_flatMap]

/-- A tree is a part of itself. -/
theorem mem_parts_self (t : Tree α κ) : t ∈ t.parts := by
  cases t with
  | leaf a => exact List.mem_singleton_self _
  | arr items => exact mem_parts_arr.mpr (.inl rfl)
  | obj fields => exact mem_parts_obj.mpr (.inl rfl)

/-- A property of the keys of every record of a tree. -/
def AllKeys (P : List κ → Prop) (t : Tree α κ) : Prop :=
  ∀ u ∈ t.parts, P u.keys

instance (P : List κ → Prop) [DecidablePred P] (t : Tree α κ) :
    Decidable (t.AllKeys P) :=
  List.decidableBAll (fun u : Tree α κ => P u.keys) t.parts

/-- All keys of an array are its items', -/
theorem allKeys_arr {P : List κ → Prop} {items : List (Tree α κ)} :
    (arr items).AllKeys P ↔ P [] ∧ ∀ t ∈ items, t.AllKeys P := by
  constructor
  · intro h
    exact ⟨h _ (mem_parts_self _),
      fun t ht u hu => h u (mem_parts_arr.mpr (.inr ⟨t, ht, hu⟩))⟩
  · rintro ⟨hnil, hitems⟩ u hu
    rcases mem_parts_arr.mp hu with rfl | ⟨t, ht, hu⟩
    · exact hnil
    · exact hitems t ht u hu

/-- all keys of an object its own and its fields'. -/
theorem allKeys_obj {P : List κ → Prop} {fields : List (κ × Tree α κ)} :
    (obj fields).AllKeys P
      ↔ P (fields.map Prod.fst) ∧ ∀ f ∈ fields, f.2.AllKeys P := by
  constructor
  · intro h
    exact ⟨h _ (mem_parts_self _),
      fun f hf u hu => h u (mem_parts_obj.mpr (.inr ⟨f, hf, hu⟩))⟩
  · rintro ⟨hkeys, hfields⟩ u hu
    rcases mem_parts_obj.mp hu with rfl | ⟨f, hf, hu⟩
    · exact hkeys
    · exact hfields f hf u hu

-- ==================================================== order of fields

/-- The trees differ in the order of fields only. -/
inductive Same : Tree α κ → Tree α κ → Prop
  | leaf (a : α) : Same (.leaf a) (.leaf a)
  | arr {items items' : List (Tree α κ)} :
      List.Forall₂ Same items items' → Same (.arr items) (.arr items')
  | obj {fields fields' fields'' : List (κ × Tree α κ)} :
      fields.Perm fields' →
      fields'.map Prod.fst = fields''.map Prod.fst →
      List.Forall₂ Same (fields'.map Prod.snd) (fields''.map Prod.snd) →
      Same (.obj fields) (.obj fields'')

/-- Lists that a function does not tell apart, entry by entry. -/
theorem forall₂_of_map_eq {β γ : Type _} {f : β → γ} {R : β → β → Prop} :
    ∀ {l l' : List β}, (∀ x ∈ l, ∀ y, f x = f y → R x y) →
      l.map f = l'.map f → List.Forall₂ R l l'
  | [], [], _, _ => .nil
  | [], y :: l', _, h => by cases h
  | x :: l, [], _, h => by cases h
  | x :: l, y :: l', hR, h => by
      rw [List.map_cons, List.map_cons, List.cons.injEq] at h
      exact .cons (hR x List.mem_cons_self y h.1)
        (forall₂_of_map_eq (fun x hx => hR x (List.mem_cons_of_mem _ hx)) h.2)

/-- Lists that are related have equal maps, if their members do. -/
theorem map_eq_of_forall₂ {β γ : Type _} {f : β → γ} {R : β → β → Prop}
    {l l' : List β} (h : List.Forall₂ R l l')
    (hR : ∀ x ∈ l, ∀ y ∈ l', R x y → f x = f y) : l.map f = l'.map f := by
  induction h with
  | nil => rfl
  | cons hxy _ ih =>
      rw [List.map_cons, List.map_cons,
        hR _ List.mem_cons_self _ List.mem_cons_self hxy,
        ih fun x hx y hy =>
          hR x (List.mem_cons_of_mem _ hx) y (List.mem_cons_of_mem _ hy)]

/-- A permutation of images is the image of a permutation. -/
theorem exists_perm_of_map_perm {β γ : Type _} {f g : β → γ}
    {l l' : List β} (h : (l.map f).Perm (l'.map g)) :
    ∃ m, l.Perm m ∧ m.map f = l'.map g := by
  have hcomp : Relation.Comp (List.Forall₂ fun b c => f b = c) List.Perm
      l (l'.map g) :=
    ⟨l.map f, List.forall₂_map_right_iff.mpr
      (List.forall₂_same.mpr fun _ _ => rfl), h⟩
  rw [List.forall₂_comp_perm_eq_perm_comp_forall₂] at hcomp
  obtain ⟨m, hperm, hmap⟩ := hcomp
  have heq : List.Forall₂ (· = ·) (m.map f) (l'.map g) :=
    List.forall₂_map_left_iff.mpr hmap
  rw [List.forall₂_eq_eq_eq] at heq
  exact ⟨m, hperm, heq⟩

/-- A tree is the same as itself. -/
theorem Same.refl (t : Tree α κ) : Same t t := by
  induction t with
  | leaf a => exact .leaf a
  | arr items ih => exact .arr (List.forall₂_same.mpr ih)
  | obj fields ih =>
      refine .obj (.refl _) rfl (List.forall₂_same.mpr fun t ht => ?_)
      obtain ⟨f, hf, rfl⟩ := List.mem_map.mp ht
      exact ih f hf

-- ============================================================ sorting

section Sorting

variable (cmp : κ → κ → Ordering)

/-- One key comes no later than another. -/
def fieldLe {β : Type _} (f g : κ × β) : Bool := (cmp f.1 g.1).isLE

mutual

/-- The fields of every record in the order of their keys. -/
def sorted : Tree α κ → Tree α κ
  | .leaf a => .leaf a
  | .arr items => .arr (sortedItems items)
  | .obj fields => .obj ((sortedFields fields).mergeSort (fieldLe cmp))

/-- The items of an array, sorted inside. -/
def sortedItems : List (Tree α κ) → List (Tree α κ)
  | [] => []
  | t :: items => sorted t :: sortedItems items

/-- The fields of an object, sorted inside. -/
def sortedFields : List (κ × Tree α κ) → List (κ × Tree α κ)
  | [] => []
  | (k, t) :: fields => (k, sorted t) :: sortedFields fields

end

/-- A field with its value sorted. -/
def sortedField (f : κ × Tree α κ) : κ × Tree α κ := (f.1, f.2.sorted cmp)

/-- A map over the items, -/
theorem sortedItems_eq (items : List (Tree α κ)) :
    sortedItems cmp items = items.map (sorted cmp) := by
  induction items with
  | nil => rfl
  | cons t items ih => rw [sortedItems, ih, List.map_cons]

/-- and over the fields. -/
theorem sortedFields_eq (fields : List (κ × Tree α κ)) :
    sortedFields cmp fields = fields.map (sortedField cmp) := by
  induction fields with
  | nil => rfl
  | cons f fields ih => rw [sortedFields, ih, List.map_cons, sortedField]

/-- An array keeps its order, -/
theorem sorted_arr (items : List (Tree α κ)) :
    sorted cmp (.arr items) = .arr (items.map (sorted cmp)) := by
  rw [sorted, sortedItems_eq]

/-- an object gets its keys'. -/
theorem sorted_obj (fields : List (κ × Tree α κ)) :
    sorted cmp (.obj fields)
      = .obj ((fields.map (sortedField cmp)).mergeSort (fieldLe cmp)) := by
  rw [sorted, sortedFields_eq]

/-- Sorting inside keeps the keys. -/
theorem map_fst_sortedField (fields : List (κ × Tree α κ)) :
    (fields.map (sortedField cmp)).map Prod.fst = fields.map Prod.fst := by
  rw [List.map_map]
  rfl

/-- The sort looks at the keys only. -/
theorem sort_map {β γ : Type _} {g : κ × β → κ × γ}
    (hg : ∀ f, (g f).1 = f.1) (fields : List (κ × β)) :
    (fields.map g).mergeSort (fieldLe cmp)
      = (fields.mergeSort (fieldLe cmp)).map g := by
  refine (List.map_mergeSort fun f _ f' _ => ?_).symm
  rw [fieldLe, fieldLe, hg, hg]

/-- The sorted form keeps the tree, up to the order of fields. -/
theorem same_of_sorted_eq {t u : Tree α κ}
    (h : t.sorted cmp = u.sorted cmp) : Same t u := by
  induction t generalizing u with
  | leaf a =>
      cases u with
      | leaf b =>
          cases h
          exact .leaf a
      | arr items => rw [sorted_arr] at h; cases h
      | obj fields => rw [sorted_obj] at h; cases h
  | arr items ih =>
      cases u with
      | leaf b => rw [sorted_arr] at h; cases h
      | arr items' =>
          rw [sorted_arr, sorted_arr, arr.injEq] at h
          exact .arr (forall₂_of_map_eq (fun t ht u => ih t ht) h)
      | obj fields => rw [sorted_arr, sorted_obj] at h; cases h
  | obj fields ih =>
      cases u with
      | leaf b => rw [sorted_obj] at h; cases h
      | arr items => rw [sorted_obj, sorted_arr] at h; cases h
      | obj fields' =>
          rw [sorted_obj, sorted_obj, obj.injEq] at h
          have hperm : (fields.map (sortedField cmp)).Perm
              (fields'.map (sortedField cmp)) :=
            (List.mergeSort_perm _ (fieldLe cmp)).symm.trans
              (by rw [h]; exact List.mergeSort_perm _ _)
          obtain ⟨m, hm, hmap⟩ := exists_perm_of_map_perm hperm
          have hkeys := congrArg (List.map Prod.fst) hmap
          have hvalues := congrArg (List.map Prod.snd) hmap
          rw [map_fst_sortedField, map_fst_sortedField] at hkeys
          rw [List.map_map, List.map_map] at hvalues
          refine .obj hm hkeys (forall₂_of_map_eq (f := sorted cmp) ?_ ?_)
          · intro t ht u htu
            obtain ⟨f, hf, rfl⟩ := List.mem_map.mp ht
            exact ih f (hm.mem_iff.mpr hf) htu
          · rw [List.map_map, List.map_map]
            exact hvalues

end Sorting

-- ============================================================== pairs

/-- Two entries of a list come in one order or the other. -/
theorem pair_sublist_or {β : Type _} {x y : β} {l : List β} (hx : x ∈ l)
    (hy : y ∈ l) (hne : x ≠ y) :
    List.Sublist [x, y] l ∨ List.Sublist [y, x] l := by
  induction l with
  | nil => cases hx
  | cons z l ih =>
      rcases List.mem_cons.mp hx with rfl | hxl
      · have hyl : y ∈ l := List.mem_of_ne_of_mem hne.symm hy
        exact .inl ((List.singleton_sublist.mpr hyl).cons_cons x)
      rcases List.mem_cons.mp hy with rfl | hyl
      · exact .inr ((List.singleton_sublist.mpr hxl).cons_cons y)
      rcases ih hxl hyl with h | h
      · exact .inl (h.cons z)
      · exact .inr (h.cons z)

/-- In a list without repetition they come in one order only. -/
theorem not_pair_sublist {β : Type _} {x y : β} {l : List β}
    (hnodup : l.Nodup) (hxy : List.Sublist [x, y] l) :
    ¬ List.Sublist [y, x] l := by
  induction l with
  | nil => cases hxy
  | cons z l ih =>
      intro hyx
      obtain ⟨hz, hl⟩ := List.nodup_cons.mp hnodup
      cases hxy with
      | cons _ hxy =>
          cases hyx with
          | cons _ hyx => exact ih hl hxy hyx
          | cons_cons _ hyx =>
              exact hz (hxy.subset (List.mem_cons_of_mem _
                List.mem_cons_self))
      | cons_cons _ hxy =>
          cases hyx with
          | cons _ hyx =>
              exact hz (hyx.subset (List.mem_cons_of_mem _
                List.mem_cons_self))
          | cons_cons _ hyx => exact hz (List.singleton_sublist.mp hxy)

/-- Lists of pairs with the same two sides. -/
theorem pairs_ext {β γ : Type _} {l l' : List (β × γ)}
    (hfst : l.map Prod.fst = l'.map Prod.fst)
    (hsnd : l.map Prod.snd = l'.map Prod.snd) : l = l' := by
  rw [← List.zip_unzip l, ← List.zip_unzip l', List.unzip_eq_map,
    List.unzip_eq_map, hfst, hsnd]

-- =============================================================== ties

/-- Keys with a place come in its order, and before the others. -/
def Before (place : κ → Option ℕ) (k l : κ) : Prop :=
  match place k, place l with
  | some i, some j => i < j
  | some _, none => True
  | none, _ => False

instance (place : κ → Option ℕ) (k l : κ) :
    Decidable (Before place k l) :=
  match h : place k, h' : place l with
  | some i, some j => decidable_of_iff (i < j) (by simp [Before, h, h'])
  | some _, none => .isTrue (by simp [Before, h, h'])
  | none, _ => .isFalse (by simp [Before, h])

/-- The keys of a record, in the order it lists them. -/
structure ProperKeys (place : κ → Option ℕ) (keys : List κ) : Prop where
  nodup : keys.Nodup
  ordered : keys.Pairwise fun k l => ¬ Before place l k

instance [DecidableEq κ] (place : κ → Option ℕ) :
    DecidablePred (ProperKeys place) := fun keys =>
  decidable_of_iff
    (keys.Nodup ∧ keys.Pairwise fun k l => ¬ Before place l k)
    ⟨fun h => ⟨h.1, h.2⟩, fun h => ⟨h.nodup, h.ordered⟩⟩

/-- No two keys without a place tie. -/
def TieFree (place : κ → Option ℕ) (cmp : κ → κ → Ordering)
    (keys : List κ) : Prop :=
  ∀ k ∈ keys, ∀ l ∈ keys, cmp k l = .eq →
    k = l ∨ (place k).isSome ∨ (place l).isSome

instance [DecidableEq κ] (place : κ → Option ℕ)
    (cmp : κ → κ → Ordering) : DecidablePred (TieFree place cmp) :=
  fun keys => List.decidableBAll
    (fun k => ∀ l ∈ keys, cmp k l = .eq →
      k = l ∨ (place k).isSome ∨ (place l).isSome) keys

theorem tieFree_nil (place : κ → Option ℕ) (cmp : κ → κ → Ordering) :
    TieFree place cmp [] := fun _ h => (List.not_mem_nil h).elim

section Ties

variable {place : κ → Option ℕ} {cmp : κ → κ → Ordering}

/-- One key is before another, or after it. -/
theorem Before.asymm {k l : κ} (h : Before place k l) :
    ¬ Before place l k := by
  unfold Before at *
  cases hk : place k with
  | none => simp [hk] at h
  | some i =>
      cases hl : place l with
      | none => simp
      | some j =>
          simp only [hk, hl] at h ⊢
          omega

/-- Of two keys, one with a place, one comes before the other. -/
theorem before_or (hplace : ∀ k l i, place k = some i →
      place l = some i → k = l) {k l : κ} (hne : k ≠ l)
    (h : (place k).isSome ∨ (place l).isSome) :
    Before place k l ∨ Before place l k := by
  unfold Before
  cases hk : place k with
  | none =>
      cases hl : place l with
      | none => simp [hk, hl] at h
      | some j => exact .inr trivial
  | some i =>
      cases hl : place l with
      | none => exact .inl trivial
      | some j =>
          have hij : i ≠ j := fun heq =>
            hne (hplace k l i hk (heq ▸ hl))
          exact Nat.lt_or_gt_of_ne hij

variable {β : Type _}

/-- The keys without a place the other way round. -/
def turned (place : κ → Option ℕ) (fields : List (κ × β)) :
    List (κ × β) :=
  fields.filter (fun f => (place f.1).isSome)
    ++ (fields.filter fun f => !(place f.1).isSome).reverse

/-- Turning permutes. -/
theorem turned_perm (place : κ → Option ℕ) (fields : List (κ × β)) :
    fields.Perm (turned place fields) :=
  ((List.filter_append_perm _ fields).symm).trans
    ((List.reverse_perm _).symm.append_left _)

/-- A key without a place is before none. -/
theorem not_before_of_none {k l : κ} (h : place k = none) :
    ¬ Before place k l := by
  unfold Before
  rw [h]
  exact id

/-- What is turned has no place. -/
theorem place_of_mem_turned {fields : List (κ × β)} {k : κ}
    (h : k ∈ (fields.filter fun f =>
      !(place f.1).isSome).reverse.map Prod.fst) : place k = none := by
  obtain ⟨f, hf, rfl⟩ := List.mem_map.mp h
  have hnone := (List.mem_filter.mp (List.mem_reverse.mp hf)).2
  simpa using hnone

/-- Only keys with a place have to come where they are. -/
theorem turned_proper {fields : List (κ × β)}
    (h : ProperKeys place (fields.map Prod.fst)) :
    ProperKeys place ((turned place fields).map Prod.fst) := by
  have hperm := (turned_perm place fields).map Prod.fst
  refine ⟨hperm.nodup_iff.mp h.nodup, ?_⟩
  rw [turned, List.map_append, List.pairwise_append]
  refine ⟨h.ordered.sublist (List.filter_sublist.map _), ?_, ?_⟩
  · exact List.pairwise_of_forall_mem_list fun k _ l hl =>
      not_before_of_none (place_of_mem_turned hl)
  · exact fun k _ l hl => not_before_of_none (place_of_mem_turned hl)

/-- Turning and sorting inside. -/
theorem turned_map (fields : List (κ × Tree α κ)) :
    (turned place fields).map (sortedField cmp)
      = turned place (fields.map (sortedField cmp)) := by
  rw [turned, turned, List.map_append, List.map_reverse, List.filter_map,
    List.filter_map]
  rfl

/-- A sorted record has the values of the record, key by key. -/
theorem value_of_sort_eq {l m : List (κ × β)}
    (hkeys : (l.map Prod.fst).Nodup)
    (h : l.mergeSort (fieldLe cmp) = m.mergeSort (fieldLe cmp)) {k : κ}
    {x y : β} (hx : (k, x) ∈ l) (hy : (k, y) ∈ m) : x = y := by
  have hsort : (k, y) ∈ l.mergeSort (fieldLe cmp) := by
    rw [h]
    exact (List.mergeSort_perm m _).mem_iff.mpr hy
  have hyl := (List.mergeSort_perm l _).mem_iff.mp hsort
  exact congrArg Prod.snd (List.inj_on_of_nodup_map hkeys hx hyl rfl)

variable [Std.TransCmp cmp]

theorem cmp_swap (cmp : κ → κ → Ordering) [Std.OrientedCmp cmp] (k l : κ) :
    cmp l k = (cmp k l).swap := Std.OrientedCmp.eq_swap

/-- Fields are in the order of their keys, -/
theorem fieldLe_trans (f g h : κ × β) (hfg : fieldLe cmp f g)
    (hgh : fieldLe cmp g h) : fieldLe cmp f h :=
  Std.TransCmp.isLE_trans hfg hgh

/-- any two of them. -/
theorem fieldLe_total (f g : κ × β) :
    fieldLe cmp f g || fieldLe cmp g f := by
  unfold fieldLe
  rw [cmp_swap cmp f.1 g.1]
  cases cmp f.1 g.1 <;> rfl

/-- Fields that tie keep their order. -/
theorem pair_sublist_sort {f g : κ × β} {l : List (κ × β)}
    (htie : cmp f.1 g.1 = .eq) (h : List.Sublist [f, g] l) :
    List.Sublist [f, g] (l.mergeSort (fieldLe cmp)) :=
  List.pair_sublist_mergeSort fieldLe_trans fieldLe_total
    (by rw [fieldLe, htie]; rfl) h

/-- The order of the sorted fields when no two keys tie. -/
def Earlier (place : κ → Option ℕ) (cmp : κ → κ → Ordering)
    (f g : κ × β) : Prop :=
  cmp f.1 g.1 = .lt ∨ (cmp f.1 g.1 = .eq ∧ Before place f.1 g.1)

/-- One field is earlier than another, or later. -/
theorem Earlier.asymm {f g : κ × β} (h : Earlier place cmp f g) :
    ¬ Earlier place cmp g f := by
  unfold Earlier at *
  rw [cmp_swap cmp f.1 g.1]
  rcases h with h | ⟨h, hbefore⟩
  · simp [h]
  · simp [h, hbefore.asymm]

/-- Fields under different keys are different. -/
theorem nodup_of_keys {l : List (κ × β)} (h : (l.map Prod.fst).Nodup) :
    l.Nodup := h.of_map _

/-- Sorted fields stand in their order, if no two keys tie. -/
theorem sort_pairwise (hplace : ∀ k l i, place k = some i →
      place l = some i → k = l) {l : List (κ × β)}
    (hl : ProperKeys place (l.map Prod.fst))
    (hfree : TieFree place cmp (l.map Prod.fst)) :
    (l.mergeSort (fieldLe cmp)).Pairwise (Earlier place cmp) := by
  have hperm := List.mergeSort_perm l (fieldLe cmp)
  have hnodup := (hperm.map Prod.fst).nodup_iff.mpr hl.nodup
  rw [List.pairwise_iff_forall_sublist]
  intro f g hfg
  have hle : fieldLe cmp f g := List.pairwise_iff_forall_sublist.mp
    (List.pairwise_mergeSort fieldLe_trans fieldLe_total l) hfg
  rcases Ordering.isLE_iff_eq_lt_or_eq_eq.mp hle with hlt | htie
  · exact .inl hlt
  have hne : f.1 ≠ g.1 :=
    hnodup.forall_sublist (hfg.map Prod.fst)
  have hf : f ∈ l := hperm.mem_iff.mp (hfg.subset List.mem_cons_self)
  have hg : g ∈ l := hperm.mem_iff.mp
    (hfg.subset (List.mem_cons_of_mem _ List.mem_cons_self))
  have hsome := (hfree f.1 (List.mem_map_of_mem hf) g.1
    (List.mem_map_of_mem hg) htie).resolve_left hne
  refine .inr ⟨htie, (before_or hplace hne hsome).resolve_right ?_⟩
  intro hback
  -- the later of two fields that tie would have been listed first
  rcases pair_sublist_or hf hg (fun h => hne (congrArg Prod.fst h))
    with hpair | hpair
  · exact List.pairwise_iff_forall_sublist.mp hl.ordered
      (hpair.map Prod.fst) hback
  · have htie' : cmp g.1 f.1 = .eq := by
      rw [cmp_swap cmp f.1 g.1, htie]
      rfl
    exact not_pair_sublist (nodup_of_keys hnodup) hfg
      (pair_sublist_sort htie' hpair)

/-- Without ties the sort forgets the order the fields came in. -/
theorem sort_eq_of_perm (hplace : ∀ k l i, place k = some i →
      place l = some i → k = l) {l m : List (κ × β)}
    (hl : ProperKeys place (l.map Prod.fst))
    (hm : ProperKeys place (m.map Prod.fst))
    (hfree : TieFree place cmp (l.map Prod.fst)) (hperm : l.Perm m) :
    l.mergeSort (fieldLe cmp) = m.mergeSort (fieldLe cmp) := by
  have hkeys := hperm.map Prod.fst
  have hfree' : TieFree place cmp (m.map Prod.fst) := fun k hk k' hk' =>
    hfree k (hkeys.mem_iff.mpr hk) k' (hkeys.mem_iff.mpr hk')
  refine List.Perm.eq_of_pairwise
    (fun f g _ _ (hfg : Earlier place cmp f g) hgf =>
      (hfg.asymm hgf).elim)
    (sort_pairwise hplace hl hfree) (sort_pairwise hplace hm hfree') ?_
  exact ((List.mergeSort_perm _ _).trans hperm).trans
    (List.mergeSort_perm _ _).symm

-- ==================================================== one sorted form

/-- Trees that are the same have one sorted form, without ties. -/
theorem sorted_eq_of_same (hplace : ∀ k l i, place k = some i →
      place l = some i → k = l) {t u : Tree α κ} (h : Same t u)
    (ht : t.AllKeys (ProperKeys place)) (hu : u.AllKeys (ProperKeys place))
    (hfree : t.AllKeys (TieFree place cmp)) :
    t.sorted cmp = u.sorted cmp := by
  induction t generalizing u with
  | leaf a =>
      cases h
      rfl
  | arr items ih =>
      cases h with
      | arr hitems =>
          rw [sorted_arr, sorted_arr]
          refine congrArg arr (map_eq_of_forall₂ hitems ?_)
          intro t hti u hui htu
          exact ih t hti htu ((allKeys_arr.mp ht).2 t hti)
            ((allKeys_arr.mp hu).2 u hui) ((allKeys_arr.mp hfree).2 t hti)
  | obj fields ih =>
      cases h with
      | @obj _ fields' fields'' hperm hkeys hvalues =>
          obtain ⟨htkeys, htvalues⟩ := allKeys_obj.mp ht
          obtain ⟨hukeys, huvalues⟩ := allKeys_obj.mp hu
          obtain ⟨hfkeys, hfvalues⟩ := allKeys_obj.mp hfree
          have hsorted : (fields'.map Prod.snd).map (sorted cmp)
              = (fields''.map Prod.snd).map (sorted cmp) := by
            refine map_eq_of_forall₂ hvalues ?_
            intro t hti u hui htu
            obtain ⟨f, hf, rfl⟩ := List.mem_map.mp hti
            obtain ⟨g, hg, rfl⟩ := List.mem_map.mp hui
            have hf := hperm.mem_iff.mpr hf
            exact ih f hf htu (htvalues f hf) (huvalues g hg)
              (hfvalues f hf)
          have hfields : fields'.map (sortedField cmp)
              = fields''.map (sortedField cmp) := by
            apply pairs_ext
            · rw [map_fst_sortedField, map_fst_sortedField, hkeys]
            · rw [List.map_map, List.map_map] at hsorted ⊢
              exact hsorted
          rw [sorted_obj, sorted_obj, ← hfields]
          refine congrArg obj (sort_eq_of_perm hplace ?_ ?_ ?_
            (hperm.map _))
          · rw [map_fst_sortedField]
            exact htkeys
          · rw [map_fst_sortedField, hkeys]
            exact hukeys
          · rw [map_fst_sortedField]
            exact hfkeys

/-- Two fields that tie change places. -/
theorem sort_turned_ne {f g : κ × β} {fields : List (κ × β)}
    (hkeys : (fields.map Prod.fst).Nodup)
    (hpair : List.Sublist [f, g] fields) (htie : cmp f.1 g.1 = .eq)
    (hf : place f.1 = none) (hg : place g.1 = none) :
    fields.mergeSort (fieldLe cmp)
      ≠ (turned place fields).mergeSort (fieldLe cmp) := by
  intro h
  have hlast : List.Sublist [f, g]
      (fields.filter fun f => !(place f.1).isSome) := by
    have hfilter := hpair.filter fun f : κ × β => !(place f.1).isSome
    simpa [hf, hg] using hfilter
  have hturned : List.Sublist [g, f] (turned place fields) :=
    hlast.reverse.trans (List.sublist_append_right _ _)
  have htie' : cmp g.1 f.1 = .eq := by
    rw [cmp_swap cmp f.1 g.1, htie]
    rfl
  have hback := pair_sublist_sort htie' hturned
  rw [← h] at hback
  have hnodup := (List.mergeSort_perm fields (fieldLe cmp)).nodup_iff.mpr
    (nodup_of_keys hkeys)
  exact not_pair_sublist hnodup (pair_sublist_sort htie hpair) hback

/-- The fields of a record with a tie have another order, which sorts
otherwise. -/
theorem exists_order {fields : List (κ × β)}
    (h : ProperKeys place (fields.map Prod.fst))
    (hties : ¬ TieFree place cmp (fields.map Prod.fst)) :
    fields.mergeSort (fieldLe cmp)
      ≠ (turned place fields).mergeSort (fieldLe cmp) := by
  unfold TieFree at hties
  push Not at hties
  obtain ⟨k, hk, l, hl, htie, hne, hnk, hnl⟩ := hties
  obtain ⟨f, hf, rfl⟩ := List.mem_map.mp hk
  obtain ⟨g, hg, rfl⟩ := List.mem_map.mp hl
  have hnf : place f.1 = none := by simpa using hnk
  have hng : place g.1 = none := by simpa using hnl
  rcases pair_sublist_or hf hg (fun h => hne (congrArg Prod.fst h))
    with hpair | hpair
  · exact sort_turned_ne h.nodup hpair htie hnf hng
  · have htie' : cmp g.1 f.1 = .eq := by
      rw [cmp_swap cmp f.1 g.1, htie]
      rfl
    exact sort_turned_ne h.nodup hpair htie' hng hnf

/-- One item put in the place of another that is the same. -/
theorem forall₂_replace {t u : Tree α κ} (h : Same t u)
    (xs ys : List (Tree α κ)) :
    List.Forall₂ Same (xs ++ t :: ys) (xs ++ u :: ys) :=
  List.rel_append (List.forall₂_same.mpr fun x _ => Same.refl x)
    (.cons h (List.forall₂_same.mpr fun y _ => Same.refl y))

/-- One element put in the place of another. -/
theorem forall_mem_replace {ι : Type*} {p : ι → Prop} {a b : ι}
    {xs ys : List ι} (h : ∀ c ∈ xs ++ a :: ys, p c) (hb : p b) :
    ∀ c ∈ xs ++ b :: ys, p c := by
  simp only [List.forall_mem_append, List.forall_mem_cons] at h ⊢
  exact ⟨h.1, hb, h.2.2⟩

/-- The order of a record without ties shows in no other place. -/
theorem exists_same_sorted_ne {t : Tree α κ}
    (ht : t.AllKeys (ProperKeys place))
    (hties : ¬ t.AllKeys (TieFree place cmp)) :
    ∃ u, u.AllKeys (ProperKeys place) ∧ Same t u
      ∧ t.sorted cmp ≠ u.sorted cmp := by
  induction t with
  | leaf a =>
      refine (hties fun u hu => ?_).elim
      obtain rfl := List.mem_singleton.mp hu
      exact tieFree_nil place cmp
  | arr items ih =>
      rw [allKeys_arr] at ht hties
      simp only [tieFree_nil, true_and] at hties
      push Not at hties
      obtain ⟨t, hti, htied⟩ := hties
      obtain ⟨u, hu, hsame, hne⟩ := ih t hti (ht.2 t hti) htied
      obtain ⟨xs, ys, rfl⟩ := List.append_of_mem hti
      refine ⟨.arr (xs ++ u :: ys),
        allKeys_arr.mpr ⟨ht.1, forall_mem_replace ht.2 hu⟩,
        .arr (forall₂_replace hsame xs ys), ?_⟩
      intro h
      rw [sorted_arr, sorted_arr, arr.injEq, List.map_append,
        List.map_append, List.map_cons, List.map_cons] at h
      exact hne (List.cons.inj (List.append_cancel_left h)).1
  | obj fields ih =>
      have hproper := allKeys_obj.mp ht
      by_cases hown : TieFree place cmp (fields.map Prod.fst)
      · -- the tie is inside the value of a field
        rw [allKeys_obj] at hties
        simp only [hown, true_and] at hties
        push Not at hties
        obtain ⟨⟨k, t⟩, hti, htied⟩ := hties
        obtain ⟨u, hu, hsame, hne⟩ :=
          ih (k, t) hti (hproper.2 (k, t) hti) htied
        obtain ⟨xs, ys, rfl⟩ := List.append_of_mem hti
        have hkeys : (xs ++ (k, t) :: ys).map Prod.fst
            = (xs ++ (k, u) :: ys).map Prod.fst := by simp
        refine ⟨.obj (xs ++ (k, u) :: ys), allKeys_obj.mpr
          ⟨hkeys ▸ hproper.1, forall_mem_replace hproper.2 hu⟩,
          .obj (.refl _) hkeys ?_, ?_⟩
        · rw [List.map_append, List.map_append, List.map_cons,
            List.map_cons]
          exact forall₂_replace hsame _ _
        · intro h
          rw [sorted_obj, sorted_obj, obj.injEq] at h
          have hnodup := hproper.1.nodup
          rw [← map_fst_sortedField cmp] at hnodup
          have hmem : ∀ v : Tree α κ, sortedField cmp (k, v)
              ∈ (xs ++ (k, v) :: ys).map (sortedField cmp) := fun v =>
            List.mem_map_of_mem
              (List.mem_append_right _ List.mem_cons_self)
          exact hne (value_of_sort_eq hnodup h (hmem t) (hmem u))
      · -- the keys of the record itself tie
        have horder := turned_proper hproper.1
        refine ⟨.obj (turned place fields), allKeys_obj.mpr ⟨horder, ?_⟩,
          .obj (turned_perm place fields) rfl
            (List.forall₂_same.mpr fun t _ => Same.refl t), ?_⟩
        · intro f hf
          exact hproper.2 f ((turned_perm place fields).mem_iff.mpr hf)
        · intro h
          rw [sorted_obj, sorted_obj, obj.injEq, turned_map] at h
          refine exists_order ?_ ?_ h
          · rw [map_fst_sortedField]
            exact hproper.1
          · rw [map_fst_sortedField]
            exact hown

/-- The sorted form of a tree is one for all that are the same exactly
when no record of the tree has a tie. -/
theorem sorted_eq_iff_tieFree (hplace : ∀ k l i, place k = some i →
      place l = some i → k = l) {t : Tree α κ}
    (ht : t.AllKeys (ProperKeys place)) :
    (∀ u : Tree α κ, u.AllKeys (ProperKeys place) → Same t u →
        t.sorted cmp = u.sorted cmp)
      ↔ t.AllKeys (TieFree place cmp) := by
  constructor
  · intro h
    by_contra hties
    obtain ⟨u, hu, hsame, hne⟩ := exists_same_sorted_ne ht hties
    exact hne (h u hu hsame)
  · intro hfree u hu hsame
    exact sorted_eq_of_same hplace hsame ht hu hfree

end Ties

end Tree

end Lumix
