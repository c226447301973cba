/-
The hash a committee signs.

`computeBatchHash` sorts the rows of a batch by the text of all their
fields, joined with NUL characters, and hashes the JSON of the batch id
and the sorted rows. The JSON binds all of it (`canonical_inj`), so what
the hash says of a batch is a matter of the sort. The joined text is no
total order: two rows whose fields share a text tie, and the sort leaves
them in the order they came in. `batchHash_canonical` is the exact
account: the hash is one for every order of the matches exactly when no
two different rows tie, which is so when no field has a NUL.
-/
import Mathlib.Data.List.Permutation
import Lumix.Committee.State
import Lumix.Basic.Word
import Lumix.Lib.Json
import Lumix.Lib.StableSort

namespace Lumix.Committee

open Text StableSort

-- =============================================================== rows

/-- A match, with the optional columns of a crossing of two assets. -/
structure BatchMatch extends MatchResult where
  priceScaled : Option String
  assetIn : Option String
  assetOut : Option String
deriving DecidableEq

/-- A match of one asset pair, as the committee's rounds make them. -/
def MatchResult.batchMatch (m : MatchResult) : BatchMatch :=
  { m with priceScaled := none, assetIn := none, assetOut := none }

/-- A row of the signed content. `inn` is the source's `in`, a keyword
here. -/
structure HashedRow where
  a : String
  b : String
  amt : String
  inn : String
  out : String
  price : String
  assetIn : String
  assetOut : String
deriving DecidableEq

/-- The row a match is hashed as; absent fields are empty. -/
def BatchMatch.row (m : BatchMatch) : HashedRow where
  a := m.intentAId
  b := m.intentBId
  amt := m.matchedAmount7dp
  inn := m.inputAsset
  out := m.outputAsset
  price := m.priceScaled.getD ""
  assetIn := m.assetIn.getD ""
  assetOut := m.assetOut.getD ""

/-- Its fields, in the order of the key. -/
def HashedRow.fields (r : HashedRow) : List String :=
  [r.a, r.b, r.amt, r.inn, r.out, r.price, r.assetIn, r.assetOut]

/-- What separates them in the key. -/
def nul : Char := '\x00'

/-- The sort key: the fields with a NUL between any two. -/
def HashedRow.key (r : HashedRow) : String :=
  String.ofList ([nul].intercalate (r.fields.map String.toList))

/-- `kx < ky ? -1 : kx > ky ? 1 : 0` -/
def rowLe (x y : HashedRow) : Bool :=
  unitsLe (utf16 x.key) (utf16 y.key)

/-- The row as the object that is hashed. -/
def HashedRow.json (r : HashedRow) : Json.Value :=
  .obj [("a", .str r.a), ("b", .str r.b), ("amt", .str r.amt),
    ("in", .str r.inn), ("out", .str r.out), ("price", .str r.price),
    ("assetIn", .str r.assetIn), ("assetOut", .str r.assetOut)]

/-- The text that is hashed. -/
def canonical (batchId : String) (matchResults : List BatchMatch) :
    String :=
  Json.stringify (.obj [("batchId", .str batchId),
    ("matches", .arr (((matchResults.map BatchMatch.row).mergeSort
      rowLe).map HashedRow.json))])

/-- `sha256` of the canonical text, in hexadecimal. -/
def computeBatchHash (sha256 : Bytes → Word) (batchId : String)
    (matchResults : List BatchMatch) : String :=
  bytesHex (sha256 (utf8 (canonical batchId matchResults))).toBytes

-- =========================================================== the sort

/-- Rows are in the order of their keys. -/
theorem rowLe_trans (x y z : HashedRow) (h : rowLe x y = true)
    (h' : rowLe y z = true) : rowLe x z = true :=
  unitsLe_trans h h'

/-- Any two are. -/
theorem rowLe_total (x y : HashedRow) : (rowLe x y || rowLe y x) = true := by
  rw [Bool.or_eq_true]
  exact unitsLe_total ..

/-- Rows tie when they have one key. -/
theorem key_eq_iff {x y : HashedRow} :
    x.key = y.key ↔ rowLe x y = true ∧ rowLe y x = true := by
  constructor
  · intro h
    unfold rowLe
    rw [h]
    have hself := unitsLe_total (utf16 y.key) (utf16 y.key)
    exact ⟨hself.elim id id, hself.elim id id⟩
  · rintro ⟨hxy, hyx⟩
    exact utf16_inj (unitsLe_antisymm hxy hyx)

/-- No two different rows of the batch have one key. -/
def KeysDistinct (matchResults : List BatchMatch) : Prop :=
  ∀ x ∈ matchResults, ∀ y ∈ matchResults, x.row.key = y.row.key →
    x.row = y.row

instance : DecidablePred KeysDistinct := fun l =>
  inferInstanceAs (Decidable (∀ x ∈ l, ∀ y ∈ l,
    x.row.key = y.row.key → x.row = y.row))

/-- Different keys are keys that do not tie. -/
theorem keysDistinct_iff_untied {l : List BatchMatch} :
    KeysDistinct l ↔ Untied rowLe (l.map BatchMatch.row) := by
  unfold KeysDistinct Untied
  simp only [List.forall_mem_map, key_eq_iff, and_imp]

-- ========================================================= the fields

/-- A field has no NUL. -/
def NulFree (s : String) : Prop := nul ∉ s.toList

instance : DecidablePred NulFree := fun s =>
  inferInstanceAs (Decidable (nul ∉ s.toList))

/-- What is before the first separator, and what is after it. -/
theorem append_cons_inj {c : Char} {s t l r : List Char} (hs : c ∉ s)
    (ht : c ∉ t) (h : s ++ c :: l = t ++ c :: r) : s = t ∧ l = r := by
  induction s generalizing t with
  | nil =>
      cases t with
      | nil => exact ⟨rfl, (List.cons.inj h).2⟩
      | cons d t =>
          obtain ⟨rfl, -⟩ := List.cons.inj h
          exact absurd List.mem_cons_self ht
  | cons d s ih =>
      obtain ⟨hd, hs⟩ := not_or.mp (List.mem_cons.not.mp hs)
      cases t with
      | nil => exact absurd (List.cons.inj h).1.symm hd
      | cons e t =>
          have ht' : c ∉ t := fun h => ht (List.mem_cons_of_mem _ h)
          obtain ⟨rfl, htail⟩ := List.cons.inj h
          obtain ⟨rfl, hrest⟩ := ih hs ht' htail
          exact ⟨rfl, hrest⟩

/-- Texts without the separator, joined, are untied apart. -/
theorem intercalate_inj {c : Char} {l r : List (List Char)}
    (hlen : l.length = r.length) (hl : ∀ s ∈ l, c ∉ s)
    (hr : ∀ s ∈ r, c ∉ s) (h : [c].intercalate l = [c].intercalate r) :
    l = r := by
  induction l generalizing r with
  | nil => exact (List.length_eq_zero_iff.mp hlen.symm).symm
  | cons s l ih =>
      cases r with
      | nil => cases hlen
      | cons t r =>
          have hlen' : l.length = r.length := Nat.succ.inj hlen
          obtain ⟨hs, hl'⟩ := List.forall_mem_cons.mp hl
          obtain ⟨ht, hr'⟩ := List.forall_mem_cons.mp hr
          cases l with
          | nil =>
              cases r with
              | nil =>
                  simp only [List.intercalate_singleton] at h
                  rw [h]
              | cons u r => cases hlen'
          | cons u l =>
              cases r with
              | nil => cases hlen'
              | cons v r =>
                  rw [List.intercalate_cons_cons,
                    List.intercalate_cons_cons, List.append_assoc,
                    List.append_assoc] at h
                  obtain ⟨rfl, htail⟩ := append_cons_inj hs ht h
                  rw [ih hlen' hl' hr' htail]

/-- Without the separator in its fields a row has a key of its own. -/
theorem key_inj {x y : HashedRow} (hx : ∀ s ∈ x.fields, NulFree s)
    (hy : ∀ s ∈ y.fields, NulFree s) (h : x.key = y.key) : x = y := by
  have hjoined := String.ofList_injective h
  have hfields := intercalate_inj (by rfl)
    (List.forall_mem_map.mpr hx) (List.forall_mem_map.mpr hy) hjoined
  have hsame : x.fields = y.fields :=
    List.map_injective_iff.mpr (fun _ _ => String.toList_injective)
      hfields
  obtain ⟨a, b, amt, inn, out, price, assetIn, assetOut⟩ := x
  obtain ⟨a', b', amt', inn', out', price', assetIn', assetOut'⟩ := y
  simp only [HashedRow.fields, List.cons.injEq, and_true] at hsame
  simp only [HashedRow.mk.injEq]
  exact hsame

/-- Where no field has a NUL, no two rows tie. -/
theorem keysDistinct_of_nulFree {l : List BatchMatch}
    (h : ∀ m ∈ l, ∀ s ∈ m.row.fields, NulFree s) : KeysDistinct l :=
  fun x hx y hy => key_inj (h x hx) (h y hy)

/-- A pair of matches that ties: the NUL moves. -/
def tied : List BatchMatch :=
  [(MatchResult.mk "x\x00y" "z" "1" "X" "Y").batchMatch,
    (MatchResult.mk "x" "y\x00z" "1" "X" "Y").batchMatch]

/-- With it two may share one. -/
theorem not_keysDistinct_tied : ¬KeysDistinct tied := by
  decide

-- =========================================================== the text

/-- A row's object is its own. -/
theorem json_inj {x y : HashedRow} (h : x.json = y.json) : x = y := by
  obtain ⟨a, b, amt, inn, out, price, assetIn, assetOut⟩ := x
  obtain ⟨a', b', amt', inn', out', price', assetIn', assetOut'⟩ := y
  simpa [HashedRow.json] using h

/-- The text says which batch it is and has its rows in their sorted
order. -/
theorem canonical_inj {batchId batchId' : String}
    {ms ms' : List BatchMatch} :
    canonical batchId ms = canonical batchId' ms'
      ↔ batchId = batchId'
        ∧ (ms.map BatchMatch.row).mergeSort rowLe
          = (ms'.map BatchMatch.row).mergeSort rowLe := by
  constructor
  · intro h
    have hjson := Json.stringify_inj h
    simp only [Json.Value.obj.injEq, List.cons.injEq, Prod.mk.injEq,
      true_and, and_true, Json.Value.str.injEq, Json.Value.arr.injEq]
      at hjson
    obtain ⟨hid, hrows⟩ := hjson
    exact ⟨hid, List.map_injective_iff.mpr (fun _ _ => json_inj) hrows⟩
  · rintro ⟨rfl, hrows⟩
    unfold canonical
    rw [hrows]

-- =========================================================== the hash

/-- Equal hashes are of equal texts, unless they collide. -/
theorem computeBatchHash_inj {sha256 : Bytes → Word}
    {batchId batchId' : String} {ms ms' : List BatchMatch}
    (hcollide : Set.InjOn sha256
      {utf8 (canonical batchId ms), utf8 (canonical batchId' ms')})
    (h : computeBatchHash sha256 batchId ms
      = computeBatchHash sha256 batchId' ms') :
    canonical batchId ms = canonical batchId' ms' := by
  have hword := Word.toBytes_inj (bytesHex_inj h)
  exact utf8_inj (hcollide (.inl rfl) (.inr rfl) hword)

/-- What the hash says of a batch, where sha256 does not collide on the
texts compared: batches with one hash have one id and the same rows; the
hash is one for every order of the matches exactly if no two different
rows have one key; and rows without NULs never do. -/
theorem batchHash_canonical (sha256 : Bytes → Word) :
    (∀ batchId batchId' ms ms',
      Set.InjOn sha256
        {utf8 (canonical batchId ms), utf8 (canonical batchId' ms')} →
      computeBatchHash sha256 batchId ms
        = computeBatchHash sha256 batchId' ms' →
      batchId = batchId'
        ∧ (ms.map BatchMatch.row).Perm (ms'.map BatchMatch.row))
    ∧ (∀ batchId ms,
      Set.InjOn sha256
        {text | ∃ ms', List.Perm ms' ms
          ∧ text = utf8 (canonical batchId ms')} →
      ((∀ ms', List.Perm ms' ms →
          computeBatchHash sha256 batchId ms'
            = computeBatchHash sha256 batchId ms)
        ↔ KeysDistinct ms))
    ∧ ∀ ms : List BatchMatch,
        (∀ m ∈ ms, ∀ s ∈ m.row.fields, NulFree s) → KeysDistinct ms := by
  refine ⟨?_, ?_, fun ms => keysDistinct_of_nulFree⟩
  · intro batchId batchId' ms ms' hcollide h
    obtain ⟨hid, hrows⟩ :=
      canonical_inj.mp (computeBatchHash_inj hcollide h)
    exact ⟨hid, perm_of_mergeSort_eq hrows⟩
  · intro batchId ms hcollide
    rw [keysDistinct_iff_untied,
      ← mergeSort_eq_of_perm_iff rowLe_trans rowLe_total]
    constructor
    · intro horder rows hperm
      -- a reordering of the rows is one of the matches
      obtain ⟨ms', rfl, hms'⟩ : ∃ ms' : List BatchMatch,
          rows = ms'.map BatchMatch.row ∧ ms'.Perm ms :=
        (congrFun (congrFun (List.eq_map_comp_perm BatchMatch.row) rows)
          ms).mpr hperm
      have hsub : Set.InjOn sha256
          {utf8 (canonical batchId ms'), utf8 (canonical batchId ms)} := by
        refine hcollide.mono (Set.pair_subset_iff.mpr ⟨?_, ?_⟩)
        · exact ⟨ms', hms', rfl⟩
        · exact ⟨ms, .refl _, rfl⟩
      exact (canonical_inj.mp
        (computeBatchHash_inj hsub (horder ms' hms'))).2
    · intro hsort ms' hms'
      have hsame : canonical batchId ms' = canonical batchId ms :=
        canonical_inj.mpr ⟨rfl, hsort _ (hms'.map _)⟩
      unfold computeBatchHash
      rw [hsame]

section Example

/-- A digest that tells one text from all others. -/
def digestOf (text : Bytes) : Bytes → Word :=
  fun bytes => if bytes = text then 0 else 1

/-- A digest that knows one text tells it from another. -/
theorem digestOf_injOn {text text' : Bytes} {texts : Set Bytes}
    (h : ∀ t ∈ texts, t = text ∨ t = text') :
    Set.InjOn (digestOf text) texts := by
  intro x hx y hy hsame
  unfold digestOf at hsame
  by_cases hxt : x = text <;> by_cases hyt : y = text
  · rw [hxt, hyt]
  · rw [if_pos hxt, if_neg hyt] at hsame
    exact absurd hsame (by decide)
  · rw [if_neg hxt, if_pos hyt] at hsame
    exact absurd hsame (by decide)
  · rw [(h x hx).resolve_left hxt, (h y hy).resolve_left hyt]

/-- The texts of a batch of two. -/
theorem texts_pair (x y : BatchMatch) :
    ∀ text ∈ {text | ∃ ms', List.Perm ms' [x, y]
        ∧ text = utf8 (canonical "batch" ms')},
      text = utf8 (canonical "batch" [x, y])
        ∨ text = utf8 (canonical "batch" [y, x]) := by
  rintro text ⟨ms', hperm, rfl⟩
  rcases List.perm_pair.mp hperm with rfl | rfl
  · exact .inl rfl
  · exact .inr rfl

/-- Two matches without NULs. -/
def untied : List BatchMatch :=
  [(MatchResult.mk "x" "y" "1" "X" "Y").batchMatch,
    (MatchResult.mk "y" "x" "1" "X" "Y").batchMatch]

/-- The tied pair has two hashes, the other has one. -/
theorem batchHash_canonical_pairs :
    (¬∀ ms', List.Perm ms' tied →
        computeBatchHash (digestOf (utf8 (canonical "batch" tied))) "batch"
          ms'
        = computeBatchHash (digestOf (utf8 (canonical "batch" tied)))
          "batch" tied)
      ∧ (∀ ms', List.Perm ms' untied →
        computeBatchHash (digestOf (utf8 (canonical "batch" untied))) "batch"
          ms'
        = computeBatchHash (digestOf (utf8 (canonical "batch" untied)))
          "batch" untied)
      ∧ (untied.map BatchMatch.row).Perm (untied.reverse.map BatchMatch.row) := by
  obtain ⟨-, htied, -⟩ :=
    batchHash_canonical (digestOf (utf8 (canonical "batch" tied)))
  obtain ⟨hbinds, htold, hfree⟩ :=
    batchHash_canonical (digestOf (utf8 (canonical "batch" untied)))
  have hone := (htold "batch" untied (digestOf_injOn (texts_pair _ _))).mpr
    (hfree untied (by decide))
  refine ⟨?_, hone, ?_⟩
  · exact (htied "batch" tied (digestOf_injOn (texts_pair _ _))).not.mpr
      not_keysDistinct_tied
  · refine (hbinds "batch" "batch" untied untied.reverse
      (digestOf_injOn fun text htext => htext) ?_).2
    exact (hone untied.reverse (List.reverse_perm untied)).symm

end Example

end Lumix.Committee
