/-
`stableStringify`, and the hashes of JSON values taken of its text.

The text is `JSON.stringify`'s of the value with the keys of every object
sorted (`stableText_eq`), so equal texts are of values equal up to the
order of keys. The sort goes by `localeCompare`, which takes strings for
equal that spell the same characters in different code units, and keeps
such keys in the order the object lists them. Values equal up to the
order of keys have one text, and one hash, exactly when no object in them
has two such keys (`canonical_iff`).
-/
import Mathlib.Data.Set.Function
import Lumix.Basic.Word
import Lumix.Lib.Js

namespace Lumix.Services

open Js Text Lumix.Tree

-- ============================================================== texts

/-- The order of strings in the locale of the process. It is a
consistent comparator, and compares no code units. -/
structure Collation where
  localeCompare : JsString → JsString → Ordering
  consistent : Std.TransCmp localeCompare

variable (c : Collation)

mutual

/-- The text of a value. The entries of an object are sorted with their
texts made: the sort looks at their keys. -/
def stableText : Value → List Char
  | .leaf a => a.text
  | .arr items => '[' :: (join (stableItems items) ++ [']'])
  | .obj fields =>
      let entries :=
        (stableEntries fields).mergeSort (fieldLe c.localeCompare)
      '\x7b' :: (join (entries.map fun e => quote e.1 ++ ':' :: e.2)
        ++ ['\x7d'])

/-- The texts of an array's items. -/
def stableItems : List Value → List (List Char)
  | [] => []
  | v :: items => stableText v :: stableItems items

/-- The texts of an object's fields. -/
def stableEntries : List (JsString × Value) → List (JsString × List Char)
  | [] => []
  | (k, v) :: fields => (k, stableText v) :: stableEntries fields

end

/-- `stableStringify`, with this collation. -/
def stableStringify (v : JsonValue) : String :=
  String.ofList (stableText c v.tree)

/-- The copy of it in the RFQ package. -/
def stable (v : JsonValue) : String := String.ofList (stableText c v.tree)

/-- The items one by one. -/
theorem stableItems_eq (items : List Value) :
    stableItems c items = items.map (stableText c) := by
  induction items with
  | nil => rfl
  | cons v items ih => rw [stableItems, ih, List.map_cons]

/-- The fields one by one. -/
theorem stableEntries_eq (fields : List (JsString × Value)) :
    stableEntries c fields = fields.map fun f => (f.1, stableText c f.2) := by
  induction fields with
  | nil => rfl
  | cons f fields ih => rw [stableEntries, ih, List.map_cons]

/-- The text is the text of the sorted value. -/
theorem stableText_eq (v : Value) :
    stableText c v = write texts (v.sorted c.localeCompare) := by
  induction v using Tree.induct with
  | leaf a => rfl
  | arr items ih =>
      rw [stableText, stableItems_eq, sorted_arr, write, writeItems_eq,
        List.map_map, List.map_congr_left ih]
      rfl
  | obj fields ih =>
      have hentries : stableEntries c fields
          = (fields.map (sortedField c.localeCompare)).map
              fun f => (f.1, write texts f.2) := by
        rw [stableEntries_eq, List.map_map]
        exact List.map_congr_left fun f hf => Prod.ext rfl (ih f hf)
      have hsort : (stableEntries c fields).mergeSort
            (fieldLe c.localeCompare)
          = ((fields.map (sortedField c.localeCompare)).mergeSort
              (fieldLe c.localeCompare)).map
              fun f => (f.1, write texts f.2) := by
        rw [hentries]
        exact sort_map _ (by intro f; rfl) _
      rw [stableText, sorted_obj, write, writeFields_eq, hsort,
        List.map_map]
      rfl

-- ============================================================= hashes

section Hashes

variable (sha256 : Bytes → Word)

/-- `0x` and the digest of a text in hexadecimal. -/
def textHash (text : String) : String :=
  "0x" ++ bytesHex (sha256 (utf8 text)).toBytes

/-- `hashJson`: `sha256` of the stable text. -/
def hashJson (v : JsonValue) : String :=
  textHash sha256 (stableStringify c v)

/-- The sdk's hash of an intent. -/
def intentHash (intent : JsonValue) : String :=
  textHash sha256 (stable c intent)

/-- The sdk's hash of a quote. -/
def quoteHash (q : JsonValue) : String := textHash sha256 (stable c q)

/-- `sha256Hex` is the digest of a text, as hexadecimal text; 128 bits of
it are kept. -/
def deterministicId (sha256Hex : String → String) (space : String)
    (parts : List String) : String :=
  let hash := sha256Hex (space ++ "\x00" ++ String.intercalate "\x00" parts)
  space ++ "_" ++ String.ofList (hash.toList.take 32)

variable {sha256}

/-- Equal texts of hashes are equal hashes. -/
theorem textHash_inj {s t : String}
    (h : textHash sha256 s = textHash sha256 t) :
    sha256 (utf8 s) = sha256 (utf8 t) := by
  have hchars := congrArg String.toList h
  rw [textHash, textHash, String.toList_append,
    String.toList_append] at hchars
  have hhex := String.toList_injective (List.append_cancel_left hchars)
  exact Word.toBytes_inj (bytesHex_inj hhex)

end Hashes

-- ========================================================== canonical

/-- No object in the value has two keys, neither an array index, that
the locale takes for equal. -/
def TieFree (v : JsonValue) : Prop :=
  v.tree.AllKeys (Tree.TieFree arrayIndex c.localeCompare)

/-- The text of the value is that of the values equal to it up to the
order of keys, and of no others. -/
def CanonicalText (text : JsonValue → String) (v : JsonValue) : Prop :=
  ∀ w, text v = text w ↔ v.Same w

/-- The hash of the value depends on its content only, and binds all of
it as far as the digest tells the texts apart. -/
def BindsContent (text : JsonValue → String)
    (hash : (Bytes → Word) → JsonValue → String) (v : JsonValue) : Prop :=
  ∀ sha256 w, (v.Same w → hash sha256 v = hash sha256 w)
    ∧ (Set.InjOn sha256 {utf8 (text v), utf8 (text w)} →
      hash sha256 v = hash sha256 w → v.Same w)

variable {c}

/-- One text is of one value, whatever the order of its fields. -/
theorem same_of_stableStringify {v w : JsonValue}
    (h : stableStringify c v = stableStringify c w) : v.Same w := by
  have htext := String.ofList_injective h
  rw [stableText_eq, stableText_eq] at htext
  exact same_of_sorted_eq _ (eq_of_write_eq texts htext)

/-- Without ties, and only then, the order of keys does not show. -/
theorem tieFree_iff (v : JsonValue) :
    (∀ w : JsonValue, v.Same w →
        stableStringify c v = stableStringify c w) ↔ TieFree c v := by
  have := c.consistent
  rw [TieFree, ← sorted_eq_iff_tieFree arrayIndex_inj v.proper]
  constructor
  · intro h u hu hsame
    have htext := String.ofList_injective (h ⟨u, hu⟩ hsame)
    rw [stableText_eq, stableText_eq] at htext
    exact eq_of_write_eq texts htext
  · intro h w hsame
    unfold stableStringify
    rw [stableText_eq, stableText_eq, h w.tree w.proper hsame]

/-- The text is canonical where no two keys of an object tie. -/
theorem canonicalText_iff (v : JsonValue) :
    CanonicalText (stableStringify c) v ↔ TieFree c v := by
  rw [← tieFree_iff]
  constructor
  · exact fun h w hsame => (h w).mpr hsame
  · exact fun h w => ⟨same_of_stableStringify, h w⟩

/-- A digest that tells two texts apart. -/
theorem exists_digest {s t : String} (h : s ≠ t) :
    ∃ sha256 : Bytes → Word, textHash sha256 s ≠ textHash sha256 t := by
  refine ⟨fun bytes => if bytes = utf8 s then 0 else 1, fun hhash => ?_⟩
  have hdigest := textHash_inj hhash
  have hne : utf8 t ≠ utf8 s := fun hbytes => h (utf8_inj hbytes).symm
  simp only [if_pos, if_neg hne] at hdigest
  exact absurd hdigest (by decide)

/-- So is the hash. -/
theorem bindsContent_iff (v : JsonValue) :
    BindsContent (stableStringify c)
        (fun sha256 v => textHash sha256 (stableStringify c v)) v
      ↔ TieFree c v := by
  rw [← tieFree_iff]
  constructor
  · intro h w hsame
    by_contra hne
    obtain ⟨sha256, hhash⟩ := exists_digest hne
    exact hhash ((h sha256 w).1 hsame)
  · intro h sha256 w
    refine ⟨fun hsame => congrArg (textHash sha256) (h w hsame),
      fun hcollide hhash => same_of_stableStringify (c := c) (utf8_inj ?_)⟩
    exact hcollide (Set.mem_insert _ _)
      (Set.mem_insert_of_mem _ rfl) (textHash_inj hhash)

/-- The texts and the hashes of a value are canonical exactly when no
object in it has two keys that tie. -/
theorem canonical_iff (c : Collation) (v : JsonValue) :
    (∀ w, stableStringify c v = stableStringify c w → v.Same w)
      ∧ (CanonicalText (stableStringify c) v ↔ TieFree c v)
      ∧ (CanonicalText (stable c) v ↔ TieFree c v)
      ∧ (BindsContent (stableStringify c) (hashJson c) v ↔ TieFree c v)
      ∧ (BindsContent (stable c) (intentHash c) v ↔ TieFree c v)
      ∧ (BindsContent (stable c) (quoteHash c) v ↔ TieFree c v) :=
  ⟨fun _ => same_of_stableStringify, canonicalText_iff v,
    canonicalText_iff v, bindsContent_iff v, bindsContent_iff v,
    bindsContent_iff v⟩

-- ====================================================== accented keys

/-- `é`, as one code unit and as two. -/
def composed : JsString := [0xe9]

/-- The same letter in two code units. -/
def decomposed : JsString := [0x65, 0x301]

/-- A locale compares what the code units spell. -/
def decompose (s : JsString) : JsString :=
  s.flatMap fun u => if u = 0xe9 then decomposed else [u]

/-- A collation that takes both for one. -/
def byCharacters : Collation where
  localeCompare := compareOn decompose
  consistent := inferInstance

/-- An object with both as keys. -/
def accented : JsonValue where
  tree := .obj [(composed, .leaf (.bool true)),
    (decomposed, .leaf (.bool false))]
  proper := by decide

/-- The same in the other order. -/
def accentedTurned : JsonValue where
  tree := .obj [(decomposed, .leaf (.bool false)),
    (composed, .leaf (.bool true))]
  proper := by decide

/-- The text of an object with two fields in order. -/
theorem stableText_pair {k l : JsString} (a b : Leaf)
    (h : (c.localeCompare k l).isLE) :
    stableText c (.obj [(k, .leaf a), (l, .leaf b)])
      = '\x7b' :: (join [quote k ++ ':' :: a.text, quote l ++ ':' :: b.text]
          ++ ['\x7d']) := by
  have hsorted : [(k, a.text), (l, b.text)].mergeSort
      (fieldLe c.localeCompare) = [(k, a.text), (l, b.text)] :=
    List.mergeSort_of_pairwise (List.pairwise_pair.mpr h)
  show '\x7b' :: (join (([(k, a.text), (l, b.text)].mergeSort
    (fieldLe c.localeCompare)).map fun e => quote e.1 ++ ':' :: e.2)
      ++ ['\x7d']) = _
  rw [hsorted]
  rfl

/-- Two orders of one object's keys have two texts. -/
theorem accented_texts_differ :
    byCharacters.localeCompare composed decomposed = .eq
      ∧ accented.Same accentedTurned
      ∧ stableStringify byCharacters accented
          ≠ stableStringify byCharacters accentedTurned
      ∧ ¬ CanonicalText (stableStringify byCharacters) accented := by
  have hsame : accented.Same accentedTurned :=
    .obj (.swap _ _ _) rfl (List.forall₂_same.mpr fun t _ => .refl t)
  have hne : stableStringify byCharacters accented
      ≠ stableStringify byCharacters accentedTurned := by
    intro h
    have htext := String.ofList_injective h
    rw [accented, accentedTurned, stableText_pair _ _ (by decide),
      stableText_pair _ _ (by decide)] at htext
    exact absurd htext (by decide)
  exact ⟨by decide, hsame, hne, fun h => hne ((h _).mpr hsame)⟩

end Lumix.Services
