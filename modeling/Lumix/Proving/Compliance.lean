/-
The witness builder of the compliance circuit, and what it and the
circuit are worth together (`deny_list`).

Labels are decimal strings. They are compared as strings when the allow
list is searched and as integers when the deny list is, and the circuit
reads them modulo the order. Merkle paths come from the `coinutils`
program, which is a parameter; what is relied on is that it returns the
zero-padded tree's own path (`ZeroPadded`).
-/
import Mathlib.Data.Nat.Digits.Defs
import Lumix.Circuits.Compliance
import Lumix.Circuits.Poseidon255
import Lumix.Lib.Exec

namespace Lumix

open Digits Exec Opening

-- ============================================================= decimals

/-- A string of decimal digits. -/
structure Decimal where
  digits : List (Fin 10)
  nonempty : digits ≠ []
  deriving DecidableEq

namespace Decimal

/-- `BigInt(s)`. -/
def toBigInt (s : Decimal) : ℕ :=
  s.digits.foldl (fun n d => 10 * n + d.val) 0

/-- The signal a decimal string is read as. -/
def toFr (s : Decimal) : Fr := (s.toBigInt : Fr)

/-- `String(n)`. -/
def ofNat (n : ℕ) : Decimal :=
  if h : n = 0 then ⟨[0], List.cons_ne_nil _ _⟩
  else {
    digits := (Nat.digits 10 n).reverse.map fun d => Fin.ofNat 10 d
    nonempty := by simpa [Nat.digits_eq_nil_iff_eq_zero] using h }

theorem toBigInt_ofNat (n : ℕ) : (ofNat n).toBigInt = n := by
  unfold ofNat
  by_cases h : n = 0
  · rw [dif_pos h, h]
    rfl
  · rw [dif_neg h]
    unfold toBigInt
    rw [List.foldl_map, List.foldl_reverse]
    have hfold : ∀ ds : List ℕ, (∀ d ∈ ds, d < 10) →
        ds.foldr (fun d n => 10 * n + (Fin.ofNat 10 d).val) 0
          = Nat.ofDigits 10 ds := by
      intro ds hds
      induction ds with
      | nil => rfl
      | cons d ds ih =>
          rw [List.foldr_cons, Nat.ofDigits_cons,
            ih fun d hd => hds d (List.mem_cons_of_mem _ hd)]
          have hd := hds d (List.mem_cons_self ..)
          rw [Fin.val_ofNat, Nat.mod_eq_of_lt hd]
          omega
    rw [hfold _ fun d hd => Nat.digits_lt_base (by omega) hd,
      Nat.ofDigits_digits]

@[simp]
theorem toFr_ofNat (n : ℕ) : (ofNat n).toFr = (n : Fr) := by
  unfold toFr
  rw [toBigInt_ofNat]

end Decimal

-- ============================================================ coinutils

/-- What `coinutils` prints of a leaf. -/
structure MProof where
  root : Decimal
  leafIndex : ℕ
  siblings : List Decimal

/-- `coinutils merkle-proof` on a state file with the given leaves. -/
abbrev Coinutils := (statePath : String) → (leaves : List Decimal) →
  (index depth : ℕ) → Except String MProof

/-- The program returns the path of the zero-padded tree. -/
def ZeroPadded (H : List Fr → Fr) (coinutils : Coinutils) : Prop :=
  ∀ statePath leaves index depth, leaves.length ≤ 2 ^ depth →
    index < leaves.length →
    ∃ proof, coinutils statePath leaves index depth = .ok proof
      ∧ proof.root.toFr
        = Merkle.node (hash2 H) (padded (leaves.map Decimal.toFr)) depth 0
      ∧ proof.siblings.map Decimal.toFr
        = (Merkle.opening (hash2 H) (padded (leaves.map Decimal.toFr))
          depth 0 index).map Prod.snd

/-- `merkleProof`, at its default depth. -/
def merkleProof (coinutils : Coinutils) (scratch tag : String)
    (leaves : List Decimal) (index : ℕ) : Except String MProof :=
  coinutils (scratch ++ "/" ++ tag ++ "_state.json") leaves index 2

-- ============================================================== builder

/-- The arguments of the builder. -/
structure ComplianceParams where
  label : Decimal
  allowLabels : List Decimal
  denyLabels : List Decimal
  policyId : Decimal
  scratch : String
  tag : String

/-- The circuit inputs `buildComplianceWitness` returns. -/
structure ComplianceInputs where
  allowRoot : Decimal
  denyRoot : Decimal
  policyId : Decimal
  label : Decimal
  allowIndex : Decimal
  allowSiblings : List Decimal
  denyLo : Decimal
  denyLoIndex : Decimal
  denyLoSiblings : List Decimal
  denyHi : Decimal
  denyHiIndex : Decimal
  denyHiSiblings : List Decimal

/-- The loop that checks the order of the deny labels. -/
def checkSorted : List Decimal → Except String Unit
  | a :: b :: rest => do
      panicIf (b.toBigInt ≤ a.toBigInt)
        "deny labels must be strictly sorted ascending"
      checkSorted (b :: rest)
  | _ => pure ()

/-- The loop that finds the bounding leaves, from index `i` on: the
index of the lower, and both entries. -/
def findBounds (label : Decimal) :
    (i : ℕ) → List Decimal → Option (ℕ × Decimal × Decimal)
  | i, a :: b :: rest =>
      if a.toBigInt < label.toBigInt ∧ label.toBigInt < b.toBigInt then
        some (i, a, b)
      else findBounds label (i + 1) (b :: rest)
  | _, _ => none

/-- The label's path in the allow set, and those of its neighbours in
the deny set. -/
def buildComplianceWitness (coinutils : Coinutils) (p : ComplianceParams) :
    Except String ComplianceInputs := do
  panicIf (p.label ∉ p.allowLabels) "label not in allow set"
  let allowIdx := p.allowLabels.idxOf p.label
  checkSorted p.denyLabels
  let (loIdx, lo, hi) ← orPanic
    "no adjacent deny leaves bound the label (is it denied, or out of sentinel range?)"
    (findBounds p.label 0 p.denyLabels)
  let allowP ← merkleProof coinutils p.scratch (p.tag ++ "_allow")
    p.allowLabels allowIdx
  let loP ← merkleProof coinutils p.scratch (p.tag ++ "_lo") p.denyLabels
    loIdx
  let hiP ← merkleProof coinutils p.scratch (p.tag ++ "_hi") p.denyLabels
    (loIdx + 1)
  pure {
    allowRoot := allowP.root
    denyRoot := loP.root
    policyId := p.policyId
    label := p.label
    allowIndex := .ofNat allowIdx
    allowSiblings := allowP.siblings
    denyLo := lo
    denyLoIndex := .ofNat loIdx
    denyLoSiblings := loP.siblings
    denyHi := hi
    denyHiIndex := .ofNat (loIdx + 1)
    denyHiSiblings := hiP.siblings }

/-- The assignment with these inputs; the index bits are signals inside
the circuit. -/
def ComplianceInputs.assign (w : ComplianceInputs)
    (allowBits loBits hiBits : List Bool) : ComplianceMembership where
  allowRoot := w.allowRoot.toFr
  denyRoot := w.denyRoot.toFr
  policyId := w.policyId.toFr
  label := w.label.toFr
  allow := ⟨w.allowIndex.toFr, w.allowSiblings.map Decimal.toFr, allowBits⟩
  denyLo := w.denyLo.toFr
  lo := ⟨w.denyLoIndex.toFr, w.denyLoSiblings.map Decimal.toFr, loBits⟩
  denyHi := w.denyHi.toFr
  hi := ⟨w.denyHiIndex.toFr, w.denyHiSiblings.map Decimal.toFr, hiBits⟩

-- ========================================================= completeness

theorem checkSorted_ok {ls : List Decimal}
    (h : ls.Pairwise fun a b => a.toBigInt < b.toBigInt) :
    checkSorted ls = .ok () := by
  induction ls with
  | nil => rfl
  | cons a rest ih =>
      cases rest with
      | nil => rfl
      | cons b rest =>
          obtain ⟨hhead, htail⟩ := List.pairwise_cons.mp h
          have hab := hhead b (List.mem_cons_self ..)
          simp only [checkSorted, bind_eq_ok, panicIf_eq_ok]
          exact ⟨(), by omega, ih htail⟩

/-- What the search returns: two neighbours that enclose the label. -/
theorem findBounds_some {label : Decimal} {i : ℕ} {ls : List Decimal}
    {j : ℕ} {lo hi : Decimal}
    (h : findBounds label i ls = some (j, lo, hi)) :
    i ≤ j ∧ ls[j - i]? = some lo ∧ ls[j - i + 1]? = some hi
      ∧ lo.toBigInt < label.toBigInt ∧ label.toBigInt < hi.toBigInt := by
  induction ls generalizing i with
  | nil => cases h
  | cons a rest ih =>
      cases rest with
      | nil => cases h
      | cons b rest =>
          unfold findBounds at h
          split at h
          case isTrue hbounds =>
            injection h with h
            injection h with hi hrest
            injection hrest with ha hb
            subst hi ha hb
            rw [Nat.sub_self]
            exact ⟨le_rfl, rfl, rfl, hbounds.1, hbounds.2⟩
          case isFalse =>
            obtain ⟨hle, hlo, hhi, hbelow, habove⟩ := ih h
            rw [show j - i = j - (i + 1) + 1 by omega]
            exact ⟨by omega, hlo, hhi, hbelow, habove⟩

/-- It finds them whenever the label lies between the ends and is no
entry. -/
theorem findBounds_isSome {label : Decimal} {i : ℕ} {a : Decimal}
    {rest : List Decimal} (hlow : a.toBigInt < label.toBigInt)
    (hhigh : ∃ b ∈ rest, label.toBigInt < b.toBigInt)
    (hnot : ∀ b ∈ rest, b.toBigInt ≠ label.toBigInt) :
    ∃ found, findBounds label i (a :: rest) = some found := by
  induction rest generalizing i a with
  | nil =>
      obtain ⟨_, hb, -⟩ := hhigh
      cases hb
  | cons b rest ih =>
      unfold findBounds
      by_cases habove : label.toBigInt < b.toBigInt
      · rw [if_pos ⟨hlow, habove⟩]
        exact ⟨_, rfl⟩
      · rw [if_neg fun h => habove h.2]
        have hne := hnot b (List.mem_cons_self ..)
        refine ih (by omega) ?_
          fun c hc => hnot c (List.mem_cons_of_mem _ hc)
        obtain ⟨c, hc, hlt⟩ := hhigh
        rcases List.mem_cons.mp hc with rfl | hc
        · exact absurd hlt habove
        · exact ⟨c, hc, hlt⟩

variable {H : List Fr → Fr} {coinutils : Coinutils}

/-- A tree's own path, with the bits of its index, satisfies
`MerkleProof`. -/
theorem MerkleProof.ofOpening (f : ℕ → Fr) {depth index : ℕ}
    (hindex : index < 2 ^ depth) :
    MerkleProof H depth (f index)
      ⟨(index : Fr), (Merkle.opening (hash2 H) f depth 0 index).map Prod.snd,
        bitsOf depth index⟩
      (Merkle.node (hash2 H) f depth 0) := by
  have hsides := Merkle.opening_sides (hash2 H) f depth 0 index
  have hlength : (Merkle.opening (hash2 H) f depth 0 index).length
      = depth := by
    rw [← List.length_map Prod.fst, hsides, length_bitsOf]
  refine ⟨by rw [List.length_map, hlength], ⟨length_bitsOf .., ?_⟩, ?_⟩
  · rw [bitsVal_bitsOf hindex]
  · have hpath : (bitsOf depth index).zip
        ((Merkle.opening (hash2 H) f depth 0 index).map Prod.snd)
          = Merkle.opening (hash2 H) f depth 0 index :=
      (List.zip_of_prod hsides rfl).symm
    show Merkle.climb (hash2 H) (Merkle.node (hash2 H) f 0 index) _ = _
    unfold Opening.path
    rw [hpath, Merkle.climb_opening, Nat.zero_add,
      Nat.div_eq_of_lt hindex]

/-- The path the program returns satisfies `MerkleProof` from the leaf
asked for. -/
theorem merkleProof_ok (hcoinutils : ZeroPadded H coinutils)
    (scratch tag : String) {leaves : List Decimal} {index : ℕ}
    {leaf : Decimal} (hfits : leaves.length ≤ 4)
    (hleaf : leaves[index]? = some leaf) :
    ∃ proof, merkleProof coinutils scratch tag leaves index = .ok proof
      ∧ proof.root.toFr
        = Merkle.node (hash2 H) (padded (leaves.map Decimal.toFr)) 2 0
      ∧ MerkleProof H 2 leaf.toFr ⟨(Decimal.ofNat index).toFr,
        proof.siblings.map Decimal.toFr, bitsOf 2 index⟩
        proof.root.toFr := by
  obtain ⟨hindex, -⟩ := List.getElem?_eq_some_iff.mp hleaf
  obtain ⟨proof, hproof, hroot, hsiblings⟩ :=
    hcoinutils (scratch ++ "/" ++ tag ++ "_state.json") leaves index 2
      hfits hindex
  refine ⟨proof, hproof, hroot, ?_⟩
  have hat : padded (leaves.map Decimal.toFr) index = leaf.toFr := by
    unfold padded
    rw [List.getD_eq_getElem?_getD, List.getElem?_map, hleaf]
    rfl
  rw [hroot, hsiblings, Decimal.toFr_ofNat, ← hat]
  exact MerkleProof.ofOpening _ (by omega)

/-- A label is read without reduction. -/
theorem Decimal.val_toFr {s : Decimal} (h : s.toBigInt < 2 ^ 252) :
    s.toFr.val = s.toBigInt := by
  have hr := two_pow_254_lt_r
  unfold toFr
  rw [ZMod.val_natCast]
  exact Nat.mod_eq_of_lt (by omega)

/-- Parameters with a witness: the lists fit the trees of depth 2, the
label is allowed, and the sorted deny list encloses it without
containing it. -/
structure ComplianceParams.Provable (p : ComplianceParams) : Prop where
  allowFits : p.allowLabels.length ≤ 4
  allowed : p.label ∈ p.allowLabels
  denyFits : p.denyLabels.length ≤ 4
  sorted : p.denyLabels.Pairwise fun a b => a.toBigInt < b.toBigInt
  inRange : ∀ d ∈ p.denyLabels, d.toBigInt < 2 ^ 252
  first : ∃ d, p.denyLabels.head? = some d
    ∧ d.toBigInt < p.label.toBigInt
  last : ∃ d, p.denyLabels.getLast? = some d
    ∧ p.label.toBigInt < d.toBigInt
  notDenied : ∀ d ∈ p.denyLabels, d.toBigInt ≠ p.label.toBigInt

/-- The neighbours of the label in a deny list that encloses it. -/
theorem ComplianceParams.Provable.bounds {p : ComplianceParams}
    (h : p.Provable) :
    ∃ i lo hi, findBounds p.label 0 p.denyLabels = some (i, lo, hi)
      ∧ p.denyLabels[i]? = some lo ∧ p.denyLabels[i + 1]? = some hi
      ∧ lo.toBigInt < p.label.toBigInt ∧ p.label.toBigInt < hi.toBigInt
      ∧ hi.toBigInt < 2 ^ 252 := by
  obtain ⟨a, hhead, hlow⟩ := h.first
  obtain ⟨z, hlast, hhigh⟩ := h.last
  have hfound : ∃ found, findBounds p.label 0 p.denyLabels = some found := by
    have hnot := h.notDenied
    cases hlist : p.denyLabels with
    | nil =>
        rw [hlist] at hhead
        cases hhead
    | cons b rest =>
        rw [hlist] at hhead hlast hnot
        injection hhead with hhead
        subst hhead
        refine findBounds_isSome hlow ⟨z, ?_, hhigh⟩
          fun c hc => hnot c (List.mem_cons_of_mem _ hc)
        rcases List.mem_cons.mp (List.mem_of_getLast? hlast) with rfl | hz
        · omega
        · exact hz
  obtain ⟨⟨i, lo, hi⟩, hfound⟩ := hfound
  obtain ⟨-, hlo, hhi, hbelow, habove⟩ := findBounds_some hfound
  rw [Nat.sub_zero] at hlo hhi
  exact ⟨i, lo, hi, hfound, hlo, hhi, hbelow, habove,
    h.inRange hi (List.mem_of_getElem? hhi)⟩

/-- Completeness: the builder returns inputs that satisfy the deployed
circuit, against the roots of the two trees. -/
theorem buildComplianceWitness_complete
    (hcoinutils : ZeroPadded H coinutils) {p : ComplianceParams}
    (h : p.Provable) :
    ∃ w, buildComplianceWitness coinutils p = .ok w
      ∧ w.allowRoot.toFr = Merkle.node (hash2 H)
        (padded (p.allowLabels.map Decimal.toFr)) 2 0
      ∧ w.denyRoot.toFr = Merkle.node (hash2 H)
        (padded (p.denyLabels.map Decimal.toFr)) 2 0
      ∧ w.label = p.label
      ∧ ∃ allowBits loBits hiBits,
        (w.assign allowBits loBits hiBits).Satisfied H 2 2 252 := by
  obtain ⟨i, lo, hi, hfound, hloAt, hhiAt, hbelow, habove, hhi⟩ := h.bounds
  have hallowAt : p.allowLabels[p.allowLabels.idxOf p.label]?
      = some p.label := by
    have hidx := List.idxOf_lt_length_of_mem h.allowed
    rw [List.getElem?_eq_getElem hidx, List.getElem_idxOf hidx]
  obtain ⟨allowP, hallow, hallowRoot, hallowProof⟩ := merkleProof_ok
    hcoinutils p.scratch (p.tag ++ "_allow") h.allowFits hallowAt
  obtain ⟨loP, hlo, hloRoot, hloProof⟩ := merkleProof_ok hcoinutils
    p.scratch (p.tag ++ "_lo") h.denyFits hloAt
  obtain ⟨hiP, hhiOk, hhiRoot, hhiProof⟩ := merkleProof_ok hcoinutils
    p.scratch (p.tag ++ "_hi") h.denyFits hhiAt
  have hbuild : buildComplianceWitness coinutils p = .ok {
      allowRoot := allowP.root
      denyRoot := loP.root
      policyId := p.policyId
      label := p.label
      allowIndex := .ofNat (p.allowLabels.idxOf p.label)
      allowSiblings := allowP.siblings
      denyLo := lo
      denyLoIndex := .ofNat i
      denyLoSiblings := loP.siblings
      denyHi := hi
      denyHiIndex := .ofNat (i + 1)
      denyHiSiblings := hiP.siblings } := by
    unfold buildComplianceWitness
    simp only [bind_eq_ok, panicIf_eq_ok, orPanic_eq_ok, pure_eq_ok,
      Prod.exists, not_not]
    exact ⟨(), h.allowed, (), checkSorted_ok h.sorted, i, lo, hi, hfound,
      allowP, hallow, loP, hlo, hiP, hhiOk, rfl⟩
  refine ⟨_, hbuild, hallowRoot, hloRoot, rfl,
    bitsOf 2 (p.allowLabels.idxOf p.label), bitsOf 2 i, bitsOf 2 (i + 1),
    ?_⟩
  have hlabel := Decimal.val_toFr (s := p.label) (by omega)
  have hloVal := Decimal.val_toFr (s := lo) (by omega)
  have hhiVal := Decimal.val_toFr hhi
  have hlabelRange : p.label.toFr.val < 2 ^ 252 := by omega
  have hloRange : lo.toFr.val < 2 ^ 252 := by omega
  have hhiRange : hi.toFr.val < 2 ^ 252 := by omega
  exact {
    allowP := hallowProof
    loP := hloProof
    hiP := by
      show MerkleProof H 2 hi.toFr _ loP.root.toFr
      rw [hloRoot, ← hhiRoot]
      exact hhiProof
    rLo := inRange_iff.mpr hloRange
    rLab := inRange_iff.mpr hlabelRange
    rHi := inRange_iff.mpr hhiRange
    ltLo := (lessThan_iff_val_lt le_rfl hloRange hlabelRange).mpr
      (by omega)
    ltHi := (lessThan_iff_val_lt le_rfl hlabelRange hhiRange).mpr
      (by omega)
    adjacent := by
      show (Decimal.ofNat (i + 1)).toFr = (Decimal.ofNat i).toFr + 1
      rw [Decimal.toFr_ofNat, Decimal.toFr_ofNat, Nat.cast_add,
        Nat.cast_one] }

-- ============================================================ deny list

/-- Deny-list soundness and completeness. At every depth below 254 and
every range up to 252 bits, where no inputs of the trees and openings
collide, a satisfying assignment has its label in the allow tree and not
in the sorted deny tree. And at the deployed depth the builder returns,
for provable parameters, inputs that satisfy the circuit. -/
theorem deny_list (H : List Fr → Fr) :
    (∀ allowDepth < 254, ∀ denyDepth < 254, ∀ rangeBits ≤ 252,
      ∀ S : Set (List Fr), Set.InjOn H S →
      ∀ (allow : ℕ → Fr) (deny : DenyTree denyDepth rangeBits)
        (a : ComplianceMembership),
      (∀ p ∈ Merkle.treePairs (hash2 H) allow allowDepth,
        [p.1, p.2] ∈ S) →
      (∀ p ∈ Merkle.treePairs (hash2 H) (padded deny.leaves) denyDepth,
        [p.1, p.2] ∈ S) →
      (∀ y ∈ a.hashInputs H, y ∈ S) →
      a.Satisfied H allowDepth denyDepth rangeBits →
      a.allowRoot = Merkle.node (hash2 H) allow allowDepth 0 →
      a.denyRoot = Merkle.node (hash2 H) (padded deny.leaves) denyDepth 0 →
      (∃ i < 2 ^ allowDepth, a.label = allow i)
        ∧ ∀ j, padded deny.leaves j ≠ a.label)
    ∧ ∀ coinutils, ZeroPadded H coinutils →
      ∀ p : ComplianceParams, p.Provable →
      ∃ w, buildComplianceWitness coinutils p = .ok w
        ∧ w.allowRoot.toFr = Merkle.node (hash2 H)
          (padded (p.allowLabels.map Decimal.toFr)) 2 0
        ∧ w.denyRoot.toFr = Merkle.node (hash2 H)
          (padded (p.denyLabels.map Decimal.toFr)) 2 0
        ∧ w.label = p.label
        ∧ ∃ allowBits loBits hiBits,
          (w.assign allowBits loBits hiBits).Satisfied H 2 2 252 := by
  constructor
  · intro allowDepth _ denyDepth hdeny rangeBits hrange S hinj allow deny a
      hallowTree hdenyTree hinputs h hallowRoot hdenyRoot
    exact ComplianceMembership.sound hdeny hrange hinj hallowTree hdenyTree
      hinputs h hallowRoot hdenyRoot
  · intro coinutils hcoinutils p hp
    exact buildComplianceWitness_complete hcoinutils hp

-- =========================================================== evaluation

namespace ComplianceTest

/-- The lists of the circuit's test. -/
def denyTree : DenyTree 2 252 where
  leaves := [0, 100, 500, 1000000000000]
  fits := by decide
  sorted := by decide +kernel
  inRange := by
    intro x hx
    simp only [List.mem_cons, List.not_mem_nil, or_false] at hx
    rcases hx with rfl | rfl | rfl | rfl
    · decide +kernel
    · decide +kernel
    · decide +kernel
    · decide +kernel

/-- The labels that are allowed. -/
def allowLeaves : List Fr := [7, 42, 300]

/-- The nodes above them. -/
def table : DigestTable where
  entries := [
    ([7, 42],
     0x562abc232799badfbc7df8c9a7ee38235ff272bbdec1d72fa7dafbdbd4cdf076),
    ([300, 0],
     0x2a118787e685a602c107fccd7f84523baddd7036b5c18896ae21e78d9deb8899),
    ([0x562abc232799badfbc7df8c9a7ee38235ff272bbdec1d72fa7dafbdbd4cdf076,
      0x2a118787e685a602c107fccd7f84523baddd7036b5c18896ae21e78d9deb8899],
     0x5a11de77d5f52fd1adee10325cd688c21fce6f4e84f7789bd30ce5bd2b34232d),
    ([0, 100],
     0x4d3504ac5ae48f012295ed1be30bf1d8e041387080713e9deef32a72f4a570fe),
    ([500, 1000000000000],
     0x31beb2726b97030cccf94e73bc06af497fa9cb952ff6df2f912d34d4ebd1ddd1),
    ([0x4d3504ac5ae48f012295ed1be30bf1d8e041387080713e9deef32a72f4a570fe,
      0x31beb2726b97030cccf94e73bc06af497fa9cb952ff6df2f912d34d4ebd1ddd1],
     0x464d7d0c65efa7e03b0b1973c0671496d67265eebb2d3afb6f442d9bebcc5754)]
  residues := by decide +kernel

/-- Poseidon255, evaluated through them. -/
def hash : List Fr → Fr := tabulated poseidon255 table.entries

/-- The label 300, between the deny leaves 100 and 500. -/
def assignment : ComplianceMembership where
  allowRoot :=
    0x5a11de77d5f52fd1adee10325cd688c21fce6f4e84f7789bd30ce5bd2b34232d
  denyRoot :=
    0x464d7d0c65efa7e03b0b1973c0671496d67265eebb2d3afb6f442d9bebcc5754
  policyId := 12345
  label := 300
  allow := {
    leafIndex := 2
    siblings := [0,
      0x562abc232799badfbc7df8c9a7ee38235ff272bbdec1d72fa7dafbdbd4cdf076]
    indices := [false, true] }
  denyLo := 100
  lo := {
    leafIndex := 1
    siblings := [0,
      0x31beb2726b97030cccf94e73bc06af497fa9cb952ff6df2f912d34d4ebd1ddd1]
    indices := [true, false] }
  denyHi := 500
  hi := {
    leafIndex := 2
    siblings := [1000000000000,
      0x4d3504ac5ae48f012295ed1be30bf1d8e041387080713e9deef32a72f4a570fe]
    indices := [false, true] }

/-- The assignment evaluated, and the inputs hashed for it and in the
two trees. -/
theorem evaluated :
    assignment.Satisfied hash 2 2 252
      ∧ assignment.allowRoot
        = Merkle.node (hash2 hash) (padded allowLeaves) 2 0
      ∧ assignment.denyRoot
        = Merkle.node (hash2 hash) (padded denyTree.leaves) 2 0
      ∧ (∀ y ∈ assignment.hashInputs hash, y ∈ table.entries.map Prod.fst)
      ∧ (∀ l < 2, ∀ i < 2 ^ (2 - 1 - l),
        [(Merkle.nodePair (hash2 hash) (padded allowLeaves) l i).1,
          (Merkle.nodePair (hash2 hash) (padded allowLeaves) l i).2]
          ∈ table.entries.map Prod.fst)
      ∧ (∀ l < 2, ∀ i < 2 ^ (2 - 1 - l),
        [(Merkle.nodePair (hash2 hash) (padded denyTree.leaves) l i).1,
          (Merkle.nodePair (hash2 hash) (padded denyTree.leaves) l i).2]
          ∈ table.entries.map Prod.fst)
      ∧ (table.entries.map Prod.snd).Nodup := by
  decide +kernel

/-- The parameters of the test. -/
def params : ComplianceParams where
  label := .ofNat 300
  allowLabels := [.ofNat 7, .ofNat 42, .ofNat 300]
  denyLabels := [.ofNat 0, .ofNat 100, .ofNat 500, .ofNat 1000000000000]
  policyId := .ofNat 12345
  scratch := "/tmp"
  tag := "comp_ok"

/-- A `coinutils` that hashes with Poseidon255. -/
def program : Coinutils := fun _ leaves index depth =>
  let f := padded (leaves.map Decimal.toFr)
  .ok {
    root := .ofNat (Merkle.node (hash2 hash) f depth 0).val
    leafIndex := index
    siblings := (Merkle.opening (hash2 hash) f depth 0 index).map
      fun step => .ofNat step.2.val }

theorem toFr_ofNat_val (x : Fr) : (Decimal.ofNat x.val).toFr = x := by
  rw [Decimal.toFr_ofNat, ZMod.natCast_zmod_val]

theorem program_zeroPadded : ZeroPadded hash program := by
  intro statePath leaves index depth _ _
  refine ⟨_, rfl, toFr_ofNat_val _, ?_⟩
  rw [List.map_map]
  exact List.map_congr_left fun step _ => toFr_ofNat_val step.2

theorem params_provable : params.Provable where
  allowFits := by decide
  allowed := by simp [params]
  denyFits := by decide
  sorted := by simp [params, Decimal.toBigInt_ofNat]
  inRange := by simp [params, Decimal.toBigInt_ofNat]
  first := ⟨_, rfl, by simp [params, Decimal.toBigInt_ofNat]⟩
  last := ⟨_, rfl, by simp [params, Decimal.toBigInt_ofNat]⟩
  notDenied := by simp [params, Decimal.toBigInt_ofNat]

/-- Both halves on the lists of the circuit's test: the label is in the
one tree and not in the other, and the builder returns a witness. -/
theorem deny_list_test :
    (∃ i < 2 ^ 2, assignment.label = padded allowLeaves i)
      ∧ (∀ j, padded denyTree.leaves j ≠ assignment.label)
      ∧ ∃ w, buildComplianceWitness program params = .ok w
        ∧ ∃ allowBits loBits hiBits,
          (w.assign allowBits loBits hiBits).Satisfied hash 2 2 252 := by
  obtain ⟨hsat, hallowRoot, hdenyRoot, hinputs, hallow, hdeny, hnodup⟩ :=
    evaluated
  have hsound := (deny_list hash).1 2 (by omega) 2 (by omega) 252 le_rfl
    _ (tabulated_injOn table.right hnodup) (padded allowLeaves) denyTree
    assignment (by rintro _ ⟨l, hl, i, hi, rfl⟩; exact hallow l hl i hi)
    (by rintro _ ⟨l, hl, i, hi, rfl⟩; exact hdeny l hl i hi) hinputs hsat
    hallowRoot hdenyRoot
  obtain ⟨w, hw, -, -, -, hwsat⟩ :=
    (deny_list hash).2 program program_zeroPadded params params_provable
  exact ⟨hsound.1, hsound.2, w, hw, hwsat⟩

end ComplianceTest

end Lumix
