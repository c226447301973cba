/-
The gadgets the circuits are built from: circomlib's range check and
comparators, the asset-bound note commitment, and Merkle openings. A
gadget is the proposition its constraints put on the signals it
touches; the signals inside it that nothing else reads are quantified
away.

The integer meaning of the range gadgets is `inRange_iff` and
`lessThan_iff`. The latter is where fields and integers part: the
comparator bounds a difference modulo the order, so it compares two
integers only when that difference cannot wrap.

Hash inputs are listed beside each gadget (`hashInputs`), since the
protocol's security argument is about the inputs that are really hashed.
-/
import Lumix.Basic.Word
import Lumix.Lib.Merkle

namespace Lumix

open Digits

variable (H : List Fr → Fr)

-- ============================================================= ranges

/-- circomlib `Num2Bits(n)`: `out` are bits and spell `x`. -/
def Num2Bits (n : ℕ) (x : Fr) (out : List Bool) : Prop :=
  out.length = n ∧ ((bitsVal out : ℕ) : Fr) = x

instance (n : ℕ) (x : Fr) (out : List Bool) :
    Decidable (Num2Bits n x out) :=
  inferInstanceAs (Decidable (_ ∧ _))

/-- A `Num2Bits(n)` whose output nothing reads. -/
def InRange (n : ℕ) (x : Fr) : Prop := ∃ out, Num2Bits n x out

/-- circomlib `LessThan(n)` with `out === 1`: `a + 2^n - b` in `n + 1`
bits, the top one clear. -/
def LessThan (n : ℕ) (a b : Fr) : Prop :=
  ∃ out, Num2Bits (n + 1) (a + 2 ^ n - b) out ∧ out[n]? = some false

/-- circomlib `LessEqThan(n)` with `out === 1`. -/
def LessEqThan (n : ℕ) (a b : Fr) : Prop := LessThan n a (b + 1)

/-- circomlib `GreaterEqThan(n)` with `out === 1`. -/
def GreaterEqThan (n : ℕ) (a b : Fr) : Prop := LessThan n b (a + 1)

theorem inRange_iff {n : ℕ} {x : Fr} : InRange n x ↔ x.val < 2 ^ n := by
  constructor
  · rintro ⟨out, hlen, rfl⟩
    rw [ZMod.val_natCast]
    calc bitsVal out % r ≤ bitsVal out := Nat.mod_le _ _
      _ < 2 ^ out.length := bitsVal_lt out
      _ = 2 ^ n := by rw [hlen]
  · intro hx
    refine ⟨bitsOf n x.val, length_bitsOf n x.val, ?_⟩
    rw [bitsVal_bitsOf hx]
    exact ZMod.natCast_zmod_val x

theorem lessThan_iff {n : ℕ} {a b : Fr} :
    LessThan n a b ↔ (a + 2 ^ n - b).val < 2 ^ n := by
  constructor
  · rintro ⟨out, ⟨hlen, hval⟩, htop⟩
    rw [← hval, ZMod.val_natCast]
    calc bitsVal out % r ≤ bitsVal out := Nat.mod_le _ _
      _ < 2 ^ n := bitsVal_lt_of_top hlen htop
  · intro hx
    refine ⟨bitsOf (n + 1) (a + 2 ^ n - b).val,
      ⟨length_bitsOf _ _, ?_⟩, bitsOf_top hx⟩
    rw [bitsVal_bitsOf (by rw [Nat.pow_succ]; omega)]
    exact ZMod.natCast_zmod_val _

/-- A comparator accepts what compares inside its width. -/
theorem lessThan_of_lt {n x y : ℕ} (hn : n ≤ 253) (hy : y ≤ 2 ^ n)
    (hlt : x < y) : LessThan n (x : Fr) (y : Fr) := by
  have hr := two_pow_254_lt_r
  have hpow : (2 : ℕ) ^ n ≤ 2 ^ 253 := Nat.pow_le_pow_right two_pos hn
  have hcast : (x : Fr) + 2 ^ n - y = ((x + 2 ^ n - y : ℕ) : Fr) := by
    rw [Nat.cast_sub (by omega), Nat.cast_add, Nat.cast_pow]
    rfl
  rw [lessThan_iff, hcast, ZMod.val_natCast, Nat.mod_eq_of_lt (by omega)]
  omega

theorem greaterEqThan_of_le {n x y : ℕ} (hn : n ≤ 253) (hx : x < 2 ^ n)
    (hle : y ≤ x) : GreaterEqThan n (x : Fr) (y : Fr) := by
  unfold GreaterEqThan
  rw [← Nat.cast_succ]
  exact lessThan_of_lt hn hx (by omega)

instance (n : ℕ) (x : Fr) : Decidable (InRange n x) :=
  decidable_of_iff _ inRange_iff.symm

instance (n : ℕ) (a b : Fr) : Decidable (LessThan n a b) :=
  decidable_of_iff _ lessThan_iff.symm

instance (n : ℕ) (a b : Fr) : Decidable (LessEqThan n a b) :=
  inferInstanceAs (Decidable (LessThan _ _ _))

instance (n : ℕ) (a b : Fr) : Decidable (GreaterEqThan n a b) :=
  inferInstanceAs (Decidable (LessThan _ _ _))

-- ============================================================== notes

/-- The opening of a note commitment. -/
structure Note where
  assetId : Fr
  value : Fr
  label : Fr
  nullifier : Fr
  secret : Fr
  deriving DecidableEq

namespace Note

/-- The asset id of the testnet USDC contract,
`hash_to_field(sha256(strkey))`. -/
def usdcId : Fr :=
  0xb29782765a764c30ce5abc1136d67fd7ea60f4229e74dd9c8ea26f5dcf7d9a

/-- The half of a commitment that is secret. -/
def precommitment (n : Note) : Fr := H [n.nullifier, n.secret]

/-- The half that says what the note is worth. -/
def assetValueLabel (n : Note) : Fr := H [n.assetId, n.value, n.label]

/-- `CommitmentHasher.commitment`. -/
def commitment (n : Note) : Fr :=
  H [n.assetValueLabel H, n.precommitment H]

/-- The domain-separated public nullifier,
`Poseidon(nullifier, poolId, chainId)`. -/
def nullifierHash (n : Note) (poolId chainId : Fr) : Fr :=
  H [n.nullifier, poolId, chainId]

/-- What `CommitmentHasher` hashes. The one-input hash of the nullifier
feeds an output no circuit uses. -/
def hashInputs (n : Note) : List (List Fr) :=
  [[n.nullifier], [n.nullifier, n.secret], [n.assetId, n.value, n.label],
    [n.assetValueLabel H, n.precommitment H]]

variable {H}

/-- A commitment binds its whole opening where no inputs collide. -/
theorem eq_of_commitment_eq {S : Set (List Fr)} (hinj : Set.InjOn H S)
    {n m : Note} (hn : ∀ x ∈ n.hashInputs H, x ∈ S)
    (hm : ∀ x ∈ m.hashInputs H, x ∈ S)
    (h : n.commitment H = m.commitment H) : n = m := by
  have htop := hinj (hn _ (by simp [hashInputs]))
    (hm _ (by simp [hashInputs])) h
  simp only [List.cons.injEq, and_true] at htop
  obtain ⟨havl, hpre⟩ := htop
  have h3 := hinj (hn _ (by simp [hashInputs]))
    (hm _ (by simp [hashInputs])) havl
  have h2 := hinj (hn _ (by simp [hashInputs]))
    (hm _ (by simp [hashInputs])) hpre
  simp only [List.cons.injEq, and_true] at h3 h2
  obtain ⟨hasset, hvalue, hlabel⟩ := h3
  obtain ⟨hnull, hsecret⟩ := h2
  cases n
  cases m
  simp only at hasset hvalue hlabel hnull hsecret
  rw [hasset, hvalue, hlabel, hnull, hsecret]

end Note

-- =========================================================== openings

/-- The private signals of one `MerkleProof`. -/
structure Opening where
  leafIndex : Fr
  siblings : List Fr
  indices : List Bool

namespace Opening

/-- Two-input Poseidon. -/
def hash2 (left right : Fr) : Fr := H [left, right]

/-- The (side, sibling) steps of an opening, leaf level first. -/
def path (o : Opening) : List (Bool × Fr) := o.indices.zip o.siblings

/-- The pairs a path hashes. -/
def hashInputs (o : Opening) (leaf : Fr) : List (List Fr) :=
  (Merkle.climbPairs (hash2 H) leaf o.path).map fun p => [p.1, p.2]

/-- The all-padding nodes of `depth` levels, from the node `pad` up. -/
def padNodes : (depth : ℕ) → (pad : Fr) → List Fr
  | 0, _ => []
  | depth + 1, pad => pad :: padNodes depth (H [pad, pad])

/-- The opening of the only leaf of a tree. -/
def only (depth : ℕ) : Opening where
  leafIndex := 0
  siblings := padNodes H depth 0
  indices := List.replicate depth false

/-- The opening of one of two leaves; `right` says which, `other` is the
leaf beside it. -/
def ofTwo (depth : ℕ) (right : Bool) (other : Fr) : Opening where
  leafIndex := right.toNat
  siblings := other :: padNodes H (depth - 1) (H [0, 0])
  indices := right :: List.replicate (depth - 1) false

/-- The root an opening leads to. -/
def root (o : Opening) (leaf : Fr) : Fr := Merkle.climb (hash2 H) leaf o.path

end Opening

open Opening

/-- `MerkleProof(depth)` from `leaf` to `out`. -/
def MerkleProof (depth : ℕ) (leaf : Fr) (o : Opening) (out : Fr) : Prop :=
  o.siblings.length = depth ∧ Num2Bits depth o.leafIndex o.indices
    ∧ Merkle.climb (hash2 H) leaf o.path = out

instance (depth : ℕ) (leaf : Fr) (o : Opening) (out : Fr) :
    Decidable (MerkleProof H depth leaf o out) :=
  inferInstanceAs (Decidable (_ ∧ _ ∧ _))

variable {H}

theorem MerkleProof.length_path {depth : ℕ} {leaf out : Fr} {o : Opening}
    (h : MerkleProof H depth leaf o out) : o.path.length = depth := by
  obtain ⟨hsib, ⟨hbits, -⟩, -⟩ := h
  unfold Opening.path
  rw [List.length_zip, hsib, hbits, Nat.min_self]

end Lumix
