/-
The committee's threshold. `verify_committee_threshold` walks two
parallel vectors, looking each key up in the committee and among the
keys already seen, and unwraps the signature at the same place, so a
short signature vector is found out by a trap in the middle of the loop.

`verifySigners_eq_ok` is the loop's specification. From it
`SignedBy` is exactly what the check accepts, and two thirds of one
committee overlap in at least a third.
-/
import Mathlib.Algebra.Order.Floor.Div
import Mathlib.Data.Finset.Card
import Mathlib.GroupTheory.GroupAction.Ring
import Lumix.Pool.Testnet

namespace Lumix

open Exec

-- ============================================================ the loop

/-- The loop runs through, having verified every key: none is repeated
or already seen, all are in the committee, and each has a valid signature
at its place. -/
theorem verifySigners_eq_ok {env : Env} {committee : List Word}
    {msg : Bytes} {signers : List Word} {signatures : List Signature}
    {seen : List Word} {verified : ℕ} :
    verifySigners env committee msg signers signatures seen = .ok verified
      ↔ verified = signers.length ∧ signers.Nodup
        ∧ (∀ pk ∈ signers, pk ∈ committee ∧ pk ∉ seen)
        ∧ signers.length ≤ signatures.length
        ∧ ∀ q ∈ signers.zip signatures,
          env.ed25519Verify q.1 msg q.2 = true := by
  induction signers generalizing signatures seen verified with
  | nil =>
      simp only [verifySigners, pure_eq_ok]
      constructor
      · rintro rfl
        simp
      · rintro ⟨rfl, -⟩
        rfl
  | cons pk pks ih =>
      cases signatures with
      | nil =>
          simp only [verifySigners, bind_eq_ok, panicIf_eq_ok,
            orPanic_eq_ok, List.head?_nil]
          simp
      | cons s rest =>
          simp only [verifySigners, bind_eq_ok, panicIf_eq_ok,
            orPanic_eq_ok, pure_eq_ok, List.head?_cons, List.tail_cons,
            Option.some.injEq, ih]
          constructor
          · rintro ⟨_, hreg, _, hnew, _, rfl, _, hsig, _,
              ⟨rfl, hnodup, hmem, hlen, hvalid⟩, rfl⟩
            refine ⟨rfl, List.nodup_cons.mpr ⟨?_, hnodup⟩, ?_,
              Nat.succ_le_succ hlen, ?_⟩
            · intro hpk
              exact (hmem pk hpk).2 (by simp)
            · intro key hkey
              rcases List.mem_cons.mp hkey with rfl | hkey
              · exact ⟨not_not.mp hreg, hnew⟩
              · obtain ⟨hin, hout⟩ := hmem key hkey
                exact ⟨hin, fun hseen => hout (by simp [hseen])⟩
            · intro q hq
              rcases List.mem_cons.mp hq with rfl | hq
              · simpa using hsig
              · exact hvalid q hq
          · rintro ⟨rfl, hnodup, hmem, hlen, hvalid⟩
            obtain ⟨hnew, hnodup⟩ := List.nodup_cons.mp hnodup
            obtain ⟨hin, hout⟩ := hmem pk (List.mem_cons_self ..)
            refine ⟨(), not_not.mpr hin, (), hout, s, rfl, (), ?_, _,
              ⟨rfl, hnodup, ?_, Nat.le_of_succ_le_succ hlen, ?_⟩, rfl⟩
            · have hsig := hvalid (pk, s) (List.mem_cons_self ..)
              simpa using hsig
            · intro key hkey
              obtain ⟨hin', hout'⟩ :=
                hmem key (List.mem_cons_of_mem _ hkey)
              refine ⟨hin', ?_⟩
              intro hseen
              rcases List.mem_append.mp hseen with hseen | hseen
              · exact hout' hseen
              · exact hnew (List.mem_singleton.mp hseen ▸ hkey)
            · intro q hq
              exact hvalid q (List.mem_cons_of_mem _ hq)

-- ======================================================= the threshold

/-- At least two thirds of the committee, each once, signed the batch
hash. -/
structure SignedBy (env : Env) (committee : List Word) (batchHash : Word)
    (signers : List Word) (signatures : List Signature) : Prop where
  distinct : signers.Nodup
  members : ∀ pk ∈ signers, pk ∈ committee
  enough : (2 * committee.length) ⌈/⌉ 3 ≤ signers.length
  paired : signers.length ≤ signatures.length
  valid : ∀ q ∈ signers.zip signatures,
    env.ed25519Verify q.1 batchHash.toBytes q.2 = true

/-- The check accepts exactly that. -/
theorem verifyCommitteeThreshold_eq_ok {env : Env} {p : Pool}
    {committee : List Word} (hstored : p.committee = some committee)
    (hpos : 1 ≤ committee.length) (hlt : committee.length < 2 ^ 30)
    {batchHash : Word} {signers : List Word} {signatures : List Signature} :
    verifyCommitteeThreshold env p batchHash signers signatures = .ok ()
      ↔ SignedBy env committee batchHash signers signatures := by
  have hdouble : InU32 (committee.length * 2) := by
    unfold InU32
    omega
  have hraise : InU32 (committee.length * 2 + 2) := by
    unfold InU32
    omega
  have hceil : (2 * committee.length) ⌈/⌉ 3
      = (committee.length * 2 + 2) / 3 := by
    rw [Nat.ceilDiv_eq_add_pred_div, Nat.mul_comm]
    rfl
  simp only [verifyCommitteeThreshold, bind_eq_ok, orPanic_eq_ok,
    panicIf_eq_ok, u32_eq_ok, verifySigners_eq_ok, hstored,
    Option.some.injEq]
  constructor
  · rintro ⟨_, rfl, _, -, _, ⟨-, rfl⟩, _, ⟨-, rfl⟩, _, -, _,
      ⟨rfl, hnodup, hmem, hlen, hvalid⟩, henough⟩
    exact ⟨hnodup, fun pk hpk => (hmem pk hpk).1,
      by rw [hceil]; exact not_lt.mp henough, hlen, hvalid⟩
  · rintro ⟨hnodup, hmem, henough, hlen, hvalid⟩
    rw [hceil] at henough
    refine ⟨committee, rfl, (), by omega, _, ⟨hdouble, rfl⟩, _,
      ⟨hraise, rfl⟩, (), ?_, _, ⟨rfl, hnodup, ?_, hlen, hvalid⟩, ?_⟩
    · rw [not_or, not_lt, not_lt]
      exact ⟨henough, henough.trans hlen⟩
    · exact fun pk hpk => ⟨hmem pk hpk, List.not_mem_nil⟩
    · exact not_lt.mpr henough

/-- Two quorums of one committee share at least a third of it. -/
theorem SignedBy.overlap {env : Env} {committee : List Word}
    {batchHash batchHash' : Word} {signers signers' : List Word}
    {signatures signatures' : List Signature}
    (h : SignedBy env committee batchHash signers signatures)
    (h' : SignedBy env committee batchHash' signers' signatures') :
    committee.length ⌈/⌉ 3
      ≤ (signers.toFinset ∩ signers'.toFinset).card := by
  have hcard := List.toFinset_card_of_nodup h.distinct
  have hcard' := List.toFinset_card_of_nodup h'.distinct
  have hunion : (signers.toFinset ∪ signers'.toFinset).card
      ≤ committee.length := by
    refine le_trans (Finset.card_le_card ?_)
      (List.toFinset_card_le committee)
    intro pk hpk
    rw [Finset.mem_union, List.mem_toFinset, List.mem_toFinset] at hpk
    rw [List.mem_toFinset]
    rcases hpk with hpk | hpk
    · exact h.members pk hpk
    · exact h'.members pk hpk
  have hsum := Finset.card_union_add_card_inter signers.toFinset
    signers'.toFinset
  have henough := h.enough
  have henough' := h'.enough
  rw [ceilDiv_le_iff_le_mul (by omega)] at henough henough' ⊢
  omega

-- ======================================================== settlements

variable {L : Type} [TokenHost L]

/-- The committee threshold. Against a stored committee of 1 to
`2 ^ 30 - 1` keys, the check returns exactly if at least `ceil(2n/3)`
distinct members signed the batch hash, signature by signature; any two
such sets share at least `ceil(n/3)` members; and every accepted
committee settlement has one. -/
theorem committee_threshold {env : Env} {w : World L}
    {committee : List Word} (hstored : w.pool.committee = some committee)
    (hpos : 1 ≤ committee.length) (hlt : committee.length < 2 ^ 30) :
    (∀ batchHash signers signatures,
      verifyCommitteeThreshold env w.pool batchHash signers signatures
          = .ok ()
        ↔ SignedBy env committee batchHash signers signatures)
      ∧ (∀ (batchHash batchHash' : Word) (signers signers' : List Word)
          (signatures signatures' : List Signature),
        verifyCommitteeThreshold env w.pool batchHash signers signatures
          = .ok () →
        verifyCommitteeThreshold env w.pool batchHash' signers' signatures'
          = .ok () →
        committee.length ⌈/⌉ 3
          ≤ (signers.toFinset ∩ signers'.toFinset).card)
      ∧ ∀ ctx a w', exec env ctx w (.mpcSettle a) = .ok w'
          ∨ exec env ctx w (.mpcSettlePriced a) = .ok w' →
        SignedBy env committee a.batchHash a.signerPubkeys
          a.signatures := by
  have hcheck : ∀ batchHash signers signatures,
      verifyCommitteeThreshold env w.pool batchHash signers signatures
          = .ok ()
        ↔ SignedBy env committee batchHash signers signatures :=
    fun _ _ _ => verifyCommitteeThreshold_eq_ok hstored hpos hlt
  refine ⟨hcheck, ?_, ?_⟩
  · intro batchHash batchHash' signers signers' signatures signatures' h h'
    exact ((hcheck ..).mp h).overlap ((hcheck ..).mp h')
  · intro ctx a w' h
    rcases h with h | h
    · obtain ⟨hadm, -⟩ := exec_ok h trivial
      exact (hcheck ..).mp hadm.terms
    · obtain ⟨hadm, -⟩ := exec_ok h trivial
      exact (hcheck ..).mp hadm.terms

section Runs

open Run Testnet

namespace Testnet

/-- A scheme of the test: a key's signature is the key over the
message. -/
def sealWith (key : Word) (message : Bytes) : Signature :=
  BitVec.ofNat 512
    (2 ^ 256 * key.toNat + Digits.beVal (message.take 32))

/-- The testnet host with that scheme for ed25519. -/
def sealEnv : Env :=
  { env with
    ed25519Verify := fun key message signature =>
      decide (signature = sealWith key message) }

/-- The keys of a committee of three. -/
def threeKeys : List Word := [0x31, 0x32, 0x33]

/-- The testnet pool under a committee of three. -/
def ofThree : World SacLedger :=
  run (step sealEnv) (genesis 100 0)
    (setup ++ [configure (.setCommittee threeKeys)])

theorem ofThree_committee : ofThree.pool.committee = some threeKeys := by
  decide +kernel

/-- Two or more of the three keys sign for their committee. -/
theorem signedBy_sealWith {signers : List Word} (hash : Word)
    (hnodup : signers.Nodup) (hsub : ∀ pk ∈ signers, pk ∈ threeKeys)
    (htwo : 2 ≤ signers.length) :
    SignedBy sealEnv threeKeys hash signers
      (signers.map (sealWith · hash.toBytes)) where
  distinct := hnodup
  members := hsub
  enough := by
    have htwoThirds : (2 * threeKeys.length) ⌈/⌉ 3 = 2 := by decide
    exact htwoThirds.trans_le htwo
  paired := (List.length_map _).ge
  valid := by
    intro q hq
    rw [List.zip_map_right, List.mem_map] at hq
    obtain ⟨⟨pk, pk'⟩, hmem, rfl⟩ := hq
    rw [List.zip_eq_zipWith] at hmem
    have hsame : pk' ∈ signers ∧ pk' = pk := by simpa using hmem
    obtain ⟨-, rfl⟩ := hsame
    simp [sealEnv]

end Testnet

/-- A committee of three, two batches and two pairs of signers: both
are accepted, the pairs share a member, and one signature alone is
refused. -/
theorem committee_threshold_testnet :
    verifyCommitteeThreshold sealEnv ofThree.pool 0x200 [0x31, 0x32]
        ([0x31, 0x32].map (sealWith · (0x200 : Word).toBytes)) = .ok ()
      ∧ verifyCommitteeThreshold sealEnv ofThree.pool 0x300 [0x33, 0x32]
        ([0x33, 0x32].map (sealWith · (0x300 : Word).toBytes)) = .ok ()
      ∧ 1 ≤ (([0x31, 0x32] : List Word).toFinset
          ∩ ([0x33, 0x32] : List Word).toFinset).card
      ∧ verifyCommitteeThreshold sealEnv ofThree.pool 0x200 [0x31]
          [sealWith 0x31 (0x200 : Word).toBytes] ≠ .ok () := by
  have hpos : 1 ≤ threeKeys.length := by decide
  have hlt : threeKeys.length < 2 ^ 30 := by decide
  have hthird : threeKeys.length ⌈/⌉ 3 = 1 := by decide
  have htwoThirds : (2 * threeKeys.length) ⌈/⌉ 3 = 2 := by decide
  obtain ⟨hcheck, hoverlap, -⟩ := @committee_threshold SacLedger _ sealEnv
    ofThree threeKeys ofThree_committee hpos hlt
  have hsub : ∀ pk ∈ ([0x31, 0x32] : List Word), pk ∈ threeKeys := by
    simp [threeKeys]
  have hsub' : ∀ pk ∈ ([0x33, 0x32] : List Word), pk ∈ threeKeys := by
    simp [threeKeys]
  have hfirst := (hcheck 0x200 [0x31, 0x32] _).mpr
    (signedBy_sealWith 0x200 (by decide) hsub (by decide))
  have hsecond := (hcheck 0x300 [0x33, 0x32] _).mpr
    (signedBy_sealWith 0x300 (by decide) hsub' (by decide))
  have hshared := hoverlap _ _ _ _ _ _ hfirst hsecond
  rw [hthird] at hshared
  refine ⟨hfirst, hsecond, hshared, fun h => ?_⟩
  have hfew := ((hcheck 0x200 [0x31]
    [sealWith 0x31 (0x200 : Word).toBytes]).mp h).enough
  rw [htwoThirds] at hfew
  exact absurd hfew (by decide)

end Runs

end Lumix
