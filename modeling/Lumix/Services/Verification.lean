/-
One committee check off the chain and one on it.

The coordinator and the relayer check a batch with `verifySignedBatch`;
the pool checks the call made of it with `verify_committee_threshold`.
The first compares keys as text, takes the hash from the matches and
counts a set; the second compares words, is given the hash and walks two
vectors. `verifySignedBatch_eq_ok` says what the first accepts, and
`verifiedBy_of_verified` that the signers and signatures of the call then
are what the second asks for, but for the verification itself: the
library off the chain and the host need not accept the same signatures.
So the pool can refuse what the relayer has verified only where the host
refuses a signature (`relayed_signedBy`), and every batch a committee
serves passes both checks, whose signatures its nodes made
(`served_batches_verify`).
-/
import Lumix.Committee.Package
import Lumix.Committee.Sessions
import Lumix.Pool.Quorum
import Lumix.Services.Relayer

namespace Lumix.Services

open Committee Exec Text Proving Run Digits

-- =============================================================== texts

/-- A hexadecimal digit in lower case. -/
theorem toLower_of_digitValue {c : Char} {d : ℕ}
    (h : digitValue c = some d) : c.toLower = Nat.digitChar d := by
  have hall : ∀ n < 127, ∀ d < 16, digitValue (Char.ofNat n) = some d →
      (Char.ofNat n).toLower = Nat.digitChar d := by decide +kernel
  obtain ⟨hd, -, hhigh⟩ := digitValue_range h
  have hc := hall c.toNat (by omega) d hd
  rw [Char.ofNat_toNat] at hc
  exact hc h

/-- Hexadecimal in lower case is the bytes' own. -/
theorem toLower_of_readBytes {cs : List Char} {bytes : Bytes}
    (h : readBytes cs = some bytes) :
    cs.map Char.toLower = bytes.flatMap byteHex := by
  induction cs using readBytes.induct generalizing bytes with
  | case1 =>
      cases h
      rfl
  | case2 c => cases h
  | case3 hi lo cs ih =>
      obtain ⟨d, e, rest, hd, he, hrest, rfl⟩ := readBytes_cons h
      obtain ⟨hd16, -, -⟩ := digitValue_range hd
      obtain ⟨he16, -, -⟩ := digitValue_range he
      have hbyte : (UInt8.ofNat (16 * d + e)).toNat = 16 * d + e := by
        rw [UInt8.toNat_ofNat']
        exact Nat.mod_eq_of_lt (by omega)
      have hhigh : (16 * d + e) / 16 = d := by omega
      have hlow : (16 * d + e) % 16 = e := by omega
      rw [List.map_cons, List.map_cons, ih hrest, List.flatMap_cons,
        byteHex, hbyte, hhigh, hlow, toLower_of_digitValue hd,
        toLower_of_digitValue he]
      rfl

/-- A hexadecimal text in lower case is written from its bytes. -/
theorem toLowerCase_of_hexBytes {s : String} {bytes : Bytes}
    (h : hexBytes s = some bytes) : toLowerCase s = bytesHex bytes := by
  rw [toLowerCase, bytesHex, toLower_of_readBytes h]

/-- 32 bytes are a word's. -/
theorem toBytes_ofBytes {bytes : Bytes} (h : bytes.length = 32) :
    (Word.ofBytes bytes).toBytes = bytes := by
  have hlt := beVal_lt bytes
  rw [h] at hlt
  unfold Word.ofBytes Word.toBytes
  rw [BitVec.toNat_ofNat, Nat.mod_eq_of_lt (by simpa using hlt), ← h,
    beBytes_beVal]

/-- A word argument is hexadecimal of the word. -/
theorem wordArg_eq_some {s : String} {w : Word}
    (h : wordArg s = some w) : hexBytes s = some w.toBytes := by
  unfold wordArg bytesN at h
  obtain ⟨bytes, hbytes, rfl⟩ := Option.map_eq_some_iff.mp h
  rw [Option.filter_eq_some_iff, decide_eq_true_eq] at hbytes
  obtain ⟨hread, hlen⟩ := hbytes
  rw [hread, toBytes_ofBytes hlen]

/-- A word's hexadecimal is read as the word. -/
theorem wordArg_bytesHex (w : Word) :
    wordArg (bytesHex w.toBytes) = some w := by
  unfold wordArg bytesN
  rw [hexBytes_bytesHex, Option.filter_some, if_pos (by simp),
    Option.map_some, Word.ofBytes_toBytes]

/-- Bytes are written without a prefix. -/
theorem stripHex_bytesHex (bytes : Bytes) :
    stripHex (bytesHex bytes) = bytesHex bytes := by
  have hx : ∀ d < 16, Nat.digitChar d ≠ 'x' := by decide
  have hprefix : hasPrefix0x (bytesHex bytes) = false := by
    unfold hasPrefix0x bytesHex
    rw [String.toList_ofList]
    cases bytes with
    | nil => rfl
    | cons b bytes =>
        have hlow := hx (b.toNat % 16) (Nat.mod_lt _ (by decide))
        rw [List.flatMap_cons, byteHex]
        split
        · rename_i heq
          exact absurd (List.cons.inj (List.cons.inj heq).2).1 hlow
        · rfl
  rw [stripHex, hprefix, if_neg Bool.false_ne_true]

/-- A text that Node reads 64 bytes of has no prefix. -/
theorem stripHex_of_bufferFromHex {s : String}
    (h : bufferFromHex s ≠ []) : stripHex s = s := by
  have hprefix : hasPrefix0x s = false := by
    unfold hasPrefix0x
    split
    · rename_i cs heq
      exact absurd (show bufferFromHex s = [] by
        rw [bufferFromHex, heq]
        rfl) h
    · rfl
  rw [stripHex, hprefix, if_neg Bool.false_ne_true]

-- ================================================= what is accepted

/-- The loop over the signatures runs through. -/
theorem checkSigners_eq_some
    {verifySig : NodeSignature → Except String Bool}
    {expected seen seen' : List String} {sigs : List NodeSignature} :
    checkSigners verifySig expected seen sigs = .ok (some seen')
      ↔ (∀ sig ∈ sigs, sig.signingPubkey ∈ expected
          ∧ sig.signingPubkey ∉ seen ∧ verifySig sig = .ok true)
        ∧ (sigs.map (·.signingPubkey)).Nodup
        ∧ seen' = (sigs.map (·.signingPubkey)).reverse ++ seen := by
  induction sigs generalizing seen with
  | nil =>
      rw [checkSigners, pure_eq_ok, Option.some.injEq]
      simp [eq_comm]
  | cons sig rest ih =>
      rw [checkSigners]
      by_cases hexp : sig.signingPubkey ∈ expected
      · rw [if_neg (not_not.mpr hexp)]
        by_cases hseen : sig.signingPubkey ∈ seen
        · rw [if_pos hseen]
          constructor
          · intro h
            cases h
          · intro h
            exact absurd hseen (h.1 sig List.mem_cons_self).2.1
        · rw [if_neg hseen, bind_eq_ok]
          constructor
          · rintro ⟨valid, hvalid, h⟩
            cases valid with
            | false => cases h
            | true =>
                obtain ⟨hall, hnodup, rfl⟩ := ih.mp h
                refine ⟨List.forall_mem_cons.mpr
                  ⟨⟨hexp, hseen, hvalid⟩, fun s hs => ?_⟩, ?_, ?_⟩
                · obtain ⟨hin, hout, hv⟩ := hall s hs
                  exact ⟨hin, fun hmem =>
                    hout (List.mem_cons_of_mem _ hmem), hv⟩
                · rw [List.map_cons, List.nodup_cons]
                  refine ⟨fun hmem => ?_, hnodup⟩
                  obtain ⟨s, hs, heq⟩ := List.mem_map.mp hmem
                  exact (hall s hs).2.1 (heq ▸ List.mem_cons_self)
                · simp
          · rintro ⟨hall, hnodup, rfl⟩
            obtain ⟨⟨-, -, hvalid⟩, hrest⟩ :=
              List.forall_mem_cons.mp hall
            rw [List.map_cons, List.nodup_cons] at hnodup
            refine ⟨true, hvalid, ih.mpr ⟨fun s hs => ?_, hnodup.2, ?_⟩⟩
            · obtain ⟨hin, hout, hv⟩ := hrest s hs
              refine ⟨hin, fun hmem => ?_, hv⟩
              rcases List.mem_cons.mp hmem with heq | hmem
              · exact hnodup.1 (heq ▸ List.mem_map_of_mem hs)
              · exact hout hmem
            · simp
      · rw [if_pos hexp]
        constructor
        · intro h
          cases h
        · intro h
          exact absurd (h.1 sig List.mem_cons_self).1 hexp

/-- What the check off the chain accepts. -/
theorem verifySignedBatch_eq_ok
    {verifySig : String → List MatchResult → NodeSignature →
      Except String Bool}
    {batchId : String} {matchResults : List MatchResult}
    {sigs : List NodeSignature} {committee : List CommitteeNodeInfo} :
    verifySignedBatch verifySig batchId matchResults sigs committee
        = .ok true
      ↔ (∀ sig ∈ sigs, sig.signingPubkey ∈ committee.map (·.signingPubkey)
          ∧ verifySig batchId matchResults sig = .ok true)
        ∧ (sigs.map (·.signingPubkey)).Nodup
        ∧ threshold committee.length ≤ sigs.length := by
  rw [verifySignedBatch, bind_eq_ok]
  constructor
  · rintro ⟨seen, hloop, h⟩
    cases seen with
    | none => cases h
    | some seen =>
        obtain ⟨hall, hnodup, rfl⟩ := checkSigners_eq_some.mp hloop
        refine ⟨fun sig hsig => ⟨(hall sig hsig).1, (hall sig hsig).2.2⟩,
          hnodup, ?_⟩
        simpa using h
  · rintro ⟨hall, hnodup, henough⟩
    refine ⟨some ((sigs.map (·.signingPubkey)).reverse ++ []),
      checkSigners_eq_some.mpr ⟨fun sig hsig => ?_, hnodup, rfl⟩, ?_⟩
    · exact ⟨(hall sig hsig).1, List.not_mem_nil, (hall sig hsig).2⟩
    · simpa using henough

-- ====================================================== on the chain

/-- The committee's keys as the pool stores them, in the text the check
off the chain compares. -/
def SameKeys (committee : List Word) (nodes : List CommitteeNodeInfo) :
    Prop :=
  nodes.map (·.signingPubkey)
    = committee.map fun pk => bytesHex pk.toBytes

variable {sha256 : Bytes → Word}
  {verify : Bytes → Signature → Word → Bool}

/-- A verified signature under a key of the committee, as its bytes. -/
theorem verified_bytes {batchId : String}
    {matchResults : List MatchResult} {sig : NodeSignature} {pk : Word}
    (hpk : sig.signingPubkey = bytesHex pk.toBytes)
    (h : verifyNodeSignature sha256 verify batchId matchResults sig
      = .ok true) :
    (bufferFromHex sig.signature).length = 64
      ∧ verify (batchMessage sha256 batchId matchResults)
        (BitVec.ofNat 512 (beVal (bufferFromHex sig.signature))) pk
        = true := by
  simp only [verifyNodeSignature, detachedVerify, bind_eq_ok,
    panicIf_eq_ok, pure_eq_ok, hpk, bufferFromHex_bytesHex,
    Word.ofBytes_toBytes] at h
  obtain ⟨-, hlen, -, -, hvalid⟩ := h
  exact ⟨not_not.mp hlen, hvalid⟩

/-- Its arguments on the command line. -/
theorem verified_args {batchId : String}
    {matchResults : List MatchResult} {sig : NodeSignature} {pk : Word}
    (hpk : sig.signingPubkey = bytesHex pk.toBytes)
    (h : verifyNodeSignature sha256 verify batchId matchResults sig
      = .ok true) {pk' : Word} {s : Signature}
    (hkey : wordArg (stripHex sig.signingPubkey) = some pk')
    (hsig : signatureArg (stripHex sig.signature) = some s) :
    pk' = pk
      ∧ verify (batchMessage sha256 batchId matchResults) s pk = true := by
  obtain ⟨hlen, hvalid⟩ := verified_bytes hpk h
  have hne : bufferFromHex sig.signature ≠ [] := by
    intro hnil
    rw [hnil] at hlen
    cases hlen
  rw [hpk, stripHex_bytesHex, wordArg_bytesHex, Option.some.injEq] at hkey
  rw [stripHex_of_bufferFromHex hne, signatureArg, bytesN] at hsig
  obtain ⟨bytes, hbytes, rfl⟩ := Option.map_eq_some_iff.mp hsig
  rw [Option.filter_eq_some_iff] at hbytes
  rw [bufferFromHex_of_hexBytes hbytes.1] at hvalid
  exact ⟨hkey.symm, hvalid⟩

/-- The signatures of members that verify, as the pool is given them. -/
theorem args_of_verified {committee : List Word} {batchId : String}
    {matchResults : List MatchResult} {sigs : List NodeSignature}
    (hall : ∀ sig ∈ sigs, (∃ pk ∈ committee,
        sig.signingPubkey = bytesHex pk.toBytes)
      ∧ verifyNodeSignature sha256 verify batchId matchResults sig
        = .ok true)
    {signers : List Word} {signatures : List Signature}
    (hsigners : sigs.mapM (fun s => wordArg (stripHex s.signingPubkey))
      = some signers)
    (hsignatures : sigs.mapM (fun s => signatureArg (stripHex s.signature))
      = some signatures) :
    (∀ pk ∈ signers, pk ∈ committee)
      ∧ sigs.map (·.signingPubkey)
        = signers.map (fun pk => bytesHex pk.toBytes)
      ∧ signatures.length = sigs.length
      ∧ ∀ q ∈ signers.zip signatures,
        verify (batchMessage sha256 batchId matchResults) q.2 q.1
          = true := by
  induction sigs generalizing signers signatures with
  | nil =>
      obtain rfl := Option.some.inj hsigners
      obtain rfl := Option.some.inj hsignatures
      exact ⟨fun _ h => absurd h List.not_mem_nil, rfl, rfl,
        fun _ h => absurd h List.not_mem_nil⟩
  | cons sig sigs ih =>
      simp only [List.mapM_cons, Option.bind_eq_bind, Option.pure_def,
        Option.bind_eq_some_iff, Option.some.injEq]
        at hsigners hsignatures
      obtain ⟨pk', hpk', signers, hsigners, rfl⟩ := hsigners
      obtain ⟨s, hs, signatures, hsignatures, rfl⟩ := hsignatures
      obtain ⟨⟨⟨pk, hpk, htext⟩, hvalid⟩, hrest⟩ :=
        List.forall_mem_cons.mp hall
      obtain ⟨rfl, hverify⟩ := verified_args htext hvalid hpk' hs
      obtain ⟨hmember, htexts, hlen, hzip⟩ :=
        ih hrest hsigners hsignatures
      refine ⟨List.forall_mem_cons.mpr ⟨hpk, hmember⟩, ?_, ?_, ?_⟩
      · rw [List.map_cons, List.map_cons, htexts, htext]
      · rw [List.length_cons, List.length_cons, hlen]
      · rw [List.zip_cons_cons]
        exact List.forall_mem_cons.mpr ⟨hverify, hzip⟩

/-- What the check off the chain has found of the signatures of a call:
distinct members of the committee, at least its threshold of them, each
with a signature that the library verifies. -/
structure VerifiedBy (verify : Bytes → Signature → Word → Bool)
    (committee : List Word) (batchHash : Word) (signers : List Word)
    (signatures : List Signature) : Prop where
  distinct : signers.Nodup
  members : ∀ pk ∈ signers, pk ∈ committee
  enough : (2 * committee.length) ⌈/⌉ 3 ≤ signers.length
  paired : signers.length ≤ signatures.length
  valid : ∀ q ∈ signers.zip signatures,
    verify batchHash.toBytes q.2 q.1 = true

/-- What is left to the host is to verify each signature itself. -/
theorem VerifiedBy.signedBy_iff {committee : List Word} {batchHash : Word}
    {signers : List Word} {signatures : List Signature}
    (h : VerifiedBy verify committee batchHash signers signatures)
    (env : Env) :
    SignedBy env committee batchHash signers signatures
      ↔ ∀ q ∈ signers.zip signatures,
        env.ed25519Verify q.1 batchHash.toBytes q.2 = true :=
  ⟨fun hsigned => hsigned.valid,
    fun hvalid => ⟨h.distinct, h.members, h.enough, h.paired, hvalid⟩⟩

/-- What the relayer verified against keys that name the committee, the
pool may be shown. -/
theorem verifiedBy_of_verified {committee : List Word}
    {nodes : List CommitteeNodeInfo} (hkeys : SameKeys committee nodes)
    {batchId : String} {matchResults : List MatchResult}
    {sigs : List NodeSignature}
    (hoff : verifySignedBatch (verifyNodeSignature sha256 verify) batchId
      matchResults sigs nodes = .ok true)
    {batchHash : Word}
    (hhash : batchHash.toBytes = batchMessage sha256 batchId matchResults)
    {signers : List Word} {signatures : List Signature}
    (hsigners : sigs.mapM (fun s => wordArg (stripHex s.signingPubkey))
      = some signers)
    (hsignatures : sigs.mapM (fun s => signatureArg (stripHex s.signature))
      = some signatures) :
    VerifiedBy verify committee batchHash signers signatures := by
  obtain ⟨hall, hnodup, henough⟩ := verifySignedBatch_eq_ok.mp hoff
  obtain ⟨hmember, htexts, hlen, hzip⟩ := args_of_verified
    (fun sig hsig => by
      obtain ⟨hin, hvalid⟩ := hall sig hsig
      rw [hkeys] at hin
      obtain ⟨pk, hpk, heq⟩ := List.mem_map.mp hin
      exact ⟨⟨pk, hpk, heq.symm⟩, hvalid⟩)
    hsigners hsignatures
  have hcount : signers.length = sigs.length := by
    have hlengths := congrArg List.length htexts
    rw [List.length_map, List.length_map] at hlengths
    exact hlengths.symm
  have hsize : nodes.length = committee.length := by
    have hlengths := congrArg List.length hkeys
    rwa [List.length_map, List.length_map] at hlengths
  refine ⟨?_, hmember, ?_, ?_, hhash ▸ hzip⟩
  · rw [htexts] at hnodup
    exact hnodup.of_map _
  · rw [hcount, ceilDiv_le_iff_le_mul (by omega)]
    unfold threshold at henough
    omega
  · rw [hcount, hlen]

-- ========================================================== the relayer

/-- The keys the chain gave name its committee. -/
theorem toLowerCase_chainKeys {keys : List String} {committee : List Word}
    (h : keys.mapM wordArg = some committee) :
    SameKeys committee (keys.zipIdx.map chainNode) := by
  have htexts : keys.map toLowerCase
      = committee.map fun pk => bytesHex pk.toBytes := by
    induction keys generalizing committee with
    | nil =>
        obtain rfl := Option.some.inj h
        rfl
    | cons key keys ih =>
        simp only [List.mapM_cons, Option.bind_eq_bind, Option.pure_def,
          Option.bind_eq_some_iff, Option.some.injEq] at h
        obtain ⟨pk, hpk, rest, hrest, rfl⟩ := h
        rw [List.map_cons, List.map_cons, ih hrest,
          toLowerCase_of_hexBytes (wordArg_eq_some hpk)]
  have hzip : keys.zipIdx.map (toLowerCase ∘ Prod.fst)
      = keys.map toLowerCase := by
    rw [← List.map_map, List.zipIdx_map_fst]
  unfold SameKeys
  rw [List.map_map, ← htexts, ← hzip]
  rfl

/-- What has been checked before the call. -/
theorem processMpcSettle_verified {out : Outside} {job : SettleJob}
    {sub : Submission} (h : processMpcSettle out job = .ok sub) :
    ∃ keys, out.getCommittee sub.call.contractId sub.call.secret = .ok keys
      ∧ verifySignedBatch out.verifyNodeSignature job.batchId
          (batchMatches out job) job.signatures
          (keys.zipIdx.map chainNode) = .ok true
      ∧ sub.call.batchHash = stripHex job.batchHash
      ∧ sub.call.signerPubkeys
        = job.signatures.map (fun s => stripHex s.signingPubkey)
      ∧ sub.call.signatures
        = job.signatures.map fun s => stripHex s.signature := by
  simp only [processMpcSettle, bind_eq_ok, orPanic_eq_ok, truthy_eq_some,
    panicIf_eq_ok, pure_eq_ok] at h
  obtain ⟨pool, -, relayerSecret, -, committee, hpin, valid, hvalid, -,
    htrue, -, -, nullifierA, -, nullifierB, -, outCommitA, -, outCommitB,
    -, -, -, -, -, newRoot, -, rfl⟩ := h
  have hcommittee : onChainCommittee out pool relayerSecret
      = .ok committee := by
    unfold pinCommittee at hpin
    split at hpin
    · rename_i heq
      rw [heq, hpin]
    · cases hpin
  simp only [onChainCommittee, bind_eq_ok, panicIf_eq_ok, pure_eq_ok]
    at hcommittee
  obtain ⟨keys, hkeys, -, -, rfl⟩ := hcommittee
  rw [Bool.not_eq_false] at htrue
  exact ⟨keys, hkeys, htrue ▸ hvalid, rfl, rfl, rfl⟩

/-- What the pool can object to in the signatures of a call the relayer
makes. For every job that passes the relayer's check against the keys
`get_committee` returned, and whose batch hash is that of the matches it
was checked with, the call names enough distinct members with signatures
verified by the library, and the pool's threshold is met if and only if
the host verifies them too. -/
theorem relayed_signedBy {pool : Pool} {committee : List Word}
    (hstored : pool.committee = some committee)
    (hpos : 1 ≤ committee.length) (hlt : committee.length < 2 ^ 30)
    {out : Outside} {job : SettleJob} {sub : Submission} {a : MpcArgs}
    (hout : out.verifyNodeSignature = verifyNodeSignature sha256 verify)
    (hget : ∀ keys, out.getCommittee sub.call.contractId sub.call.secret
      = .ok keys → keys.mapM wordArg = some committee)
    (h : processMpcSettle out job = .ok sub)
    (hargs : sub.call.args = some a)
    (hhash : job.batchHash = computeBatchHash sha256 job.batchId
      ((batchMatches out job).map MatchResult.batchMatch)) :
    VerifiedBy verify committee a.batchHash a.signerPubkeys a.signatures
    ∧ ∀ env : Env,
      verifyCommitteeThreshold env pool a.batchHash a.signerPubkeys
          a.signatures = .ok ()
        ↔ ∀ q ∈ a.signerPubkeys.zip a.signatures,
          env.ed25519Verify q.1 a.batchHash.toBytes q.2 = true := by
  obtain ⟨keys, hkeys, hoff, hcallHash, hcallKeys, hcallSigs⟩ :=
    processMpcSettle_verified h
  rw [hout] at hoff
  simp only [MpcSettleCall.args, Option.bind_eq_bind,
    Option.bind_eq_some_iff, Option.some.injEq] at hargs
  obtain ⟨_, -, _, -, _, -, _, -, _, -, hash, hhashArg, signers, hsigners,
    signatures, hsignatures, _, -, _, -, rfl⟩ := hargs
  have hverified : VerifiedBy verify committee hash signers signatures := by
    refine verifiedBy_of_verified (toLowerCase_chainKeys (hget keys hkeys))
      hoff ?_ ?_ ?_
    · rw [hcallHash, hhash, computeBatchHash, stripHex_bytesHex,
        wordArg_bytesHex, Option.some.injEq] at hhashArg
      rw [batchMessage_eq, ← hhashArg]
    · rwa [hcallKeys, List.mapM_map] at hsigners
    · rwa [hcallSigs, List.mapM_map] at hsignatures
  refine ⟨hverified, fun env => ?_⟩
  rw [verifyCommitteeThreshold_eq_ok hstored hpos hlt]
  exact hverified.signedBy_iff env

section Runs

namespace Demo

/-- Signatures that are the key and the start of the message. -/
def sealWith (key : Word) (msg : Bytes) : Signature :=
  BitVec.ofNat 512 (2 ^ 256 * key.toNat + beVal (msg.take 32))

/-- The signature is the key's seal of the message. -/
def verifySeal (msg : Bytes) (sig : Signature) (key : Word) : Bool :=
  decide (sig = sealWith key msg)

/-- A node whose keys are all one number. -/
def nodeKeys (n : ℕ) : NodeKeys where
  encryptionPublicKey := BitVec.ofNat 256 n
  encryptionSecretKey := BitVec.ofNat 256 n
  signingPublicKey := BitVec.ofNat 256 n
  sign := sealWith (BitVec.ofNat 256 n)

/-- Its signatures verify. -/
theorem nodeKeys_verifies (n : ℕ) : (nodeKeys n).Verifies verifySeal :=
  fun _ => decide_eq_true rfl

/-- Every batch has one hash. -/
def digest (_ : Bytes) : Word := 0x100

/-- A host that verifies seals. -/
def sealHost : Env :=
  { Testnet.env with
    ed25519Verify := fun pk msg sig => verifySeal msg sig pk }

/-- A pool with a committee of three. -/
def sealPool : Pool :=
  { (Testnet.genesis 100 0).pool with committee := some [1, 2, 3] }

/-- The match of two coins, signed by two of a committee of three. -/
def sealedJob : SettleJob :=
  { foreseen with
    signatures := [signBatch digest "batch" [crossed]
        ⟨"node-3", nodeKeys 3⟩,
      signBatch digest "batch" [crossed] ⟨"node-1", nodeKeys 1⟩] }

/-- Their keys, as the pool gives them. -/
def chainKeys : List String :=
  [1, 2, 3].map fun key : Word => bytesHex key.toBytes

/-- The relayer's surroundings with that committee. -/
def sealedOutside : Outside :=
  { outside with
    getCommittee := fun _ _ => .ok chainKeys
    verifyNodeSignature := verifyNodeSignature digest verifySeal }

/-- Two seals are enough for the relayer. -/
theorem sealed_verified :
    verifySignedBatch (verifyNodeSignature digest verifySeal) "batch"
      [crossed] sealedJob.signatures
      (chainKeys.zipIdx.map chainNode) = .ok true := by
  refine verifySignedBatch_eq_ok.mpr
    ⟨fun sig hsig => ?_, by decide, by decide⟩
  simp only [sealedJob, List.mem_cons, List.not_mem_nil, or_false] at hsig
  rcases hsig with rfl | rfl
  · exact ⟨by decide, verify_signBatch (nodeKeys_verifies 3)⟩
  · exact ⟨by decide, verify_signBatch (nodeKeys_verifies 1)⟩

/-- The proof's texts are read. -/
theorem sealed_proof :
    ∃ proof sb, attemptProof sealedOutside sealedJob = some proof
      ∧ truthy (some proof.proofHex) = some "00"
      ∧ truthy (some proof.publicHex) = some proof.publicHex
      ∧ hexBytes proof.publicHex = some sb := by
  obtain ⟨proof, hproof, -, hproofHex, hpublicHex⟩ := crossed_proved
    (hexOut Proving.Demo.assignment.outputCommitmentA)
    (hexOut Proving.Demo.assignment.outputCommitmentB)
  obtain ⟨_, _, _, _, _, -, -, -, -, hbuild⟩ := attemptProof_some hproof
  obtain ⟨_, _, sb, _, _, hsignals⟩ :=
    proof_signals Proving.Demo.tools_faithful hbuild
  refine ⟨proof, sb, hproof, ?_, ?_, hsignals.bytes⟩
  · rw [truthy_eq_some, hproofHex]
    exact ⟨rfl, by decide⟩
  · exact truthy_eq_some.mpr ⟨rfl, hpublicHex⟩

/-- The batch's hash is read from its row, -/
theorem sealed_hash :
    wordArg (stripHex crossedRow.batchHash) = some 0x100 := by
  decide +kernel

/-- the signers' keys from their signatures, -/
theorem sealed_keys :
    (sealedJob.signatures.map fun s => stripHex s.signingPubkey).mapM
      wordArg = some [3, 1] := by
  decide +kernel

/-- and the signatures too. -/
theorem sealed_signatures :
    (sealedJob.signatures.map fun s => stripHex s.signature).mapM
      signatureArg = some [sealWith 3 (0x100 : Word).toBytes,
        sealWith 1 (0x100 : Word).toBytes] := by
  decide +kernel

/-- The relayer's call, and its arguments. -/
theorem sealed_call :
    ∃ sub a, processMpcSettle sealedOutside sealedJob = .ok sub
      ∧ sub.call.args = some a ∧ a.signerPubkeys = [3, 1] := by
  obtain ⟨proof, sb, hproof, hproofHex, hpublicHex, hsb⟩ := sealed_proof
  obtain ⟨root, hroot⟩ := exists_ok_of_isOk foreseen_root
  have hrun : processMpcSettle sealedOutside sealedJob = .ok
      { call := {
          contractId := "pool"
          secret := "secret"
          nullifierA :=
            stripHex (hexOut Proving.Demo.assignment.nullifierHashA)
          nullifierB :=
            stripHex (hexOut Proving.Demo.assignment.nullifierHashB)
          outputCommitmentA :=
            stripHex (hexOut Proving.Demo.assignment.outputCommitmentA)
          outputCommitmentB :=
            stripHex (hexOut Proving.Demo.assignment.outputCommitmentB)
          newRoot := root
          batchHash := stripHex crossedRow.batchHash
          signerPubkeys :=
            sealedJob.signatures.map fun s => stripHex s.signingPubkey
          signatures :=
            sealedJob.signatures.map fun s => stripHex s.signature
          proofBytes := some "00"
          pubSignalsBytes := some proof.publicHex }
        zkVerified := proof.locallyVerified } := by
    simp only [processMpcSettle, bind_eq_ok, orPanic_eq_ok, truthy_eq_some,
      panicIf_eq_ok, pure_eq_ok, hproof]
    refine ⟨"pool", ⟨rfl, by decide⟩, "secret", ⟨rfl, by decide⟩, _, rfl,
      true, sealed_verified, (), Bool.true_eq_false_eq_False, (), rfl,
      hexOut Proving.Demo.assignment.nullifierHashA, ⟨rfl, hexOut_ne _⟩,
      hexOut Proving.Demo.assignment.nullifierHashB, ⟨rfl, hexOut_ne _⟩,
      hexOut Proving.Demo.assignment.outputCommitmentA,
      ⟨rfl, hexOut_ne _⟩,
      hexOut Proving.Demo.assignment.outputCommitmentB,
      ⟨rfl, hexOut_ne _⟩, (), ?_, (), rfl, root, hroot, ?_⟩
    · rw [Option.map_some, Option.map_some, hproofHex, hpublicHex]
      simp
    · rw [Option.map_some, Option.map_some, hproofHex, hpublicHex]
      rfl
  have hroot : wordArg root = some 0 := by
    simp only [computeMpcRoot, bind_eq_ok, pure_eq_ok, orPanic_eq_ok]
      at hroot
    obtain ⟨_, -, _, -, text, htext, n, hn, rfl⟩ := hroot
    obtain rfl : "0" = text := Except.ok.inj htext
    obtain rfl : 0 = n := Option.some.inj hn
    decide +kernel
  refine ⟨_, ⟨Word.ofFr Proving.Demo.assignment.nullifierHashA,
    Word.ofFr Proving.Demo.assignment.nullifierHashB,
    Word.ofFr Proving.Demo.assignment.outputCommitmentA,
    Word.ofFr Proving.Demo.assignment.outputCommitmentB, 0, 0x100, [3, 1],
    [sealWith 3 (0x100 : Word).toBytes, sealWith 1 (0x100 : Word).toBytes],
    some [0], some sb⟩, hrun, ?_, rfl⟩
  simp only [MpcSettleCall.args, Option.bind_eq_bind,
    Option.bind_eq_some_iff, Option.some.injEq]
  exact ⟨_, wordArg_hexOut _, _, wordArg_hexOut _, _, wordArg_hexOut _, _,
    wordArg_hexOut _, 0, hroot, _, sealed_hash, _, sealed_keys, _,
    sealed_signatures, some [0], rfl, some sb,
    congrArg (Option.map some) hsb, rfl⟩

end Demo

/-- Two of a committee of three have signed a match, and the pool has no
objection to the call. -/
theorem relayed_signedBy_sealed :
    ∃ a : MpcArgs, a.signerPubkeys = [3, 1]
      ∧ verifyCommitteeThreshold Demo.sealHost Demo.sealPool
        a.batchHash a.signerPubkeys a.signatures = .ok () := by
  obtain ⟨sub, a, hrun, hargs, hsigners⟩ := Demo.sealed_call
  have hstored : Demo.sealPool.committee = some [1, 2, 3] := rfl
  obtain ⟨hverified, hpool⟩ := relayed_signedBy hstored (by decide)
    (by decide) (by rfl)
    (fun keys hkeys => by
      obtain rfl := Except.ok.inj hkeys
      decide +kernel)
    hrun hargs (by decide +kernel)
  exact ⟨a, hsigners, (hpool Demo.sealHost).mpr hverified.valid⟩

end Runs

-- ======================================================= the committee

/-- What a node publishes. -/
def nodePublicInfo (kp : CommitteeNodeKeyPair NodeKeys) :
    CommitteeNodeInfo where
  nodeId := kp.nodeId
  encryptionPubkey := bytesHex kp.secretKey.encryptionPublicKey.toBytes
  signingPubkey := bytesHex kp.secretKey.signingPublicKey.toBytes

/-- The signing keys of the nodes. -/
def signingKeys (nodes : List (CommitteeNodeKeyPair NodeKeys)) :
    List Word :=
  nodes.map fun node => node.secretKey.signingPublicKey

/-- It names the node's key. -/
theorem sameKeys_publicInfo
    (nodes : List (CommitteeNodeKeyPair NodeKeys)) :
    SameKeys (signingKeys nodes) (nodes.map nodePublicInfo) := by
  unfold SameKeys signingKeys
  rw [List.map_map, List.map_map]
  rfl

/-- A batch the committee signed is verified. -/
theorem genuine_verified {nodes : List (CommitteeNodeKeyPair NodeKeys)}
    (hverifies : ∀ node ∈ nodes, node.secretKey.Verifies verify)
    (hdistinct : (signingKeys nodes).Nodup) {batch : SignedMatchBatch}
    (h : GenuineBatch sha256 nodes batch) :
    verifySignedBatch (verifyNodeSignature sha256 verify) batch.batchId
      batch.matchResults batch.signatures (nodes.map nodePublicInfo)
      = .ok true := by
  obtain ⟨signers, hsub, henough, hsigs⟩ := h.signatures
  have htexts : batch.signatures.map (·.signingPubkey)
      = (signingKeys signers).map fun pk => bytesHex pk.toBytes := by
    rw [hsigs, signingKeys, List.map_map, List.map_map]
    rfl
  refine verifySignedBatch_eq_ok.mpr ⟨fun sig hsig => ?_, ?_, ?_⟩
  · rw [hsigs] at hsig
    obtain ⟨node, hnode, rfl⟩ := List.mem_map.mp hsig
    have hmem := hsub.mem hnode
    refine ⟨?_, verify_signBatch (hverifies node hmem)⟩
    rw [List.map_map]
    exact List.mem_map_of_mem (f := CommitteeNodeInfo.signingPubkey
      ∘ nodePublicInfo) hmem
  · rw [htexts]
    refine (hdistinct.sublist (hsub.map _)).map fun pk pk' heq => ?_
    exact Word.toBytes_inj (bytesHex_inj heq)
  · rw [List.length_map, hsigs, List.length_map]
    exact henough

/-- Where every member has a value, so has the list. -/
theorem mapM_eq_map {α β : Type} {f : α → Option β} {g : α → β}
    {l : List α} (h : ∀ a ∈ l, f a = some (g a)) :
    l.mapM f = some (l.map g) := by
  induction l with
  | nil => rfl
  | cons a l ih =>
      obtain ⟨ha, hl⟩ := List.forall_mem_cons.mp h
      rw [List.mapM_cons, ha, ih hl]
      rfl

/-- A signature's hexadecimal is read as the signature. -/
theorem signatureArg_bytesHex (s : Signature) :
    signatureArg (bytesHex (beBytes 64 s.toNat)) = some s := by
  unfold signatureArg bytesN
  rw [hexBytes_bytesHex, Option.filter_some,
    if_pos (by simp [length_beBytes]), Option.map_some, signature_bytes]

/-- The arguments of a genuine batch. -/
theorem genuine_args {nodes : List (CommitteeNodeKeyPair NodeKeys)}
    {batch : SignedMatchBatch} (h : GenuineBatch sha256 nodes batch) :
    ∃ hash signers signatures,
      wordArg (stripHex batch.batchHash) = some hash
      ∧ hash.toBytes = batchMessage sha256 batch.batchId batch.matchResults
      ∧ batch.signatures.mapM
          (fun s => wordArg (stripHex s.signingPubkey)) = some signers
      ∧ batch.signatures.mapM
          (fun s => signatureArg (stripHex s.signature))
        = some signatures := by
  obtain ⟨signers, -, -, hsigs⟩ := h.signatures
  refine ⟨_, signingKeys signers, signers.map fun node =>
    node.secretKey.sign (batchMessage sha256 batch.batchId
      batch.matchResults), ?_, (batchMessage_eq _ _).symm, ?_, ?_⟩
  · rw [h.batchHash, computeBatchHash, stripHex_bytesHex,
      wordArg_bytesHex]
  · rw [hsigs, List.mapM_map]
    refine mapM_eq_map fun node _ => ?_
    rw [Function.comp_apply, signBatch, stripHex_bytesHex,
      wordArg_bytesHex]
  · rw [hsigs, List.mapM_map]
    refine mapM_eq_map fun node _ => ?_
    rw [Function.comp_apply, signBatch, stripHex_bytesHex,
      signatureArg_bytesHex]

/-- The pool has the hash of the batch signed, and its threshold met. -/
def PoolAccepts (env : Env) (pool : Pool) (batch : SignedMatchBatch) :
    Prop :=
  ∃ hash signers signatures,
    wordArg (stripHex batch.batchHash) = some hash
    ∧ batch.signatures.mapM (fun s => wordArg (stripHex s.signingPubkey))
      = some signers
    ∧ batch.signatures.mapM (fun s => signatureArg (stripHex s.signature))
      = some signatures
    ∧ verifyCommitteeThreshold env pool hash signers signatures = .ok ()

/-- Every batch that a committee serves, in every state of every run of
its coordinator and nodes, whatever starts again on the way, passes the
check against the nodes' public keys, and the pool's threshold where
these keys are stored. The library and the host need agree on nothing
but the nodes' own signatures. -/
theorem served_batches_verify {Plain : Type} {cfg : Config NodeKeys Plain}
    (hcrypto : UsesPackage sha256 cfg.crypto)
    (hsize : cfg.mode = .standalone →
      cfg.endpoints.length = cfg.nodes.length)
    (hverifies : ∀ node ∈ cfg.nodes, node.secretKey.Verifies verify)
    (hdistinct : (signingKeys cfg.nodes).Nodup)
    (ls : List Life)
    (batch : SignedMatchBatch)
    (hserved : batch
      ∈ (run (lifeStep cfg) (Committee.World.boot cfg)
          ls).committee.batches) :
    verifySignedBatch (verifyNodeSignature sha256 verify) batch.batchId
        batch.matchResults batch.signatures (cfg.nodes.map nodePublicInfo)
      = .ok true
    ∧ ∀ (env : Env) (pool : Pool),
        (∀ node ∈ cfg.nodes, node.secretKey.Verifies fun msg sig pk =>
          env.ed25519Verify pk msg sig) →
        pool.committee = some (signingKeys cfg.nodes) →
        1 ≤ cfg.nodes.length → cfg.nodes.length < 2 ^ 30 →
        PoolAccepts env pool batch := by
  obtain ⟨_, r, s, -, hs, hsigned, hbatch⟩ := mem_batches.mp hserved
  have hlived := lived_run hcrypto hsize ls
  have hgenuine := hlived.genuine.served hlived.protocol hlived.rounded hs
    hsigned hbatch
  refine ⟨genuine_verified hverifies hdistinct hgenuine,
    fun env pool hhost hstored hpos hlt => ?_⟩
  obtain ⟨hash, signers, signatures, hhash, hmessage, hsigners,
    hsignatures⟩ := genuine_args hgenuine
  have hlen : (signingKeys cfg.nodes).length = cfg.nodes.length :=
    List.length_map _
  refine ⟨hash, signers, signatures, hhash, hsigners, hsignatures, ?_⟩
  rw [verifyCommitteeThreshold_eq_ok hstored (hlen.symm ▸ hpos)
    (hlen.symm ▸ hlt)]
  -- the same check, with the host's verification in the library's place
  have hverified := verifiedBy_of_verified (sameKeys_publicInfo cfg.nodes)
    (genuine_verified hhost hdistinct hgenuine) hmessage hsigners
    hsignatures
  exact (hverified.signedBy_iff env).mpr hverified.valid

-- ================================================== a committee of three

namespace Demo

/-- A committee of three in one process that signs with seals. -/
def signingCommittee : Config NodeKeys (ℕ × ℕ) where
  mode := .combined
  nodes := [⟨"node-1", nodeKeys 1⟩, ⟨"node-2", nodeKeys 2⟩,
    ⟨"node-3", nodeKeys 3⟩]
  endpoints := []
  crypto := {
    decryptShare := fun share keys =>
      .ok (some (keys.signingPublicKey.toNat, share.ciphertext.length))
    reconstructAmount := Committee.Demo.crypto.reconstructAmount
    computeBatchHash := fun batchId matchResults =>
      computeBatchHash digest batchId
        (matchResults.map MatchResult.batchMatch)
    signBatch := signBatch digest }
  pathParam := some

/-- The coordinator starts again after an offer, and a node after
another; then two offers are crossed. -/
def crossing : List Life :=
  [.event (.submit (Committee.Demo.intent "c" "X" "Y" "..")
      (Committee.Demo.clockAt 5)),
    .restart,
    .event (.submit (Committee.Demo.intent "a" "X" "Y" "....")
      (Committee.Demo.clockAt 7)),
    .restartNode 2,
    .event (.submit (Committee.Demo.intent "b" "Y" "X" "......")
      (Committee.Demo.clockAt 8)),
    .event (.tick "batch")]

/-- Its signatures verify. -/
theorem signingCommittee_verifies :
    ∀ node ∈ signingCommittee.nodes,
      node.secretKey.Verifies verifySeal := by
  intro node hnode
  simp only [signingCommittee, List.mem_cons, List.not_mem_nil,
    or_false] at hnode
  rcases hnode with rfl | rfl | rfl
  · exact nodeKeys_verifies 1
  · exact nodeKeys_verifies 2
  · exact nodeKeys_verifies 3

end Demo

/-- Two offers are crossed, and the batch passes both checks. -/
theorem served_batches_verify_crossing :
    ∃ batch : SignedMatchBatch, verifySignedBatch
        (verifyNodeSignature Demo.digest Demo.verifySeal) batch.batchId
        batch.matchResults batch.signatures
        (Demo.signingCommittee.nodes.map nodePublicInfo) = .ok true
      ∧ PoolAccepts Demo.sealHost Demo.sealPool batch := by
  have hserved : ((run (lifeStep Demo.signingCommittee)
      (Committee.World.boot Demo.signingCommittee)
      Demo.crossing).committee.batches.head?).isSome = true := by
    decide +kernel
  obtain ⟨batch, hbatch⟩ := Option.isSome_iff_exists.mp hserved
  obtain ⟨hoff, hpool⟩ := served_batches_verify
    ⟨fun _ _ => rfl, rfl⟩ (fun h => by cases h)
    Demo.signingCommittee_verifies (by decide) Demo.crossing batch
    (List.mem_of_head? hbatch)
  exact ⟨batch, hoff, hpool Demo.sealHost Demo.sealPool
    Demo.signingCommittee_verifies (by decide) (by decide) (by decide)⟩

end Lumix.Services
