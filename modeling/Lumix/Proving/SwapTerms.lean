/-
The swap terms a solver signs, as the RFQ package lays them out.

The package writes its amounts from a big integer, byte by byte with a
mask and a shift, and its hashes from hexadecimal text; the contract
writes the same terms from its own types. The two layouts are one
(`swapBytes_eq`), and being of fixed-length fields they tell terms apart
(`swapBytes_inj`). So what the solver signs off-chain is what the
contract checks, and a signature is accepted with the signed terms and
with no others (`swap_terms_coincide`).
-/
import Lumix.Pool.Rfq
import Lumix.Proving.HashFields

namespace Lumix.Proving

open Exec Digits Text

-- ========================================================== the layout

/-- The terms a solver signs. -/
structure AtomicSwapTerms where
  quoteHashHex : String
  outputAssetIdHex : String
  quotedOutput : ℤ
  minOutput : ℤ
  priceScaled : ℤ
  recipientStrkey : String

/-- The loop of `i128beBytes`, over the bytes below index `i`. The mask
and the shift of a big integer are those of its two's complement, for
negative numbers too. -/
def i128beLoop : (i : ℕ) → (x : ℤ) → Bytes
  | 0, _ => []
  | i + 1, x => i128beLoop i (x.shiftRight 8) ++ [UInt8.ofNat (x % 256).toNat]

/-- Sixteen bytes, by shifting. -/
def i128beBytes (v : ℤ) : Bytes := i128beLoop 16 v

section

variable (sha256 : Bytes → Word)

/-- The bytes that `atomicSwapHash` hashes. -/
def swapBytes (t : AtomicSwapTerms) : Bytes :=
  bufferFromHex (stripHex t.quoteHashHex)
    ++ bufferFromHex (stripHex t.outputAssetIdHex)
    ++ i128beBytes t.quotedOutput ++ i128beBytes t.minOutput
    ++ i128beBytes t.priceScaled
    ++ recipientHashBytes sha256 t.recipientStrkey

/-- The hash of the terms. -/
def atomicSwapHash (t : AtomicSwapTerms) : String :=
  "0x" ++ bytesHex (sha256 (swapBytes sha256 t)).toBytes

/-- A Stellar key pair. -/
structure Keypair where
  publicKey : Word
  sign : Bytes → Signature

/-- A signature and its key, in hexadecimal. -/
structure SwapSignature where
  swapHash : String
  sig : String
  pubkey : String

/-- The signature of a hash, and the key. -/
def signQuoteStellar (kp : Keypair) (quoteHashHex : String) :
    String × String :=
  let msg := bufferFromHex (stripHex quoteHashHex)
  (bytesHex (beBytes 64 (kp.sign msg).toNat),
    bytesHex kp.publicKey.toBytes)

/-- The terms' hash, signed. -/
def signAtomicSwap (kp : Keypair) (terms : AtomicSwapTerms) :
    SwapSignature :=
  let swapHash := atomicSwapHash sha256 terms
  let (sig, pubkey) := signQuoteStellar kp swapHash
  ⟨swapHash, sig, pubkey⟩

end

-- ======================================================== the amounts

/-- The bytes of a big integer are those of what it is congruent to. -/
theorem i128beLoop_eq {n m : ℕ} {x q : ℤ} (h : x = m + 256 ^ n * q) :
    i128beLoop n x = beBytes n m := by
  induction n generalizing x m with
  | zero => rfl
  | succ n ih =>
      have hx : x = m + 256 * (256 ^ n * q) := by
        rw [h, Int.pow_succ', Int.mul_assoc]
      have hshift : x.shiftRight 8 = x / 2 ^ 8 :=
        Int.shiftRight_eq_div_pow x 8
      have hdiv : x.shiftRight 8 = ((m / 256 : ℕ) : ℤ) + 256 ^ n * q := by
        rw [hshift, hx]
        exact Int.add_mul_ediv_left _ _ (by decide)
      have hmod : (x % 256).toNat = m % 256 := by
        rw [hx, Int.add_mul_emod_self_left]
        rfl
      rw [i128beLoop, ih hdiv, hmod, beBytes_succ]

/-- `to_be_bytes`, for negative and extreme amounts as for others. -/
theorem i128beBytes_toInt (v : I128) : i128beBytes v.toInt = v.toBeBytes := by
  have hcong : ∃ q : ℤ, v.toInt = v.toNat + 256 ^ 16 * q := by
    rw [BitVec.toInt_eq_toNat_cond]
    by_cases hlow : 2 * v.toNat < 2 ^ 128
    · exact ⟨0, by rw [if_pos hlow]; omega⟩
    · exact ⟨-1, by rw [if_neg hlow]; omega⟩
  obtain ⟨q, hq⟩ := hcong
  exact i128beLoop_eq hq

/-- An amount in the range of the contract's type is one of it. -/
theorem exists_i128 {x : ℤ} (h : InI128 x) : ∃ v : I128, v.toInt = x := by
  refine ⟨BitVec.ofInt 128 x, ?_⟩
  rw [BitVec.toInt_ofInt]
  obtain ⟨hlow, hhigh⟩ := h
  exact Int.bmod_eq_of_le (by omega) (by omega)

-- ============================================================ the terms

/-- The terms are those of a call, but for the recipient. -/
structure SameTerms (t : AtomicSwapTerms) (a : AtomicSwapArgs) : Prop where
  quoteHash : hexBytes (stripHex t.quoteHashHex) = some a.quoteHash.toBytes
  outputAssetId : hexBytes (stripHex t.outputAssetIdHex)
    = some a.outputAssetId.toBytes
  quotedOutput : t.quotedOutput = a.quotedOutput.toInt
  minOutput : t.minOutput = a.minOutput.toInt
  priceScaled : t.priceScaled = a.priceScaled.toInt

/-- Terms of the types the contract has. -/
structure IsTerms (t : AtomicSwapTerms) : Prop where
  quoteHash : ∃ w : Word, hexBytes (stripHex t.quoteHashHex)
    = some w.toBytes
  outputAssetId : ∃ w : Word, hexBytes (stripHex t.outputAssetIdHex)
    = some w.toBytes
  quotedOutput : InI128 t.quotedOutput
  minOutput : InI128 t.minOutput
  priceScaled : InI128 t.priceScaled
  recipient : IsStrkey t.recipientStrkey

/-- The arguments of a call of these terms. -/
def argsOf (quoteHash outputAssetId : Word) (q m p : I128) :
    AtomicSwapArgs where
  userXlmRecipient := ⟨0⟩
  solverUsdcRecipient := ⟨0⟩
  proofBytes := []
  pubSignalsBytes := []
  quoteHash := quoteHash
  intentHash := 0
  fillReceiptHash := 0
  outputAssetId := outputAssetId
  quotedOutput := q
  minOutput := m
  priceScaled := p
  solverPubkey := 0
  solverSig := 0

theorem IsTerms.sameTerms {t : AtomicSwapTerms} (h : IsTerms t) :
    ∃ a, SameTerms t a := by
  obtain ⟨quoteHash, hquote⟩ := h.quoteHash
  obtain ⟨asset, hasset⟩ := h.outputAssetId
  obtain ⟨q, hq⟩ := exists_i128 h.quotedOutput
  obtain ⟨m, hm⟩ := exists_i128 h.minOutput
  obtain ⟨p, hp⟩ := exists_i128 h.priceScaled
  exact ⟨argsOf quoteHash asset q m p,
    ⟨hquote, hasset, hq.symm, hm.symm, hp.symm⟩⟩

/-- The package's bytes are the contract's. -/
theorem swapBytes_eq (sha256 : Bytes → Word) {t : AtomicSwapTerms}
    {a : AtomicSwapArgs} (h : SameTerms t a) :
    swapBytes sha256 t
      = a.terms (Lumix.hashToField (sha256 (utf8 t.recipientStrkey))) := by
  unfold swapBytes AtomicSwapArgs.terms
  rw [bufferFromHex_of_hexBytes h.quoteHash,
    bufferFromHex_of_hexBytes h.outputAssetId, h.quotedOutput, h.minOutput,
    h.priceScaled, i128beBytes_toInt, i128beBytes_toInt, i128beBytes_toInt,
    toBytes_hashToField]
  rfl

/-- What the bytes tell apart: everything but recipients whose 31-byte
hashes are equal. -/
structure SignedAlike (sha256 : Bytes → Word) (t u : AtomicSwapTerms) :
    Prop where
  quoteHash : hexBytes (stripHex t.quoteHashHex)
    = hexBytes (stripHex u.quoteHashHex)
  outputAssetId : hexBytes (stripHex t.outputAssetIdHex)
    = hexBytes (stripHex u.outputAssetIdHex)
  quotedOutput : t.quotedOutput = u.quotedOutput
  minOutput : t.minOutput = u.minOutput
  priceScaled : t.priceScaled = u.priceScaled
  recipient : (sha256 (utf8 t.recipientStrkey)).toBytes.take 31
    = (sha256 (utf8 u.recipientStrkey)).toBytes.take 31

theorem swapBytes_inj {sha256 : Bytes → Word} {t u : AtomicSwapTerms}
    (ht : IsTerms t) (hu : IsTerms u)
    (h : swapBytes sha256 t = swapBytes sha256 u) :
    SignedAlike sha256 t u := by
  obtain ⟨a, ha⟩ := ht.sameTerms
  obtain ⟨b, hb⟩ := hu.sameTerms
  rw [swapBytes_eq sha256 ha, swapBytes_eq sha256 hb] at h
  obtain ⟨hquote, hasset, hquoted, hmin, hprice, hrecipient⟩ :=
    AtomicSwapArgs.terms_inj h
  refine ⟨?_, ?_, ?_, ?_, ?_, ?_⟩
  · rw [ha.quoteHash, hb.quoteHash, hquote]
  · rw [ha.outputAssetId, hb.outputAssetId, hasset]
  · rw [ha.quotedOutput, hb.quotedOutput, hquoted]
  · rw [ha.minOutput, hb.minOutput, hmin]
  · rw [ha.priceScaled, hb.priceScaled, hprice]
  · have hbytes := congrArg Word.toBytes hrecipient
    rw [toBytes_hashToField, toBytes_hashToField] at hbytes
    exact (List.cons.inj hbytes).2

-- ======================================================== the signature

/-- A call that carries a signature of the package. -/
structure Carries (s : SwapSignature) (a : AtomicSwapArgs) : Prop where
  pubkey : hexBytes s.pubkey = some a.solverPubkey.toBytes
  sig : hexBytes s.sig = some (beBytes 64 a.solverSig.toNat)

/-- What is relied on of ed25519: a signature verifies with the message
it was made of, and not with the other message that is checked. -/
structure SignsOnly (env : Env) (kp : Keypair) (signed checked : Bytes) :
    Prop where
  correct : env.ed25519Verify kp.publicKey signed (kp.sign signed) = true
  only : env.ed25519Verify kp.publicKey checked (kp.sign signed) = true →
    checked = signed

theorem toNat_lt_pow {k : ℕ} (s : BitVec (8 * k)) : s.toNat < 256 ^ k := by
  have h := s.isLt
  rw [Nat.pow_mul] at h
  exact h

theorem signature_lt (s : Signature) : s.toNat < 256 ^ 64 :=
  @toNat_lt_pow 64 s

/-- The message is the hash of the terms, without its text. -/
theorem signAtomicSwap_carries {sha256 : Bytes → Word} {kp : Keypair}
    {t : AtomicSwapTerms} {a : AtomicSwapArgs}
    (h : Carries (signAtomicSwap sha256 kp t) a) :
    a.solverPubkey = kp.publicKey
      ∧ a.solverSig = kp.sign (sha256 (swapBytes sha256 t)).toBytes := by
  have hpub := h.pubkey
  have hsig := h.sig
  unfold signAtomicSwap signQuoteStellar atomicSwapHash at hpub hsig
  dsimp only at hpub hsig
  rw [hexBytes_bytesHex, Option.some.injEq] at hpub hsig
  rw [stripHex_append, bufferFromHex_bytesHex] at hsig
  refine ⟨(Word.toBytes_inj hpub).symm, ?_⟩
  apply BitVec.eq_of_toNat_eq
  exact (beBytes_inj (signature_lt _) (signature_lt _) hsig).symm

/-- The contract's check passes with the signed terms and no others. -/
theorem signature_accepted_iff {env : Env} {kp : Keypair}
    {t : AtomicSwapTerms} {a : AtomicSwapArgs} {g : Word}
    (ht : IsTerms t) (hcarries : Carries (signAtomicSwap env.sha256 kp t) a)
    (hsigns : SignsOnly env kp
      (env.sha256 (swapBytes env.sha256 t)).toBytes
      (swapHash env a g).toBytes)
    (hcollide : Set.InjOn env.sha256
      {swapBytes env.sha256 t, a.terms g}) :
    env.ed25519Verify a.solverPubkey (swapHash env a g).toBytes a.solverSig
        = true
      ↔ SameTerms t a
        ∧ g = Lumix.hashToField (env.sha256 (utf8 t.recipientStrkey)) := by
  obtain ⟨hkey, hsig⟩ := signAtomicSwap_carries hcarries
  obtain ⟨b, hb⟩ := ht.sameTerms
  rw [hkey, hsig]
  constructor
  · intro hverify
    have hhash := Word.toBytes_inj (hsigns.only hverify)
    rw [swapHash_eq] at hhash
    have hterms := hcollide (Set.mem_insert_of_mem _ rfl)
      (Set.mem_insert _ _) hhash
    rw [swapBytes_eq env.sha256 hb] at hterms
    obtain ⟨hquote, hasset, hquoted, hmin, hprice, hrecipient⟩ :=
      AtomicSwapArgs.terms_inj hterms
    refine ⟨⟨?_, ?_, ?_, ?_, ?_⟩, hrecipient⟩
    · rw [hb.quoteHash, hquote]
    · rw [hb.outputAssetId, hasset]
    · rw [hb.quotedOutput, hquoted]
    · rw [hb.minOutput, hmin]
    · rw [hb.priceScaled, hprice]
  · rintro ⟨hsame, rfl⟩
    rw [swapHash_eq, ← swapBytes_eq env.sha256 hsame]
    exact hsigns.correct

/-- The package and the contract hash the same terms, different terms
are different bytes, and a signature of the package is accepted with
exactly the terms it was made of. -/
theorem swap_terms_coincide :
    (∀ (env : Env) (t : AtomicSwapTerms) (a : AtomicSwapArgs),
      SameTerms t a → IsStrkey t.recipientStrkey →
      env.strkey a.userXlmRecipient = utf8 t.recipientStrkey →
      ∃ g, recipientHash env a.userXlmRecipient = .ok g
        ∧ swapBytes env.sha256 t = a.terms g)
      ∧ (∀ (sha256 : Bytes → Word) (t u : AtomicSwapTerms),
        IsTerms t → IsTerms u →
        swapBytes sha256 t = swapBytes sha256 u → SignedAlike sha256 t u)
      ∧ ∀ (env : Env) (kp : Keypair) (t : AtomicSwapTerms)
        (a : AtomicSwapArgs) (g : Word), IsTerms t →
        Carries (signAtomicSwap env.sha256 kp t) a →
        SignsOnly env kp (env.sha256 (swapBytes env.sha256 t)).toBytes
          (swapHash env a g).toBytes →
        Set.InjOn env.sha256 {swapBytes env.sha256 t, a.terms g} →
        (env.ed25519Verify a.solverPubkey (swapHash env a g).toBytes
            a.solverSig = true
          ↔ SameTerms t a
            ∧ g = Lumix.hashToField
              (env.sha256 (utf8 t.recipientStrkey))) := by
  refine ⟨?_, fun sha256 t u => swapBytes_inj,
    fun env kp t a g => signature_accepted_iff⟩
  intro env t a hsame hs ha
  exact ⟨_, recipientHash_strkey hs ha, swapBytes_eq env.sha256 hsame⟩

section Agreed

open Testnet Swap

/-- The terms of `agreed`, as the solver signs them. -/
def agreedTerms : AtomicSwapTerms where
  quoteHashHex :=
    "0x0000000000000000000000000000000000000000000000000000000000000100"
  outputAssetIdHex :=
    "0x0080c44eb66e80c734bae9dd0fff63399da6e5bed4b5dc4611e6c83b54043198"
  quotedOutput := 2500
  minOutput := 2500
  priceScaled := 25000000000
  recipientStrkey :=
    "GAQY7ZIK3JFSLQTRF4V2JT3I2VBW3HQAN6DIVS7X7FUERINBFB4SOYCL"

/-- The solver's keys, which sign these terms. -/
def solverKeys : Keypair := ⟨solverKey, fun _ => agreed.solverSig⟩

/-- The terms of `agreed` as the package writes them, evaluated. -/
theorem agreed_evaluated :
    hexBytes (stripHex agreedTerms.quoteHashHex)
        = some agreed.quoteHash.toBytes
      ∧ hexBytes (stripHex agreedTerms.outputAssetIdHex)
        = some agreed.outputAssetId.toBytes
      ∧ Swap.env.strkey user = utf8 agreedTerms.recipientStrkey
      ∧ IsStrkey agreedTerms.recipientStrkey
      ∧ Swap.env.ed25519Verify solverKey
        (Swap.env.sha256 (agreed.terms (idOf user))).toBytes
        agreed.solverSig = true := by
  decide +kernel

theorem agreed_sameTerms : SameTerms agreedTerms agreed :=
  ⟨agreed_evaluated.1, agreed_evaluated.2.1, by decide, by decide,
    by decide⟩

/-- The swap of `agreed` off-chain and on-chain: the terms coincide, and
its signature is accepted. -/
theorem swap_terms_coincide_agreed :
    (∃ g, recipientHash Swap.env user = .ok g
      ∧ swapBytes Swap.env.sha256 agreedTerms = agreed.terms g)
    ∧ Swap.env.ed25519Verify agreed.solverPubkey
      (swapHash Swap.env agreed (idOf user)).toBytes agreed.solverSig
      = true := by
  obtain ⟨-, -, hstrkey, hs, hverify⟩ := agreed_evaluated
  obtain ⟨hbytes, -, hsignature⟩ := swap_terms_coincide
  have hterms : swapBytes Swap.env.sha256 agreedTerms
      = agreed.terms (idOf user) := by
    rw [swapBytes_eq _ agreed_sameTerms, ← hstrkey]
    rfl
  refine ⟨hbytes _ _ _ agreed_sameTerms hs hstrkey, ?_⟩
  have hwell : IsTerms agreedTerms :=
    ⟨⟨_, agreed_sameTerms.quoteHash⟩, ⟨_, agreed_sameTerms.outputAssetId⟩,
      by decide, by decide, by decide, hs⟩
  have hcarries : Carries (signAtomicSwap Swap.env.sha256 solverKeys
      agreedTerms) agreed :=
    ⟨hexBytes_bytesHex _, hexBytes_bytesHex _⟩
  apply (hsignature Swap.env solverKeys agreedTerms agreed (idOf user) hwell
    hcarries ?_ ?_).mpr
  · exact ⟨agreed_sameTerms, by rw [← hstrkey]; rfl⟩
  · rw [hterms]
    exact ⟨hverify, fun _ => rfl⟩
  · rw [hterms, Set.pair_eq_singleton]
    exact Set.injOn_singleton _ _

end Agreed

end Lumix.Proving
