/-
Hashes as field elements, in the places that compute them.

A hash is shortened to its first 31 bytes, which are below either scalar
order. The contract does it on bytes; the packages do it on hexadecimal
text that becomes a number and then its decimal text, which the prover's
tool turns into bytes again. All of them are one word, `hashToField` of
the contract (`one_field_encoding`).
-/
import Lumix.Pool.Testnet
import Lumix.Proving.Circom2Soroban
import Lumix.Proving.MpcSettlement

namespace Lumix.Proving

open Exec Digits Text Circom2Soroban

-- ================================================================ texts

/-- `hashToField` of `prove.ts`. -/
def Prove.hashToField (hex32 : String) : Except String String :=
  Proving.hashToField hex32

/-- `hashToField` of `mpc-priced.ts`. -/
def MpcPriced.hashToField (hex32 : String) : Except String String :=
  Proving.hashToField hex32

section

variable (sha256 : Bytes → Word)

/-- `BigInt("0x" + sha.subarray(0, 31).toString("hex")).toString()` of
the hash of a strkey. -/
def strkeyField (strkey : String) : Except String String :=
  let sha := (sha256 (utf8 strkey)).toBytes
  let h := "0x" ++ bytesHex (sha.take 31)
  orPanic ("Cannot convert " ++ h ++ " to a BigInt")
    ((bigInt h).map toString)

/-- The field of a recipient, -/
def recipientHashField (strkey : String) : Except String String :=
  strkeyField sha256 strkey

/-- and of an asset. -/
def assetIdField (tokenContract : String) : Except String String :=
  strkeyField sha256 tokenContract

/-- The asset's in hexadecimal. -/
def assetIdHex (tokenContract : String) : Except String String := do
  let text ← assetIdField sha256 tokenContract
  let field ← orPanic ("Cannot convert " ++ text ++ " to a BigInt")
    (bigInt text)
  pure ("0x" ++ padStart 64 (toString16 field))

/-- The hash of the RFQ package: a zero byte, then the first 31 of the
hash. -/
def recipientHashBytes (strkey : String) : Bytes :=
  0 :: (sha256 (utf8 strkey)).toBytes.take 31

end

-- ================================================================ words

/-- The number of a shortened hash. -/
theorem toNat_hashToField (h : Word) :
    (Lumix.hashToField h).toNat = h.toNat / 256 := by
  unfold Lumix.hashToField
  rw [BitVec.toNat_ushiftRight, Nat.shiftRight_eq_div_pow]

/-- The first 31 bytes of a hash. -/
theorem take_toBytes (h : Word) :
    h.toBytes.take 31 = beBytes 31 (h.toNat / 256) := by
  unfold Word.toBytes
  rw [beBytes_succ, List.take_left' (length_beBytes _ _)]

theorem div_lt (h : Word) : h.toNat / 256 < 256 ^ 31 := by
  have hlt := h.isLt
  omega

theorem beVal_take_toBytes (h : Word) :
    beVal (h.toBytes.take 31) = (Lumix.hashToField h).toNat := by
  rw [take_toBytes, beVal_beBytes (div_lt h), toNat_hashToField]

/-- The bytes of a shortened hash. -/
theorem toBytes_hashToField (h : Word) :
    (Lumix.hashToField h).toBytes = 0 :: h.toBytes.take 31 := by
  have hsmall := div_lt h
  unfold Word.toBytes
  rw [toNat_hashToField, beBytes, Nat.div_eq_of_lt hsmall,
    Nat.mod_eq_of_lt hsmall]
  exact congrArg _ (take_toBytes h).symm

/-- A shortened hash is below both orders. -/
theorem hashToField_lt (h : Word) :
    (Lumix.hashToField h).toNat < BN254_P
      ∧ (Lumix.hashToField h).toNat < r := by
  have hsmall : (Lumix.hashToField h).toNat < 256 ^ 31 := by
    rw [toNat_hashToField]
    exact div_lt h
  have hP : 256 ^ 31 < BN254_P := by decide
  have hr : 256 ^ 31 < r := by decide
  omega

-- =========================================================== the packages

/-- What the packages make of 31 bytes in hexadecimal. -/
theorem bigInt_take {cs : List Char} {h : Word}
    (hcs : readBytes cs = some (h.toBytes.take 31)) :
    bigInt ("0x" ++ String.ofList cs)
      = some ((Lumix.hashToField h).toNat : ℤ) := by
  rw [← beVal_take_toBytes]
  apply bigInt_hex hcs
  intro hnil
  have hlen := congrArg List.length hnil
  rw [take_toBytes, length_beBytes] at hlen
  cases hlen

/-- The field element of a 32-byte hash, written in hexadecimal of either
case and with a prefix or none. -/
theorem hashToField_ok {hex : String} {h : Word}
    (hhex : hexBytes (stripHex hex) = some h.toBytes) :
    Proving.hashToField hex
      = .ok (toString (Lumix.hashToField h).toNat) := by
  have htake := (readBytes_spells hhex).2.2.1 31
  unfold Proving.hashToField
  dsimp only
  rw [bigInt_take htake, Option.map_some]
  rfl

theorem strkeyField_ok (sha256 : Bytes → Word) (strkey : String) :
    strkeyField sha256 strkey
      = .ok (toString
        (Lumix.hashToField (sha256 (utf8 strkey))).toNat) := by
  unfold strkeyField bytesHex
  dsimp only
  rw [bigInt_take (readBytes_flatMap _), Option.map_some]
  rfl

theorem assetIdHex_ok (sha256 : Bytes → Word) (tokenContract : String) :
    ∃ hex, assetIdHex sha256 tokenContract = .ok hex
      ∧ hexBytes (stripHex hex)
        = some (Lumix.hashToField
          (sha256 (utf8 tokenContract))).toBytes := by
  have hlt := (Lumix.hashToField (sha256 (utf8 tokenContract))).isLt
  obtain ⟨bs, hbs, hlen, hval⟩ := hexBytes_padded (k := 32)
    (n := (Lumix.hashToField (sha256 (utf8 tokenContract))).toNat)
    (by decide) hlt
  unfold assetIdHex assetIdField
  rw [strkeyField_ok]
  refine ⟨"0x" ++ padStart 64 (toString16
    (Lumix.hashToField (sha256 (utf8 tokenContract))).toNat), ?_, ?_⟩
  · show (orPanic _ (bigInt (toString _)) >>= _) = _
    rw [bigInt_toString]
    rfl
  · rw [stripHex_append, hbs, ← beBytes_beVal bs, hlen, hval]
    rfl

-- ============================================================= one field

/-- A strkey: 56 characters of the base-32 alphabet. -/
def IsStrkey (s : String) : Prop :=
  s.toList.length = 56
    ∧ ∀ c ∈ s.toList,
      ('A'.toNat ≤ c.toNat ∧ c.toNat ≤ 'Z'.toNat)
        ∨ ('2'.toNat ≤ c.toNat ∧ c.toNat ≤ '7'.toNat)

instance (s : String) : Decidable (IsStrkey s) :=
  @instDecidableAnd _ _ inferInstance (List.decidableBAll _ s.toList)

theorem IsStrkey.length_utf8 {s : String} (h : IsStrkey s) :
    (utf8 s).length = 56 := by
  rw [Text.length_utf8, h.1]
  intro c hc
  apply UInt32.le_iff_toNat_le.mpr
  rcases h.2 c hc with hc | hc
  · exact Nat.le_trans (show c.toNat ≤ 90 from hc.2) (by decide)
  · exact Nat.le_trans (show c.toNat ≤ 55 from hc.2) (by decide)

/-- The contract shortens the same hash. -/
theorem recipientHash_strkey {env : Env} {a : Address} {s : String}
    (hs : IsStrkey s) (ha : env.strkey a = utf8 s) :
    recipientHash env a
      = .ok (Lumix.hashToField (env.sha256 (utf8 s))) := by
  unfold recipientHash
  rw [ha, panicIf, if_neg (by rw [hs.length_utf8]; decide)]
  rfl

/-- The tool's bytes of a word's decimal text. -/
theorem publicToBytes_word {crates : Crates}
    (hdecimal : crates.ReadsDecimals) (w : Word) :
    publicToBytes crates [toString w.toNat] = .ok (encodeSignals [w]) := by
  have h := publicToBytes_toString hdecimal
    (List.forall_mem_singleton.mpr w.isLt) (by decide : 1 < 2 ^ 32)
  rw [words, List.map_singleton, List.map_singleton,
    BitVec.ofNat_toNat, BitVec.setWidth_eq] at h
  exact h

/-- One field encoding of hashes. For a 32-byte hash in hexadecimal, the
tool's bytes of the packages' field element are the contract's; for a
strkey, those of the recipient's and the asset's field elements, the
asset's hexadecimal id and the RFQ package's bytes are the contract's
recipient hash; and these are below both orders. -/
theorem one_field_encoding {crates : Crates}
    (hdecimal : crates.ReadsDecimals) :
    (∀ (hex : String) (h : Word), hexBytes (stripHex hex) = some h.toBytes →
      ∃ text, Prove.hashToField hex = .ok text
        ∧ Proving.hashToField hex = .ok text
        ∧ MpcPriced.hashToField hex = .ok text
        ∧ publicToBytes crates [text]
          = .ok (encodeSignals [Lumix.hashToField h]))
      ∧ (∀ (env : Env) (a : Address) (s : String), IsStrkey s →
        env.strkey a = utf8 s →
        ∃ g text hex, recipientHash env a = .ok g
          ∧ recipientHashField env.sha256 s = .ok text
          ∧ assetIdField env.sha256 s = .ok text
          ∧ publicToBytes crates [text] = .ok (encodeSignals [g])
          ∧ assetIdHex env.sha256 s = .ok hex
          ∧ hexBytes (stripHex hex) = some g.toBytes
          ∧ recipientHashBytes env.sha256 s = g.toBytes
          ∧ g.toNat < BN254_P ∧ g.toNat < r)
      ∧ ∀ h : Word, (Lumix.hashToField h).toNat < BN254_P
        ∧ (Lumix.hashToField h).toNat < r := by
  refine ⟨?_, ?_, hashToField_lt⟩
  · intro hex h hhex
    have hok := hashToField_ok hhex
    exact ⟨_, hok, hok, hok, publicToBytes_word hdecimal _⟩
  · intro env a s hs ha
    obtain ⟨hex, hhex, hbytes⟩ := assetIdHex_ok env.sha256 s
    have hfield := strkeyField_ok env.sha256 s
    have hrecipient : recipientHashBytes env.sha256 s
        = (Lumix.hashToField (env.sha256 (utf8 s))).toBytes :=
      (toBytes_hashToField _).symm
    obtain ⟨hP, hr⟩ := hashToField_lt (env.sha256 (utf8 s))
    exact ⟨_, _, hex, recipientHash_strkey hs ha, hfield, hfield,
      publicToBytes_word hdecimal _, hhex, hbytes, hrecipient, hP, hr⟩

/-- The text key of the testnet's USDC contract. -/
def usdcStrkey : String :=
  "CBIELTK6YBZJU5UP2WWQEUCYKLPU6AUNZ2BQ4WWFEIE3USCIHMXQDAMA"

/-- A hash with a leading zero byte, in capitals and without a prefix,
and one whose last byte is dropped; and the field element of USDC. -/
theorem one_field_encoding_rare :
    (∃ text, Proving.hashToField
          "00FF000000000000000000000000000000000000000000000000000000000ABC"
        = .ok text
      ∧ publicToBytes zeroCrates [text] = .ok (encodeSignals
        [0x0000FF000000000000000000000000000000000000000000000000000000000A]))
      ∧ ∃ text, assetIdField Testnet.env.sha256 usdcStrkey = .ok text
        ∧ publicToBytes zeroCrates [text]
          = .ok (encodeSignals [Testnet.idOf Testnet.usdc]) := by
  obtain ⟨hhash, hstrkey, -⟩ := one_field_encoding zeroCrates_readsDecimals
  obtain ⟨text, -, htext, -, hbytes⟩ := hhash
    "00FF000000000000000000000000000000000000000000000000000000000ABC"
    0x00FF000000000000000000000000000000000000000000000000000000000ABC
    (by decide +kernel)
  obtain ⟨g, text', -, hg, -, htext', hbytes', -⟩ :=
    hstrkey Testnet.env Testnet.usdc usdcStrkey (by decide +kernel)
      (by decide +kernel)
  have hid : recipientHash Testnet.env Testnet.usdc
      = .ok (Testnet.idOf Testnet.usdc) := by decide +kernel
  rw [Except.ok.inj (hg.symm.trans hid)] at hbytes'
  exact ⟨⟨text, htext, hbytes⟩, text', htext', hbytes'⟩

end Lumix.Proving
