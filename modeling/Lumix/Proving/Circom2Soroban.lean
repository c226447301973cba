/-
`circom2soroban`, the tool that writes keys, proofs and public signals in
the layouts the contracts decode.

The parsers of its inputs come from elsewhere: arkworks reads and
serialises points, num-bigint reads decimal numbers. They are parameters
(`Crates`); of the points only the length is relied on, which the tool
asserts.

Three encoders meet four decoders here, all of which keep their cursor in
32 bits. A list of signals is decoded to itself exactly when its encoding
fits that cursor, which is below 2 ^ 27 of them (`public_decoded`), and a
key when its points do (`vk_decoded`). Past that the addition to the
cursor overflows and the decoder traps (`parse_overflow`), so the bound
of 2 ^ 32 that the length field has is never reached.
-/
import Lumix.Contracts.Cursor
import Lumix.Lib.Text
import Lumix.Pool.Decoding

namespace Lumix.Circom2Soroban

open Exec Digits ProofVerifier

-- ============================================================== inputs

/-- The crates: what a point of the given coordinates is serialised to,
and what number a decimal string is. None where they fail. -/
structure Crates where
  serializeG1 : (x y : String) → Option Bytes
  serializeG2 : (x1 x2 y1 y2 : String) → Option Bytes
  /-- `BigUint::from_str_radix(s, 10)` -/
  fromDecimal : String → Option ℕ

/-- A decimal number's own text is read as the number. -/
def Crates.ReadsDecimals (crates : Crates) : Prop :=
  ∀ n : ℕ, crates.fromDecimal (toString n) = some n

/-- `[String; 3]` -/
structure G1Json where
  x : String
  y : String
  z : String

/-- `[String; 2]` -/
structure Fq2Json where
  c0 : String
  c1 : String

/-- `[[String; 2]; 3]` -/
structure G2Json where
  x : Fq2Json
  y : Fq2Json
  z : Fq2Json

/-- `verification_key.json` -/
structure VerificationKeyJson where
  vkAlpha1 : G1Json
  vkBeta2 : G2Json
  vkGamma2 : G2Json
  vkDelta2 : G2Json
  ic : List G1Json
  nPublic : UInt32

/-- `proof.json` -/
structure ProofJson where
  piA : G1Json
  piB : G2Json
  piC : G1Json

-- ============================================================ encoders

section

variable (crates : Crates)

/-- A point of the first group, 96 bytes. -/
def g1Bytes (p : G1Json) : Except String Bytes := do
  let buf ← orPanic "called `unwrap()` on an `Err` value"
    (crates.serializeG1 p.x p.y)
  panicIf (buf.length ≠ 96) "G1 serialized size"
  pure buf

/-- A point of the second, 192 bytes. -/
def g2Bytes (p : G2Json) : Except String Bytes := do
  let buf ← orPanic "called `unwrap()` on an `Err` value"
    (crates.serializeG2 p.x.c0 p.x.c1 p.y.c0 p.y.c1)
  panicIf (buf.length ≠ 192) "G2 serialized size"
  pure buf

/-- The sum of the assertion wraps, as sums do in a release build. -/
def vkToBytes (vk : VerificationKeyJson) : Except String Bytes := do
  panicIf (UInt32.ofNat vk.ic.length ≠ vk.nPublic + 1)
    "IC length must be nPublic+1"
  let alpha ← g1Bytes crates vk.vkAlpha1
  let beta ← g2Bytes crates vk.vkBeta2
  let gamma ← g2Bytes crates vk.vkGamma2
  let delta ← g2Bytes crates vk.vkDelta2
  let ic ← vk.ic.mapM (g1Bytes crates)
  pure (alpha ++ (beta ++ (gamma ++ (delta
    ++ (beBytes 4 (UInt32.ofNat vk.ic.length).toNat ++ ic.flatten)))))

/-- The three points of a proof. -/
def proofToBytes (p : ProofJson) : Except String Bytes := do
  let a ← g1Bytes crates p.piA
  let b ← g2Bytes crates p.piB
  let c ← g1Bytes crates p.piC
  pure (a ++ (b ++ c))

/-- `BigUint::to_bytes_be`: the bytes of a number, at least one. -/
def toBytesBe (n : ℕ) : Bytes :=
  if n < 256 then [UInt8.ofNat n]
  else toBytesBe (n / 256) ++ [UInt8.ofNat (n % 256)]

/-- One signal: its bytes behind the zeros that make them 32. -/
def signalBytes (s : String) : Except String Bytes := do
  let v ← orPanic "called `unwrap()` on an `Err` value"
    (crates.fromDecimal s)
  let be := toBytesBe v
  panicIf (32 < be.length) "signal exceeds 32 bytes"
  pure (List.replicate (32 - be.length) 0 ++ be)

/-- The number of signals and each of them. -/
def publicToBytes (signals : List String) : Except String Bytes := do
  let words ← signals.mapM (signalBytes crates)
  pure (beBytes 4 (UInt32.ofNat signals.length).toNat ++ words.flatten)

end

-- ============================================================== points

section

variable {crates : Crates}

theorem g1Bytes_ok {p : G1Json} {buf : Bytes} :
    g1Bytes crates p = .ok buf
      ↔ crates.serializeG1 p.x p.y = some buf ∧ buf.length = 96 := by
  simp only [g1Bytes, bind_eq_ok, orPanic_eq_ok, panicIf_eq_ok,
    pure_eq_ok, not_not, exists_const]
  constructor
  · rintro ⟨_, h, hlen, rfl⟩
    exact ⟨h, hlen⟩
  · rintro ⟨h, hlen⟩
    exact ⟨buf, h, hlen, rfl⟩

theorem g2Bytes_ok {p : G2Json} {buf : Bytes} :
    g2Bytes crates p = .ok buf
      ↔ crates.serializeG2 p.x.c0 p.x.c1 p.y.c0 p.y.c1 = some buf
        ∧ buf.length = 192 := by
  simp only [g2Bytes, bind_eq_ok, orPanic_eq_ok, panicIf_eq_ok,
    pure_eq_ok, not_not, exists_const]
  constructor
  · rintro ⟨_, h, hlen, rfl⟩
    exact ⟨h, hlen⟩
  · rintro ⟨h, hlen⟩
    exact ⟨buf, h, hlen, rfl⟩

/-- The points of a list are its members', each of 96 bytes. -/
theorem mapM_g1Bytes {ps : List G1Json} {bufs : List Bytes}
    (h : ps.mapM (g1Bytes crates) = .ok bufs) :
    ps.mapM (fun p => crates.serializeG1 p.x p.y) = some bufs
      ∧ bufs.length = ps.length ∧ ∀ buf ∈ bufs, buf.length = 96 := by
  induction ps generalizing bufs with
  | nil =>
      cases h
      exact ⟨rfl, rfl, fun buf hbuf => (by cases hbuf)⟩
  | cons p ps ih =>
      simp only [List.mapM_cons, bind_eq_ok, pure_eq_ok] at h
      obtain ⟨buf, hbuf, rest, hrest, rfl⟩ := h
      obtain ⟨hserial, hlen⟩ := g1Bytes_ok.mp hbuf
      obtain ⟨hall, hcount, hsize⟩ := ih hrest
      refine ⟨?_, ?_, List.forall_mem_cons.mpr ⟨hlen, hsize⟩⟩
      · rw [List.mapM_cons, hserial, hall]
        rfl
      · rw [List.length_cons, List.length_cons, hcount]

-- ============================================================= signals

/-- A number below 256 ^ (k + 1) has at most k + 1 bytes, and they are
what its padding starts with zeros for. -/
theorem padded_toBytesBe {k n : ℕ} (hn : n < 256 ^ (k + 1)) :
    (toBytesBe n).length ≤ k + 1
      ∧ List.replicate (k + 1 - (toBytesBe n).length) 0 ++ toBytesBe n
        = beBytes (k + 1) n := by
  induction k generalizing n with
  | zero =>
      rw [toBytesBe, if_pos (by simpa using hn)]
      refine ⟨le_refl 1, ?_⟩
      simp [beBytes, Nat.mod_eq_of_lt (by simpa using hn : n < 256)]
  | succ k ih =>
      have hzero : ∀ k, beBytes k 0 = List.replicate k 0 := by
        intro k
        induction k with
        | zero => rfl
        | succ k ih => rw [beBytes, Nat.zero_mod, ih]; simp [List.replicate]
      rw [toBytesBe, beBytes_succ]
      by_cases hsmall : n < 256
      · rw [if_pos hsmall, Nat.div_eq_of_lt hsmall, hzero,
          Nat.mod_eq_of_lt hsmall]
        exact ⟨by simp, rfl⟩
      · rw [if_neg hsmall]
        have hdiv : n / 256 < 256 ^ (k + 1) := by
          rw [Nat.div_lt_iff_lt_mul (by decide), ← Nat.pow_succ]
          exact hn
        obtain ⟨hlen, hpad⟩ := ih hdiv
        rw [← hpad, List.length_append, List.append_assoc]
        refine ⟨Nat.succ_le_succ hlen, ?_⟩
        rw [List.length_singleton, Nat.add_sub_add_right]

theorem signalBytes_toString (hdecimal : crates.ReadsDecimals) {n : ℕ}
    (hn : n < 2 ^ 256) :
    signalBytes crates (toString n) = .ok (Word.toBytes (BitVec.ofNat 256 n))
    := by
  have hn' : n < 256 ^ 32 := hn
  obtain ⟨hlen, hpad⟩ := padded_toBytesBe (k := 31) hn'
  unfold signalBytes Word.toBytes
  rw [hdecimal n, BitVec.toNat_ofNat, Nat.mod_eq_of_lt hn, ← hpad]
  simp only [bind_eq_ok, orPanic_eq_ok, Option.some.injEq, panicIf_eq_ok,
    pure_eq_ok, exists_eq_left', exists_const]
  exact ⟨by omega, trivial⟩

/-- The numbers, as words. -/
def words (ns : List ℕ) : List Word := ns.map (BitVec.ofNat 256)

theorem publicToBytes_toString (hdecimal : crates.ReadsDecimals)
    {ns : List ℕ} (hns : ∀ n ∈ ns, n < 2 ^ 256) (hlen : ns.length < 2 ^ 32) :
    publicToBytes crates (ns.map fun n : ℕ => toString n)
      = .ok (encodeSignals (words ns)) := by
  have hall : (ns.map fun n : ℕ => toString n).mapM (signalBytes crates)
      = .ok ((words ns).map Word.toBytes) := by
    clear hlen
    induction ns with
    | nil => rfl
    | cons n ns ih =>
        obtain ⟨hn, hrest⟩ := List.forall_mem_cons.mp hns
        rw [List.map_cons, List.mapM_cons,
          signalBytes_toString hdecimal hn, ih hrest]
        rfl
  unfold publicToBytes encodeSignals
  rw [hall, List.length_map, words, List.length_map, UInt32.toNat_ofNat',
    Nat.mod_eq_of_lt (by simpa using hlen)]
  rfl

-- ========================================================= the decoders

/-- The layout of signals in chunks. -/
theorem encodeSignals_chunks (ws : List Word) :
    encodeSignals ws
      = beBytes 4 ws.length ++ ((ws.map Word.toBytes).flatten ++ []) := by
  rw [List.append_nil, ← List.flatMap_def]
  rfl

theorem length_chunk {ws : List Word} :
    ∀ c ∈ ws.map Word.toBytes, c.length = 32 := by
  intro c hc
  obtain ⟨w, -, rfl⟩ := List.mem_map.mp hc
  exact Word.length_toBytes w

theorem take_count {ws : List Word} :
    Cursor.take 4 (encodeSignals ws) 0 = .ok (beBytes 4 ws.length, 4) := by
  have h := @Cursor.take_append 4 0 [] (beBytes 4 ws.length)
    (ws.map Word.toBytes).flatten rfl (length_beBytes _ _) (by omega)
  rw [← List.flatMap_def] at h
  exact h

/-- As many signals as the cursor can pass are decoded to what they
are. -/
theorem parse_encode {ws : List Word} (hfits : ws.length < 2 ^ 27) :
    Cursor.parsePublicSignals (encodeSignals ws) = .ok ws := by
  have heach := @Cursor.takeEach_append 32 4 (beBytes 4 ws.length) []
    (ws.map Word.toBytes) (length_beBytes _ _) length_chunk
  rw [← encodeSignals_chunks, List.length_map] at heach
  have hcount : beVal (beBytes 4 ws.length) = ws.length :=
    beVal_beBytes (by omega)
  simp only [Cursor.parsePublicSignals, bind_eq_ok, pure_eq_ok,
    Prod.exists]
  refine ⟨_, _, take_count, ?_⟩
  rw [hcount]
  refine ⟨_, _, heach (by omega), ?_⟩
  rw [List.map_map]
  apply List.map_id''
  intro w
  exact Word.ofBytes_toBytes w

/-- One more and the cursor overflows. -/
theorem parse_overflow {ws : List Word} (hover : 2 ^ 27 ≤ ws.length)
    (hcount : ws.length < 2 ^ 32) :
    Cursor.parsePublicSignals (encodeSignals ws) = .error .overflow := by
  have heach := @Cursor.takeEach_overflow 32 4 (beBytes 4 ws.length) []
    (ws.map Word.toBytes) (length_beBytes _ _) (by omega) length_chunk
  rw [← encodeSignals_chunks, List.length_map] at heach
  have hval : beVal (beBytes 4 ws.length) = ws.length :=
    beVal_beBytes (by omega)
  simp only [Cursor.parsePublicSignals, bind_eq_error, take_count]
  refine Or.inr ⟨_, rfl, ?_⟩
  rw [hval, heach (by omega)]
  exact Or.inl rfl

theorem publicFromBytes_encode {ns : List ℕ} (hfits : ns.length < 2 ^ 27)
    (hns : ∀ n ∈ ns, n < 2 ^ 256) :
    Cursor.publicFromBytes (encodeSignals (words ns))
      = .ok (ns.map fun n : ℕ => (n : Fr)) := by
  have hwords : (words ns).length < 2 ^ 27 := by
    rw [words, List.length_map]
    exact hfits
  rw [Cursor.publicFromBytes_eq, parse_encode hwords]
  show Except.ok _ = Except.ok _
  congr 1
  rw [words, List.map_map]
  apply List.map_congr_left
  intro n hn
  show (((BitVec.ofNat 256 n).toNat : ℕ) : Fr) = n
  rw [BitVec.toNat_ofNat, Nat.mod_eq_of_lt (hns n hn)]

/-- The layout of a verifying key. -/
def vkLayout (key : VerificationKey) (count : ℕ) : Bytes :=
  key.alpha ++ (key.beta ++ (key.gamma ++ (key.delta
    ++ (beBytes 4 count ++ key.ic.flatten))))

/-- A key of points of the right sizes. -/
structure Sized (key : VerificationKey) : Prop where
  alpha : key.alpha.length = 96
  beta : key.beta.length = 192
  gamma : key.gamma.length = 192
  delta : key.delta.length = 192
  ic : ∀ p ∈ key.ic, p.length = 96

/-- A key's points are read in their places, as long as the cursor can
pass them. -/
theorem vkFromBytes_layout {key : VerificationKey} (hkey : Sized key)
    (hfits : 676 + 96 * key.ic.length < 2 ^ 32) :
    Cursor.vkFromBytes (vkLayout key key.ic.length) = .ok key := by
  have halpha := @Cursor.take_append 96 0 [] key.alpha
    (key.beta ++ (key.gamma ++ (key.delta
      ++ (beBytes 4 key.ic.length ++ key.ic.flatten)))) rfl hkey.alpha
    (by omega)
  have hbeta := @Cursor.take_append 192 96 key.alpha key.beta
    (key.gamma ++ (key.delta
      ++ (beBytes 4 key.ic.length ++ key.ic.flatten))) hkey.alpha hkey.beta
    (by omega)
  have hgamma := @Cursor.take_append 192 288 (key.alpha ++ key.beta)
    key.gamma (key.delta ++ (beBytes 4 key.ic.length ++ key.ic.flatten))
    (by rw [List.length_append, hkey.alpha, hkey.beta]) hkey.gamma
    (by omega)
  have hdelta := @Cursor.take_append 192 480
    (key.alpha ++ (key.beta ++ key.gamma)) key.delta
    (beBytes 4 key.ic.length ++ key.ic.flatten)
    (by simp [hkey.alpha, hkey.beta, hkey.gamma]) hkey.delta (by omega)
  have hcount := @Cursor.take_append 4 672
    (key.alpha ++ (key.beta ++ (key.gamma ++ key.delta)))
    (beBytes 4 key.ic.length) key.ic.flatten
    (by simp [hkey.alpha, hkey.beta, hkey.gamma, hkey.delta])
    (length_beBytes _ _) (by omega)
  have hic := @Cursor.takeEach_append 96 676
    (key.alpha ++ (key.beta ++ (key.gamma ++ (key.delta
      ++ beBytes 4 key.ic.length)))) [] key.ic
    (by simp [hkey.alpha, hkey.beta, hkey.gamma, hkey.delta]) hkey.ic hfits
  have hval : beVal (beBytes 4 key.ic.length) = key.ic.length :=
    beVal_beBytes (by omega)
  simp only [List.append_assoc, List.append_nil, List.nil_append]
    at halpha hbeta hgamma hdelta hcount hic
  simp only [Cursor.vkFromBytes, vkLayout, bind_eq_ok, pure_eq_ok,
    Prod.exists]
  refine ⟨_, _, halpha, _, _, hbeta, _, _, hgamma, _, _, hdelta, _, _,
    hcount, ?_⟩
  rw [hval]
  exact ⟨_, _, hic, rfl⟩

theorem proofFromBytes_layout {proof : Proof} (ha : proof.a.length = 96)
    (hb : proof.b.length = 192) (hc : proof.c.length = 96) :
    Cursor.proofFromBytes (proof.a ++ (proof.b ++ proof.c)) = .ok proof := by
  have hreadA := @Cursor.take_append 96 0 [] proof.a (proof.b ++ proof.c)
    rfl ha (by omega)
  have hreadB := @Cursor.take_append 192 96 proof.a proof.b proof.c ha hb
    (by omega)
  have hreadC := @Cursor.take_append 96 288 (proof.a ++ proof.b) proof.c []
    (by rw [List.length_append, ha, hb]) hc (by omega)
  simp only [List.append_assoc, List.append_nil, List.nil_append]
    at hreadA hreadB hreadC
  simp only [Cursor.proofFromBytes, bind_eq_ok, pure_eq_ok, Prod.exists]
  exact ⟨_, _, hreadA, _, _, hreadB, _, _, hreadC, rfl⟩

-- =========================================================== the formats

/-- The points of a key, as the crates serialise them. -/
structure KeyOf (crates : Crates) (vk : VerificationKeyJson)
    (key : VerificationKey) : Prop where
  alpha : crates.serializeG1 vk.vkAlpha1.x vk.vkAlpha1.y = some key.alpha
  beta : crates.serializeG2 vk.vkBeta2.x.c0 vk.vkBeta2.x.c1
    vk.vkBeta2.y.c0 vk.vkBeta2.y.c1 = some key.beta
  gamma : crates.serializeG2 vk.vkGamma2.x.c0 vk.vkGamma2.x.c1
    vk.vkGamma2.y.c0 vk.vkGamma2.y.c1 = some key.gamma
  delta : crates.serializeG2 vk.vkDelta2.x.c0 vk.vkDelta2.x.c1
    vk.vkDelta2.y.c0 vk.vkDelta2.y.c1 = some key.delta
  ic : vk.ic.mapM (fun p => crates.serializeG1 p.x p.y) = some key.ic

/-- The points of a proof. -/
structure ProofOf (crates : Crates) (p : ProofJson) (proof : Proof) :
    Prop where
  a : crates.serializeG1 p.piA.x p.piA.y = some proof.a
  b : crates.serializeG2 p.piB.x.c0 p.piB.x.c1 p.piB.y.c0 p.piB.y.c1
    = some proof.b
  c : crates.serializeG1 p.piC.x p.piC.y = some proof.c

theorem public_decoded (hdecimal : crates.ReadsDecimals) {ns : List ℕ}
    (hns : ∀ n ∈ ns, n < 2 ^ 256) (hfits : ns.length < 2 ^ 27) :
    ∃ bytes, publicToBytes crates (ns.map fun n : ℕ => toString n)
        = .ok bytes
      ∧ Cursor.parsePublicSignals bytes = .ok (words ns)
      ∧ Cursor.publicFromBytes bytes
        = .ok (ns.map fun n : ℕ => (n : Fr)) := by
  refine ⟨_, publicToBytes_toString hdecimal hns (by omega),
    parse_encode ?_, publicFromBytes_encode hfits hns⟩
  rw [words, List.length_map]
  exact hfits

theorem vk_decoded {vk : VerificationKeyJson} {bytes : Bytes}
    (h : vkToBytes crates vk = .ok bytes)
    (hfits : vk.ic.length ≤ 44739235) :
    ∃ key, Cursor.vkFromBytes bytes = .ok key ∧ KeyOf crates vk key := by
  simp only [vkToBytes, bind_eq_ok, panicIf_eq_ok, pure_eq_ok] at h
  obtain ⟨_, -, alpha, halpha, beta, hbeta, gamma, hgamma, delta, hdelta,
    ic, hic, rfl⟩ := h
  obtain ⟨halpha, hlenA⟩ := g1Bytes_ok.mp halpha
  obtain ⟨hbeta, hlenB⟩ := g2Bytes_ok.mp hbeta
  obtain ⟨hgamma, hlenG⟩ := g2Bytes_ok.mp hgamma
  obtain ⟨hdelta, hlenD⟩ := g2Bytes_ok.mp hdelta
  obtain ⟨hic, hcount, hsize⟩ := mapM_g1Bytes hic
  have hkey : Sized ⟨alpha, beta, gamma, delta, ic⟩ :=
    ⟨hlenA, hlenB, hlenG, hlenD, hsize⟩
  have hu32 : (UInt32.ofNat vk.ic.length).toNat = ic.length := by
    rw [UInt32.toNat_ofNat', hcount]
    exact Nat.mod_eq_of_lt (by omega)
  have hread := vkFromBytes_layout hkey (by
    show 676 + 96 * ic.length < 2 ^ 32
    omega)
  refine ⟨⟨alpha, beta, gamma, delta, ic⟩, ?_,
    ⟨halpha, hbeta, hgamma, hdelta, hic⟩⟩
  rw [hu32]
  exact hread

theorem proof_decoded {p : ProofJson} {bytes : Bytes}
    (h : proofToBytes crates p = .ok bytes) :
    ∃ proof, Cursor.proofFromBytes bytes = .ok proof
      ∧ ProofOf crates p proof := by
  simp only [proofToBytes, bind_eq_ok, pure_eq_ok] at h
  obtain ⟨a, ha, b, hb, c, hc, rfl⟩ := h
  obtain ⟨ha, hlenA⟩ := g1Bytes_ok.mp ha
  obtain ⟨hb, hlenB⟩ := g2Bytes_ok.mp hb
  obtain ⟨hc, hlenC⟩ := g1Bytes_ok.mp hc
  exact ⟨⟨a, b, c⟩, @proofFromBytes_layout ⟨a, b, c⟩ hlenA hlenB hlenC,
    ⟨ha, hb, hc⟩⟩

/-- Signals, keys and proofs come out of the decoders as they went into
the encoders, as long as their bytes are within the cursor's 32 bits. -/
theorem formats_agree (hdecimal : crates.ReadsDecimals) :
    (∀ ns : List ℕ, (∀ n ∈ ns, n < 2 ^ 256) → ns.length < 2 ^ 27 →
      ∃ bytes, publicToBytes crates (ns.map fun n : ℕ => toString n)
          = .ok bytes
        ∧ Cursor.parsePublicSignals bytes = .ok (words ns)
        ∧ Cursor.publicFromBytes bytes
          = .ok (ns.map fun n : ℕ => (n : Fr)))
      ∧ (∀ (vk : VerificationKeyJson) (bytes : Bytes),
        vkToBytes crates vk = .ok bytes → vk.ic.length ≤ 44739235 →
        ∃ key, Cursor.vkFromBytes bytes = .ok key ∧ KeyOf crates vk key)
      ∧ ∀ (p : ProofJson) (bytes : Bytes),
        proofToBytes crates p = .ok bytes →
        ∃ proof, Cursor.proofFromBytes bytes = .ok proof
          ∧ ProofOf crates p proof :=
  ⟨fun _ => public_decoded hdecimal, fun _ _ => vk_decoded,
    fun _ _ => proof_decoded⟩

end

-- ============================================================== examples

/-- Crates that serialise every point to zeros. -/
def zeroCrates : Crates where
  serializeG1 := fun _ _ => some (List.replicate 96 0)
  serializeG2 := fun _ _ _ _ => some (List.replicate 192 0)
  fromDecimal := fun s => Text.readDigits 10 s.toList

theorem zeroCrates_readsDecimals : zeroCrates.ReadsDecimals := by
  intro n
  show Text.readDigits 10 (toString n).toList = some n
  rw [Nat.toString_eq_repr, Nat.toList_repr]
  exact Text.readDigits_toDigits (by decide) (by decide) n

/-- Three signals, the last of them one below 2 ^ 256. -/
theorem formats_agree_three :
    ∃ bytes, publicToBytes zeroCrates
        ([0, 255, 2 ^ 256 - 1].map fun n : ℕ => toString n) = .ok bytes
      ∧ Cursor.parsePublicSignals bytes
        = .ok (words [0, 255, 2 ^ 256 - 1]) := by
  obtain ⟨hpublic, -, -⟩ := formats_agree zeroCrates_readsDecimals
  obtain ⟨bytes, hbytes, hparse, -⟩ :=
    hpublic [0, 255, 2 ^ 256 - 1] (by decide) (by decide)
  exact ⟨bytes, hbytes, hparse⟩

/-- 2 ^ 27 zeros are fewer than 2 ^ 32 and overflow the cursor. -/
theorem zeros_overflow :
    ∃ ns : List ℕ, ns.length < 2 ^ 32 ∧ (∀ n ∈ ns, n < 2 ^ 256)
      ∧ ∃ bytes, publicToBytes zeroCrates
          (ns.map fun n : ℕ => toString n) = .ok bytes
        ∧ Cursor.parsePublicSignals bytes = .error .overflow := by
  have hlen : (List.replicate (2 ^ 27) 0 : List ℕ).length = 2 ^ 27 :=
    List.length_replicate
  have hsmall : ∀ n ∈ (List.replicate (2 ^ 27) 0 : List ℕ),
      n < 2 ^ 256 := by
    intro n hn
    rw [List.eq_of_mem_replicate hn]
    decide
  have hwords : (words (List.replicate (2 ^ 27) 0)).length = 2 ^ 27 := by
    rw [words, List.length_map, hlen]
  refine ⟨List.replicate (2 ^ 27) 0, by omega, hsmall, _,
    publicToBytes_toString zeroCrates_readsDecimals hsmall (by omega), ?_⟩
  exact parse_overflow hwords.ge (by omega)

end Lumix.Circom2Soroban
