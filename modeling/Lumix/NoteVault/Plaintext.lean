/-
The plaintext gate of the note vault, and the redaction of its logs.

Both go by the keys of objects, at any depth. The gate throws exactly
when a forbidden key is anywhere in the value (`assert_throws_iff`), so
it catches every note and every preimage. A recovery file has no
forbidden key of its own: its secret is under `recovery_file_secret`, so
the gate lets the file pass unless something else in the value has one
(`plaintext_gate`). What is under a hidden key does not show in the
redaction (`redact_eq_of_alike`).
-/
import Lumix.Basic.Word
import Lumix.Lib.Js

namespace Lumix.NoteVault

open Js Lumix.Tree

-- =========================================================== the gate

/-- The keys no stored payload may carry. -/
def PLAINTEXT_FORBIDDEN : List JsString :=
  [ofString "owner_secret", ofString "spend_secret", ofString "blinding",
    ofString "nonce", ofString "note_preimage", ofString "vault_master_key",
    ofString "raw_signature", ofString "private_key", ofString "secret"]

/-- The message of the gate. -/
def plaintextFound (key : JsString) : JsString :=
  ofString "plaintext note field \x22" ++ key
    ++ ofString "\x22 is forbidden in stored/transmitted vault data"

mutual

/-- The `walk` of the gate. -/
def assertNoPlaintextNoteFields : Value → Except JsString Unit
  | .leaf _ => pure ()
  | .arr items => assertItems items
  | .obj fields => assertFields fields

/-- The gate over the items of an array, in order. -/
def assertItems : List Value → Except JsString Unit
  | [] => pure ()
  | v :: items => do
      assertNoPlaintextNoteFields v
      assertItems items

/-- The gate over the fields of an object: each key first, then what it
holds. -/
def assertFields : List (JsString × Value) → Except JsString Unit
  | [] => pure ()
  | (k, v) :: fields => do
      if k ∈ PLAINTEXT_FORBIDDEN then throw (plaintextFound k)
      assertNoPlaintextNoteFields v
      assertFields fields

end

/-- No key of an object is forbidden. -/
def NoForbidden (keys : List JsString) : Prop :=
  ∀ k ∈ keys, k ∉ PLAINTEXT_FORBIDDEN

instance : DecidablePred NoForbidden := fun keys =>
  List.decidableBAll (fun k => k ∉ PLAINTEXT_FORBIDDEN) keys

/-- Two checks in turn pass when both do. -/
theorem seq_eq_ok {ε : Type} {x y : Except ε Unit} :
    (do x; y) = .ok () ↔ x = .ok () ∧ y = .ok () := by
  cases x with
  | error e => exact ⟨fun h => (by cases h), fun h => (by cases h.1)⟩
  | ok u => exact ⟨fun h => ⟨rfl, h⟩, fun h => h.2⟩

theorem assertItems_eq_ok (items : List Value) :
    assertItems items = .ok ()
      ↔ ∀ v ∈ items, assertNoPlaintextNoteFields v = .ok () := by
  induction items with
  | nil => exact ⟨fun _ v hv => (List.not_mem_nil hv).elim, fun _ => rfl⟩
  | cons v items ih =>
      rw [assertItems, seq_eq_ok, ih, List.forall_mem_cons]

theorem assertFields_eq_ok (fields : List (JsString × Value)) :
    assertFields fields = .ok ()
      ↔ NoForbidden (fields.map Prod.fst)
        ∧ ∀ f ∈ fields, assertNoPlaintextNoteFields f.2 = .ok () := by
  induction fields with
  | nil =>
      exact ⟨fun _ => ⟨fun k hk => (List.not_mem_nil hk).elim,
        fun f hf => (List.not_mem_nil hf).elim⟩, fun _ => rfl⟩
  | cons f fields ih =>
      obtain ⟨k, v⟩ := f
      rw [assertFields]
      by_cases hk : k ∈ PLAINTEXT_FORBIDDEN
      · rw [if_pos hk]
        exact ⟨fun h => (by cases h),
          fun h => (h.1 k List.mem_cons_self hk).elim⟩
      · rw [if_neg hk]
        show (do assertNoPlaintextNoteFields v; assertFields fields)
          = .ok () ↔ _
        rw [seq_eq_ok, ih, List.forall_mem_cons, NoForbidden, NoForbidden,
          List.map_cons, List.forall_mem_cons]
        tauto

/-- A value passes when no object in it has a forbidden key. -/
theorem assert_eq_ok_iff (v : Value) :
    assertNoPlaintextNoteFields v = .ok () ↔ v.AllKeys NoForbidden := by
  induction v using Tree.induct with
  | leaf a =>
      refine ⟨fun _ u hu => ?_, fun _ => rfl⟩
      obtain rfl := List.mem_singleton.mp hu
      exact fun k hk => (List.not_mem_nil hk).elim
  | arr items ih =>
      rw [assertNoPlaintextNoteFields, assertItems_eq_ok, allKeys_arr]
      constructor
      · exact fun h => ⟨fun k hk => (List.not_mem_nil hk).elim,
          fun v hv => (ih v hv).mp (h v hv)⟩
      · exact fun h v hv => (ih v hv).mpr (h.2 v hv)
  | obj fields ih =>
      rw [assertNoPlaintextNoteFields, assertFields_eq_ok, allKeys_obj]
      constructor
      · exact fun h => ⟨h.1, fun f hf => (ih f hf).mp (h.2 f hf)⟩
      · exact fun h => ⟨h.1, fun f hf => (ih f hf).mpr (h.2 f hf)⟩

/-- The gate refuses the value. -/
def Throws (v : Value) : Prop :=
  ∃ message, assertNoPlaintextNoteFields v = .error message

theorem throws_iff_ne_ok {v : Value} :
    Throws v ↔ assertNoPlaintextNoteFields v ≠ .ok () := by
  unfold Throws
  cases assertNoPlaintextNoteFields v with
  | error e => simp
  | ok u => simp

/-- Some object in the value has a forbidden key. -/
def HasForbidden (v : Value) : Prop :=
  ∃ u ∈ v.parts, ∃ k ∈ u.keys, k ∈ PLAINTEXT_FORBIDDEN

theorem assert_throws_iff (v : Value) : Throws v ↔ HasForbidden v := by
  rw [throws_iff_ne_ok, ne_eq, assert_eq_ok_iff]
  unfold AllKeys NoForbidden HasForbidden
  push Not
  rfl

-- ============================================================ objects

/-- An object with a field of a kind. -/
def HasField (name : String) (kind : Value → Prop) (v : Value) : Prop :=
  ∃ fields w, v = .obj fields ∧ (ofString name, w) ∈ fields ∧ kind w

/-- The value is a string. -/
def IsString (v : Value) : Prop := ∃ s, v = .leaf (.str s)

/-- The value is a boolean. -/
def IsBoolean (v : Value) : Prop := ∃ b, v = .leaf (.bool b)

/-- The value is an object. -/
def IsObject (v : Value) : Prop := ∃ fields, v = .obj fields

/-- One of the strings of a union. -/
def IsOneOf (names : List String) (v : Value) : Prop :=
  ∃ name ∈ names, v = .leaf (.str (ofString name))

/-- `NotePreimage`, with whatever other fields. -/
structure IsNotePreimage (v : Value) : Prop where
  owner_secret : HasField "owner_secret" IsString v
  spend_secret : HasField "spend_secret" IsString v
  blinding : HasField "blinding" IsString v
  nonce : HasField "nonce" IsString v
  memo_commitment : HasField "memo_commitment" IsString v
  compliance_tag : HasField "compliance_tag" IsString v
  source_context : HasField "source_context" IsString v

/-- `VaultNote`, with whatever other fields. -/
structure IsVaultNote (v : Value) : Prop where
  commitment : HasField "commitment" IsString v
  asset_id : HasField "asset_id" IsString v
  amount_7dp : HasField "amount_7dp" IsString v
  note_preimage : HasField "note_preimage" IsNotePreimage v
  deposit_id : HasField "deposit_id" (fun _ => True) v →
    HasField "deposit_id" IsString v
  status : HasField "status" (IsOneOf ["prepared", "active", "spent"]) v
  created_at : HasField "created_at" IsString v

/-- `VaultWrapper`, with whatever other fields. -/
structure IsVaultWrapper (v : Value) : Prop where
  id : HasField "id" IsString v
  type : HasField "type" (IsOneOf ["passkey_prf",
    "stellar_ed25519_signature", "recovery_file_secret",
    "recovery_kit_password", "evm_signature"]) v
  status : HasField "status" (IsOneOf ["active", "revoked"]) v
  kdf : HasField "kdf" (IsOneOf ["HKDF-SHA256", "PBKDF2-SHA256"]) v
  salt : HasField "salt" IsString v
  wrapped_key : HasField "wrapped_key" IsString v
  diagnostic_only : HasField "diagnostic_only" (fun _ => True) v →
    HasField "diagnostic_only" IsBoolean v
  metadata : HasField "metadata" IsObject v

/-- A digit of base 64. -/
def b64Digit (n : ℕ) : Char :=
  if n < 26 then Char.ofNat (65 + n)
  else if n < 52 then Char.ofNat (97 + (n - 26))
  else if n < 62 then Char.ofNat (48 + (n - 52))
  else if n = 62 then '+' else '/'

/-- `btoa` of the bytes -/
def toB64 : Bytes → List Char
  | [] => []
  | [a] =>
      [b64Digit (a.toNat / 4), b64Digit (a.toNat % 4 * 16), '=', '=']
  | [a, b] =>
      [b64Digit (a.toNat / 4), b64Digit (a.toNat % 4 * 16 + b.toNat / 16),
        b64Digit (b.toNat % 16 * 4), '=']
  | a :: b :: c :: rest =>
      [b64Digit (a.toNat / 4), b64Digit (a.toNat % 4 * 16 + b.toNat / 16),
        b64Digit (b.toNat % 16 * 4 + c.toNat / 64), b64Digit (c.toNat % 64)]
        ++ toB64 rest

/-- A string, as a value. -/
def str (s : String) : Value := .leaf (.str (ofString s))

/-- The warning written into every recovery file. -/
def RECOVERY_WARNING : String :=
  "Keep this file safe. It can help restore your private vault. "
    ++ "Anyone with this file can decrypt your vault."

/-- `buildRecoveryFile`: the file a user keeps, with the secret in
base64. -/
def buildRecoveryFile (vaultId : JsString) (secret : Bytes)
    (wrapper : Value) (now : JsString) : Value :=
  .obj [(ofString "version", str "lumixprotocol-recovery-file-v1"),
    (ofString "vault_id", .leaf (.str vaultId)),
    (ofString "created_at", .leaf (.str now)),
    (ofString "app", str "LumixProtocol"),
    (ofString "warning", str RECOVERY_WARNING),
    (ofString "recovery_file_secret", str (String.ofList (toB64 secret))),
    (ofString "wrapper", wrapper)]

/-- A recovery file, as built. -/
def IsRecoveryFile (v : Value) : Prop :=
  ∃ vaultId secret wrapper now, IsVaultWrapper wrapper
    ∧ v = buildRecoveryFile vaultId secret wrapper now

/-- The value has an object of a kind in it. -/
def Contains (kind : Value → Prop) (v : Value) : Prop :=
  ∃ u ∈ v.parts, kind u

-- ===================================================== what is caught

theorem hasForbidden_of_field {name : String} {kind : Value → Prop}
    {u v : Value} (hname : ofString name ∈ PLAINTEXT_FORBIDDEN)
    (hu : u ∈ v.parts) (h : HasField name kind u) : HasForbidden v := by
  obtain ⟨fields, w, rfl, hw, -⟩ := h
  exact ⟨_, hu, ofString name, List.mem_map_of_mem (f := Prod.fst) hw, hname⟩

/-- A note has its preimage under a forbidden key, and a preimage has
secrets under four. -/
theorem hasForbidden_of_note {v : Value}
    (h : Contains IsVaultNote v ∨ Contains IsNotePreimage v) :
    HasForbidden v := by
  rcases h with ⟨u, hu, hnote⟩ | ⟨u, hu, hpreimage⟩
  · exact hasForbidden_of_field (by decide) hu hnote.note_preimage
  · exact hasForbidden_of_field (by decide) hu hpreimage.owner_secret

/-- A recovery file passes when its wrapper does. -/
theorem buildRecoveryFile_passes (vaultId : JsString) (secret : Bytes)
    (wrapper : Value) (now : JsString) :
    assertNoPlaintextNoteFields (buildRecoveryFile vaultId secret wrapper now)
        = .ok ()
      ↔ assertNoPlaintextNoteFields wrapper = .ok () := by
  rw [buildRecoveryFile, assertNoPlaintextNoteFields, assertFields_eq_ok]
  constructor
  · intro h
    exact h.2 (ofString "wrapper", wrapper) (by simp)
  · intro h
    refine ⟨?_, fun f hf => ?_⟩
    · show NoForbidden [ofString "version", ofString "vault_id",
        ofString "created_at", ofString "app", ofString "warning",
        ofString "recovery_file_secret", ofString "wrapper"]
      decide
    · simp only [List.mem_cons, List.not_mem_nil, or_false] at hf
      rcases hf with rfl | rfl | rfl | rfl | rfl | rfl | rfl
      all_goals first | exact h | rfl

/-- The gate throws on a value that has a secret in it. -/
def Caught (v : Value) : Prop :=
  Contains IsVaultNote v ∨ Contains IsNotePreimage v
    ∨ Contains IsRecoveryFile v → Throws v

theorem caught_iff (v : Value) :
    Caught v ↔ (Contains IsRecoveryFile v → HasForbidden v) := by
  unfold Caught
  rw [assert_throws_iff]
  constructor
  · exact fun h hfile => h (.inr (.inr hfile))
  · rintro h (hnote | hpreimage | hfile)
    · exact hasForbidden_of_note (.inl hnote)
    · exact hasForbidden_of_note (.inr hpreimage)
    · exact h hfile

-- ====================================================== the redaction

/-- What the redaction returns. An object of it has a prototype when one
was assigned to it. -/
inductive Logged
  | leaf (a : Leaf)
  | arr (items : List Logged)
  | obj (proto : Option Logged) (fields : List (JsString × Logged))

/-- The object the redaction fills. -/
structure Out where
  proto : Option Logged
  fields : List (JsString × Logged)

/-- `out[key] = value`. To `__proto__` an object or null is assigned as the
prototype, and any other value is not assigned. -/
def Out.assign (out : Out) (key : JsString) (value : Logged) : Out :=
  if key = ofString "__proto__" then
    match value with
    | .obj .. | .arr _ | .leaf .null => { out with proto := some value }
    | .leaf _ => out
  else { out with fields := out.fields ++ [(key, value)] }

/-- The value under the key is not shown. -/
def Hidden (key : JsString) : Prop :=
  key ∈ PLAINTEXT_FORBIDDEN ∨ key = ofString "wrapped_key"
    ∨ key = ofString "ciphertext"

instance : DecidablePred Hidden := fun _ =>
  inferInstanceAs (Decidable (_ ∨ _ ∨ _))

mutual

/-- The `walk` of the redaction. -/
def redactVaultForLogs : Value → Logged
  | .leaf a => .leaf a
  | .arr items => .arr (redactItems items)
  | .obj fields =>
      let out := redactFields ⟨none, []⟩ fields
      .obj out.proto out.fields

/-- Redaction of the items of an array. -/
def redactItems : List Value → List Logged
  | [] => []
  | v :: items => redactVaultForLogs v :: redactItems items

/-- Redaction of an object's fields, assigned in turn to `out`. -/
def redactFields (out : Out) : List (JsString × Value) → Out
  | [] => out
  | (k, v) :: fields =>
      redactFields (out.assign k
        (if Hidden k then .leaf (.str (ofString "[REDACTED]"))
          else redactVaultForLogs v)) fields

end

mutual

/-- The values differ in what is under hidden keys only. -/
def Alike : Value → Value → Prop
  | .leaf a, .leaf b => a = b
  | .arr items, .arr items' => AlikeItems items items'
  | .obj fields, .obj fields' => AlikeFields fields fields'
  | _, _ => False

/-- Arrays of one length whose items are alike. -/
def AlikeItems : List Value → List Value → Prop
  | [], [] => True
  | v :: items, w :: items' => Alike v w ∧ AlikeItems items items'
  | _, _ => False

/-- Objects of the same keys, in order, alike wherever the key is not
hidden. -/
def AlikeFields : List (JsString × Value) → List (JsString × Value) → Prop
  | [], [] => True
  | (k, v) :: fields, (l, w) :: fields' =>
      k = l ∧ (Hidden k ∨ Alike v w) ∧ AlikeFields fields fields'
  | _, _ => False

end

theorem redactItems_eq {items items' : List Value}
    (ih : ∀ v ∈ items, ∀ w, Alike v w →
      redactVaultForLogs v = redactVaultForLogs w)
    (h : AlikeItems items items') :
    redactItems items = redactItems items' := by
  induction items generalizing items' with
  | nil =>
      cases items' with
      | nil => rfl
      | cons w items' => exact h.elim
  | cons v items ihs =>
      cases items' with
      | nil => exact h.elim
      | cons w items' =>
          obtain ⟨hhead, htail⟩ := h
          rw [redactItems, redactItems, ih v List.mem_cons_self w hhead,
            ihs (fun v hv => ih v (List.mem_cons_of_mem _ hv)) htail]

theorem redactFields_eq {fields fields' : List (JsString × Value)}
    (ih : ∀ f ∈ fields, ∀ w, Alike f.2 w →
      redactVaultForLogs f.2 = redactVaultForLogs w)
    (h : AlikeFields fields fields') (out : Out) :
    redactFields out fields = redactFields out fields' := by
  induction fields generalizing fields' out with
  | nil =>
      cases fields' with
      | nil => rfl
      | cons g fields' => exact h.elim
  | cons f fields ihs =>
      cases fields' with
      | nil => exact h.elim
      | cons g fields' =>
          obtain ⟨k, v⟩ := f
          obtain ⟨l, w⟩ := g
          obtain ⟨rfl, hvalue, htail⟩ := h
          have ihs := ihs
            (fun f hf => ih f (List.mem_cons_of_mem _ hf)) htail
          rw [redactFields, redactFields]
          by_cases hk : Hidden k
          · rw [if_pos hk, if_pos hk]
            exact ihs _
          · rw [if_neg hk, if_neg hk,
              ih (k, v) List.mem_cons_self w (hvalue.resolve_left hk)]
            exact ihs _

/-- What is under hidden keys does not show. -/
theorem redact_eq_of_alike {v w : Value} (h : Alike v w) :
    redactVaultForLogs v = redactVaultForLogs w := by
  induction v using Tree.induct generalizing w with
  | leaf a =>
      cases w with
      | leaf b =>
          obtain rfl : a = b := h
          rfl
      | arr items => exact h.elim
      | obj fields => exact h.elim
  | arr items ih =>
      cases w with
      | leaf b => exact h.elim
      | arr items' =>
          rw [redactVaultForLogs, redactVaultForLogs,
            redactItems_eq (fun v hv w hvw => ih v hv hvw) h]
      | obj fields => exact h.elim
  | obj fields ih =>
      cases w with
      | leaf b => exact h.elim
      | arr items => exact h.elim
      | obj fields' =>
          rw [redactVaultForLogs, redactVaultForLogs,
            redactFields_eq (fun f hf w hfw => ih f hf hfw) h]

-- ====================================================== both together

/-- The gate throws on a value with a note, a preimage or a recovery file
in it unless it has a recovery file and no forbidden key, and values that
differ under hidden keys only have one redaction. -/
theorem plaintext_gate (v : JsonValue) :
    (Caught v.tree
        ↔ (Contains IsRecoveryFile v.tree → HasForbidden v.tree))
      ∧ ∀ w : JsonValue, Alike v.tree w.tree →
        redactVaultForLogs v.tree = redactVaultForLogs w.tree :=
  ⟨caught_iff v.tree, fun _ => redact_eq_of_alike⟩

/-- The fields of a wrapper as the server returns it. -/
def wrapperFields : List (JsString × Value) :=
  [(ofString "id", str "0001020304050607"),
    (ofString "type", str "recovery_file_secret"),
    (ofString "status", str "active"),
    (ofString "kdf", str "HKDF-SHA256"),
    (ofString "salt", str "AAECAwQFBgcICQoLDA0ODw=="),
    (ofString "wrapped_key", str "AAECAwQF"),
    (ofString "metadata", .obj [])]

/-- The recovery file around that wrapper. -/
def recoveryFile : JsonValue where
  tree := buildRecoveryFile (ofString "vault-rf") (List.replicate 32 7)
    (.obj wrapperFields) (ofString "2026-01-01T00:00:00.000Z")
  proper := by decide

theorem hasField_at {name : String} {kind : Value → Prop} {w : Value}
    {fields : List (JsString × Value)} (i : ℕ)
    (h : fields[i]? = some (ofString name, w)) (hkind : kind w) :
    HasField name kind (.obj fields) :=
  ⟨fields, w, rfl, List.mem_of_getElem? h, hkind⟩

theorem wrapperFields_isVaultWrapper :
    IsVaultWrapper (.obj wrapperFields) where
  id := hasField_at 0 rfl ⟨_, rfl⟩
  type := hasField_at 1 rfl ⟨"recovery_file_secret", by simp, rfl⟩
  status := hasField_at 2 rfl ⟨"active", by simp, rfl⟩
  kdf := hasField_at 3 rfl ⟨"HKDF-SHA256", by simp, rfl⟩
  salt := hasField_at 4 rfl ⟨_, rfl⟩
  wrapped_key := hasField_at 5 rfl ⟨_, rfl⟩
  diagnostic_only := by
    intro ⟨fields, w, hfields, hw, _⟩
    obtain rfl := obj.inj hfields
    have hkey : ofString "diagnostic_only" ∈ wrapperFields.map Prod.fst :=
      List.mem_map_of_mem (f := Prod.fst) hw
    exact absurd hkey (by decide)
  metadata := hasField_at 6 rfl ⟨[], rfl⟩

/-- The gate lets a recovery file pass. -/
theorem recovery_file_passes :
    Contains IsRecoveryFile recoveryFile.tree
      ∧ assertNoPlaintextNoteFields recoveryFile.tree = .ok ()
      ∧ ¬ Caught recoveryFile.tree := by
  have hfile : Contains IsRecoveryFile recoveryFile.tree :=
    ⟨_, mem_parts_self _, _, _, _, _, wrapperFields_isVaultWrapper, rfl⟩
  have hpasses : assertNoPlaintextNoteFields recoveryFile.tree = .ok () :=
    (buildRecoveryFile_passes _ _ _ _).mpr
      ((assert_eq_ok_iff _).mpr (by decide))
  exact ⟨hfile, hpasses, fun hcaught =>
    throws_iff_ne_ok.mp (hcaught (.inr (.inr hfile))) hpasses⟩

end Lumix.NoteVault
