/-
The selective-disclosure reports of LumixProtocol View.

A report is signed over a canonical text of its fields. The response
carries the report; a row of `view_key_reports` keeps what a verifier
rebuilds it from. The text tells reports apart up to the order of their
lists (`canonicalReportPayload_eq_iff`). The row keeps most of a report,
but not the disclosed amounts, of the time of signing only the time of
its own insertion, and of a time range only the instants. So the rebuilt
report verifies exactly when none of these was lost
(`persisted_reports_verify`).
-/
import Lumix.Basic.Word
import Lumix.Lib.Exec
import Lumix.Lib.Json

namespace Lumix.Services.Reports

open Exec Json Text

-- ================================================================ reports

/-- An amount that is disclosed. -/
structure DisclosedAmount where
  commitment : String
  amount7dp : String
  currency : String
deriving DecidableEq

/-- What a report says. -/
structure ViewKeyReportInput where
  userId : String
  timeRangeFrom : Option String
  timeRangeTo : Option String
  noteCommitments : List String
  disclosedNullifiers : List String
  quoteId : Option String
  policyId : Option String
  anchorId : Option String
  amountsDisclosed : Option (List DisclosedAmount)
  proofLinks : List String
deriving DecidableEq

/-- A report before it is signed. -/
structure UnsignedViewKeyReport extends ViewKeyReportInput where
  reportId : String
  generatedAt : String
deriving DecidableEq

/-- A report with its signature. -/
structure SignedViewKeyReport extends UnsignedViewKeyReport where
  servicePubkeyHex : String
  serviceSignatureHex : String
deriving DecidableEq

/-- `s ?? null` -/
def nullable : Option String → Value
  | some s => .str s
  | none => .null

/-- An array of texts. -/
def strings (l : List String) : Value := .arr (l.map .str)

/-- An amount in a report's payload. -/
def DisclosedAmount.toJson (a : DisclosedAmount) : Value :=
  .obj [("commitment", .str a.commitment), ("amount7dp", .str a.amount7dp),
    ("currency", .str a.currency)]

/-- The text that is signed: the fields in this order. -/
def canonicalReportPayload (r : UnsignedViewKeyReport) : String :=
  stringify (.obj [
    ("reportId", .str r.reportId),
    ("userId", .str r.userId),
    ("generatedAt", .str r.generatedAt),
    ("timeRangeFrom", nullable r.timeRangeFrom),
    ("timeRangeTo", nullable r.timeRangeTo),
    ("noteCommitments", strings (sort r.noteCommitments)),
    ("disclosedNullifiers", strings (sort r.disclosedNullifiers)),
    ("quoteId", nullable r.quoteId),
    ("policyId", nullable r.policyId),
    ("anchorId", nullable r.anchorId),
    ("amountsDisclosed",
      .arr ((r.amountsDisclosed.getD []).map DisclosedAmount.toJson)),
    ("proofLinks", strings (sort r.proofLinks))])

-- =============================================================== signing

/-- An ed25519 key pair. -/
structure Keypair where
  publicKey : Word
  sign : Bytes → Bytes

/-- What the service is built on: the hash and the curve, the texts of a
clock's readings, the times a column accepts, and the box of an
attachment. -/
structure Env where
  sha256 : Bytes → Word
  fromSecret : String → Except String Keypair
  verify : Word → Bytes → Bytes → Bool
  Instant : Type
  toISOString : Instant → String
  timestamptz : String → Except String Instant
  datetime : String → Bool
  encryptReportAttachment : SignedViewKeyReport → String → String
  viewSigningSecret : Option String

section

variable (env : Env)

/-- Its `sha256`. -/
def payloadDigest (r : UnsignedViewKeyReport) : Bytes :=
  (env.sha256 (utf8 (canonicalReportPayload r))).toBytes

/-- The service signs a report as of now. -/
def signViewKeyReport (now : env.Instant) (input : ViewKeyReportInput)
    (reportId serviceSecret : String) :
    Except String SignedViewKeyReport := do
  let kp ← env.fromSecret serviceSecret
  let unsigned : UnsignedViewKeyReport :=
    { input with reportId, generatedAt := env.toISOString now }
  return { unsigned with
    servicePubkeyHex := bytesHex kp.publicKey.toBytes
    serviceSignatureHex := bytesHex (kp.sign (payloadDigest env unsigned)) }

/-- The signature is of the report's digest under its own key. -/
def verifyViewKeyReport (report : SignedViewKeyReport) :
    Except String Bool := do
  let pk := bufferFromHex report.servicePubkeyHex
  panicIf (pk.length ≠ 32) "Invalid public key"
  return env.verify (Word.ofBytes pk)
    (payloadDigest env report.toUnsignedViewKeyReport)
    (bufferFromHex report.serviceSignatureHex)

-- ============================================================== database

/-- A row of `settlements`. -/
structure SettlementRow where
  settlement_id : String
  user_id : Option String
  quote_id : String
  nullifier : String
  stellar_tx_hash : Option String

/-- A row of `note_commitments`. -/
structure NoteCommitmentRow where
  commitment : String
  user_id : Option String
  policy_id : String
  amount_usdc_7dp : String

/-- A row of `anchor_payouts`. -/
structure AnchorPayoutRow where
  settlement_id : Option String
  anchor_transaction_id : Option String

/-- A row of `view_key_reports`; it has no column for amounts. -/
structure ViewKeyReportRow where
  report_id : String
  user_id : String
  time_range_from : Option env.Instant
  time_range_to : Option env.Instant
  note_commitments : List String
  disclosed_nullifiers : List String
  quote_id : Option String
  policy_id : Option String
  anchor_id : Option String
  amount_disclosed : Bool
  proof_links : List String
  service_pubkey : String
  service_signature : String
  encrypted_attachment : Option String
  created_at : env.Instant

/-- The tables the route reads and writes. -/
structure Tables where
  settlements : List SettlementRow
  noteCommitments : List NoteCommitmentRow
  anchorPayouts : List AnchorPayoutRow
  viewKeyReports : List (ViewKeyReportRow env)

section

variable {env} (t : Tables env)

/-- Those of the ids that are the user's. -/
def getOwnedSettlements (userId : String) (settlementIds : List String) :
    List SettlementRow :=
  t.settlements.filter fun s =>
    s.user_id = some userId ∧ s.settlement_id ∈ settlementIds

/-- Those of the commitments that are the user's. -/
def getOwnedNoteCommitments (userId : String)
    (commitments : List String) : List NoteCommitmentRow :=
  t.noteCommitments.filter fun c =>
    c.user_id = some userId ∧ c.commitment ∈ commitments

/-- The statement does not order the ids it selects. -/
def getAnchorIdsForSettlements (settlementIds : List String) :
    List String :=
  ((t.anchorPayouts.filter fun a =>
      ∃ id ∈ a.settlement_id, id ∈ settlementIds).filterMap
    (·.anchor_transaction_id)).eraseDups

/-- The report, if it is the user's. -/
def getViewKeyReport (userId reportId : String) :
    Option (ViewKeyReportRow env) :=
  t.viewKeyReports.find? fun row =>
    row.report_id = reportId ∧ row.user_id = userId

end

/-- The values of an insertion, as they are sent. -/
structure NewViewKeyReport where
  reportId : String
  userId : String
  timeRangeFrom : Option String
  timeRangeTo : Option String
  noteCommitments : List String
  disclosedNullifiers : List String
  quoteId : Option String
  policyId : Option String
  anchorId : Option String
  amountDisclosed : Bool
  proofLinks : List String
  servicePubkey : String
  serviceSignature : String
  encryptedAttachment : Option String

/-- A nullable column of times. -/
def timeColumn : Option String → Except String (Option env.Instant)
  | none => .ok none
  | some s => (env.timestamptz s).map some

/-- The columns of a new row; `created_at` is the time of insertion. -/
def newRow (now : env.Instant) (row : NewViewKeyReport)
    (time_range_from time_range_to : Option env.Instant) :
    ViewKeyReportRow env where
  report_id := row.reportId
  user_id := row.userId
  time_range_from
  time_range_to
  note_commitments := row.noteCommitments
  disclosed_nullifiers := row.disclosedNullifiers
  quote_id := row.quoteId
  policy_id := row.policyId
  anchor_id := row.anchorId
  amount_disclosed := row.amountDisclosed
  proof_links := row.proofLinks
  service_pubkey := row.servicePubkey
  service_signature := row.serviceSignature
  encrypted_attachment := row.encryptedAttachment
  created_at := now

/-- The row is inserted unless its id is taken or a time is none. -/
def insertViewKeyReport (now : env.Instant) (t : Tables env)
    (row : NewViewKeyReport) : Except String (Tables env) := do
  let time_range_from ← timeColumn env row.timeRangeFrom
  let time_range_to ← timeColumn env row.timeRangeTo
  panicIf (∃ old ∈ t.viewKeyReports, old.report_id = row.reportId)
    "duplicate key value violates unique constraint"
  return { t with viewKeyReports := t.viewKeyReports
    ++ [newRow env now row time_range_from time_range_to] }

-- ================================================================ routes

/-- The body of `POST /v1/reports/view-key`. -/
structure ViewKeyReportBody where
  settlement_ids : List String
  note_commitments : List String
  time_range_from : Option String
  time_range_to : Option String
  quote_id : Option String
  policy_id : Option String
  anchor_id : Option String
  disclose_amounts : Bool
  attachment_recipient_pubkey : Option String

/-- `z.string().min(1)` -/
def nonempty (s : String) : Bool := s ≠ ""

/-- What the body is parsed with. -/
def viewKeyReportSchema (body : ViewKeyReportBody) : Bool :=
  body.settlement_ids.all nonempty && body.settlement_ids.length ≤ 200
    && body.note_commitments.all nonempty
    && body.note_commitments.length ≤ 200
    && body.time_range_from.all env.datetime
    && body.time_range_to.all env.datetime
    && body.quote_id.all nonempty && body.policy_id.all nonempty
    && body.anchor_id.all nonempty
    && body.attachment_recipient_pubkey.all fun k =>
      k.length = 64 && k.toList.all fun c => (digitValue c).isSome

/-- Where a transaction is to be seen. -/
def explorerLink (h : String) : String :=
  "https://stellar.expert/explorer/testnet/tx/" ++ h

/-- What a request asks to be reported, of what its user owns. -/
def reportInput (t : Tables env) (userId : String)
    (body : ViewKeyReportBody) : ViewKeyReportInput :=
  let settlements := getOwnedSettlements t userId body.settlement_ids
  let commitments := getOwnedNoteCommitments t userId body.note_commitments
  let anchorIds := match body.anchor_id with
    | some id => [id]
    | none => getAnchorIdsForSettlements t
        (settlements.map SettlementRow.settlement_id)
  { userId
    timeRangeFrom := body.time_range_from
    timeRangeTo := body.time_range_to
    noteCommitments := commitments.map (·.commitment)
    disclosedNullifiers := (settlements.map (·.nullifier)).filter nonempty
    quoteId := body.quote_id.or (settlements.head?.map (·.quote_id))
    policyId := body.policy_id.or (commitments.head?.map (·.policy_id))
    anchorId := anchorIds.head?
    amountsDisclosed :=
      if body.disclose_amounts then
        some (commitments.map fun c =>
          ⟨c.commitment, c.amount_usdc_7dp, "USDC"⟩)
      else none
    proofLinks := ((settlements.filterMap (·.stellar_tx_hash)).filter
      nonempty).map explorerLink }

/-- `POST /v1/reports/view-key`, signed at `signedAt` under the random id
`reportId` and inserted at `insertedAt`. -/
def postViewKeyReport (t : Tables env) (userId : String)
    (body : ViewKeyReportBody) (reportId : String)
    (signedAt insertedAt : env.Instant) :
    Except String ((SignedViewKeyReport × Option String) × Tables env) := do
  panicIf (viewKeyReportSchema env body = false) "invalid body"
  let serviceSecret ← orPanic
    ("LumixProtocol View service not configured "
      ++ "(LUMIXPROTOCOL_VIEW_SIGNING_SECRET unset)")
    (env.viewSigningSecret.filter nonempty)
  let signed ← signViewKeyReport env signedAt
    (reportInput env t userId body) reportId serviceSecret
  let encryptedAttachment := body.attachment_recipient_pubkey.map
    (env.encryptReportAttachment signed)
  let t ← insertViewKeyReport env insertedAt t {
    reportId
    userId
    timeRangeFrom := body.time_range_from
    timeRangeTo := body.time_range_to
    noteCommitments := signed.noteCommitments
    disclosedNullifiers := signed.disclosedNullifiers
    quoteId := signed.quoteId
    policyId := signed.policyId
    anchorId := signed.anchorId
    amountDisclosed := body.disclose_amounts
    proofLinks := signed.proofLinks
    servicePubkey := signed.servicePubkeyHex
    serviceSignature := signed.serviceSignatureHex
    encryptedAttachment }
  return ((signed, encryptedAttachment), t)

/-- The report a verifier reconstructs from its row: each field from the
column that keeps it, the time of signing from that of insertion. The
amounts have no column. -/
def rebuilt (row : ViewKeyReportRow env) : SignedViewKeyReport where
  userId := row.user_id
  timeRangeFrom := row.time_range_from.map env.toISOString
  timeRangeTo := row.time_range_to.map env.toISOString
  noteCommitments := row.note_commitments
  disclosedNullifiers := row.disclosed_nullifiers
  quoteId := row.quote_id
  policyId := row.policy_id
  anchorId := row.anchor_id
  amountsDisclosed := none
  proofLinks := row.proof_links
  reportId := row.report_id
  generatedAt := env.toISOString row.created_at
  servicePubkeyHex := row.service_pubkey
  serviceSignatureHex := row.service_signature

-- ======================================================= one canonical text

/-- An absent text is not any text. -/
@[simp]
theorem nullable_inj {a b : Option String} :
    nullable a = nullable b ↔ a = b := by
  cases a <;> cases b <;> simp [nullable]

/-- Arrays of texts are told apart, -/
@[simp]
theorem strings_inj {l l' : List String} :
    strings l = strings l' ↔ l = l' := by
  unfold strings
  rw [Value.arr.injEq]
  exact List.map_inj_right fun a b h => Value.str.inj h

/-- and so are amounts. -/
theorem DisclosedAmount.toJson_inj {a b : DisclosedAmount}
    (h : a.toJson = b.toJson) : a = b := by
  obtain ⟨c, n, u⟩ := a
  simp only [DisclosedAmount.toJson, Value.obj.injEq, List.cons.injEq,
    Prod.mk.injEq, Value.str.injEq, true_and, and_true] at h
  obtain ⟨rfl, rfl, rfl⟩ := h
  rfl

/-- The fields agree, up to the order of the lists. Amounts that are not
disclosed are an empty list. -/
structure SameReport (r s : UnsignedViewKeyReport) : Prop where
  reportId : r.reportId = s.reportId
  userId : r.userId = s.userId
  generatedAt : r.generatedAt = s.generatedAt
  timeRangeFrom : r.timeRangeFrom = s.timeRangeFrom
  timeRangeTo : r.timeRangeTo = s.timeRangeTo
  noteCommitments : r.noteCommitments.Perm s.noteCommitments
  disclosedNullifiers : r.disclosedNullifiers.Perm s.disclosedNullifiers
  quoteId : r.quoteId = s.quoteId
  policyId : r.policyId = s.policyId
  anchorId : r.anchorId = s.anchorId
  amountsDisclosed :
    r.amountsDisclosed.getD [] = s.amountsDisclosed.getD []
  proofLinks : r.proofLinks.Perm s.proofLinks

/-- The canonical text tells reports apart. -/
theorem canonicalReportPayload_eq_iff {r s : UnsignedViewKeyReport} :
    canonicalReportPayload r = canonicalReportPayload s
      ↔ SameReport r s := by
  have hamounts (l l' : List DisclosedAmount) :
      l.map DisclosedAmount.toJson = l'.map DisclosedAmount.toJson
        ↔ l = l' :=
    List.map_inj_right fun a b h => DisclosedAmount.toJson_inj h
  constructor
  · intro h
    have hfields := stringify_inj h
    simp only [Value.obj.injEq, List.cons.injEq, Prod.mk.injEq,
      Value.str.injEq, Value.arr.injEq, nullable_inj, strings_inj,
      sort_eq_iff, hamounts, true_and, and_true] at hfields
    obtain ⟨h₁, h₂, h₃, h₄, h₅, h₆, h₇, h₈, h₉, h₁₀, h₁₁, h₁₂⟩ := hfields
    exact ⟨h₁, h₂, h₃, h₄, h₅, h₆, h₇, h₈, h₉, h₁₀, h₁₁, h₁₂⟩
  · intro h
    unfold canonicalReportPayload
    rw [h.reportId, h.userId, h.generatedAt, h.timeRangeFrom,
      h.timeRangeTo, sort_eq_iff.mpr h.noteCommitments,
      sort_eq_iff.mpr h.disclosedNullifiers, h.quoteId, h.policyId,
      h.anchorId, h.amountsDisclosed, sort_eq_iff.mpr h.proofLinks]

-- ========================================================= what verifies

variable {env}

/-- sha256 and ed25519 as they are relied on: the texts do not collide,
and a signature is of what was signed alone. -/
structure Idealised (env : Env) (kp : Keypair)
    (signed checked : UnsignedViewKeyReport) : Prop where
  digest : payloadDigest env checked = payloadDigest env signed →
    canonicalReportPayload checked = canonicalReportPayload signed
  correct : env.verify kp.publicKey (payloadDigest env signed)
    (kp.sign (payloadDigest env signed)) = true
  only : env.verify kp.publicKey (payloadDigest env checked)
      (kp.sign (payloadDigest env signed)) = true →
    payloadDigest env checked = payloadDigest env signed

/-- A report carries the signature of another. -/
structure SignedAs (env : Env) (kp : Keypair)
    (report : SignedViewKeyReport) (signed : UnsignedViewKeyReport) :
    Prop where
  pubkey : report.servicePubkeyHex = bytesHex kp.publicKey.toBytes
  signature : report.serviceSignatureHex
    = bytesHex (kp.sign (payloadDigest env signed))

/-- Under ideal crypto a report verifies when it is the one that was
signed. -/
theorem verifyViewKeyReport_iff {kp : Keypair}
    {report : SignedViewKeyReport} {signed : UnsignedViewKeyReport}
    (h : SignedAs env kp report signed)
    (hideal : Idealised env kp signed report.toUnsignedViewKeyReport) :
    verifyViewKeyReport env report = .ok true
      ↔ SameReport report.toUnsignedViewKeyReport signed := by
  have hverify : verifyViewKeyReport env report
      = .ok (env.verify kp.publicKey
        (payloadDigest env report.toUnsignedViewKeyReport)
        (kp.sign (payloadDigest env signed))) := by
    unfold verifyViewKeyReport
    dsimp only
    rw [h.pubkey, h.signature, bufferFromHex_bytesHex,
      bufferFromHex_bytesHex, Word.ofBytes_toBytes, Word.length_toBytes,
      panicIf, if_neg (by decide)]
    rfl
  rw [hverify, Except.ok.injEq, ← canonicalReportPayload_eq_iff]
  constructor
  · intro haccepted
    exact hideal.digest (hideal.only haccepted)
  · intro hpayload
    have hdigest : payloadDigest env report.toUnsignedViewKeyReport
        = payloadDigest env signed := by
      unfold payloadDigest
      rw [hpayload]
    rw [hdigest]
    exact hideal.correct

-- ========================================================= what is stored

/-- The report that is signed. -/
def toSign (now : env.Instant) (input : ViewKeyReportInput)
    (reportId : String) : UnsignedViewKeyReport :=
  { input with reportId, generatedAt := env.toISOString now }

/-- A report that was signed says what it was to, and is signed. -/
theorem signViewKeyReport_eq_ok {now : env.Instant}
    {input : ViewKeyReportInput} {reportId secret : String}
    {signed : SignedViewKeyReport}
    (h : signViewKeyReport env now input reportId secret = .ok signed) :
    signed.toUnsignedViewKeyReport = toSign now input reportId
      ∧ ∃ kp, env.fromSecret secret = .ok kp
        ∧ SignedAs env kp signed signed.toUnsignedViewKeyReport := by
  unfold signViewKeyReport at h
  rw [bind_eq_ok] at h
  obtain ⟨kp, hkp, h⟩ := h
  cases h
  exact ⟨rfl, kp, hkp, rfl, rfl⟩

/-- The new row is the one its user gets back. -/
theorem insertViewKeyReport_eq_ok {now : env.Instant} {t t' : Tables env}
    {row : NewViewKeyReport}
    (h : insertViewKeyReport env now t row = .ok t') :
    ∃ lower upper, timeColumn env row.timeRangeFrom = .ok lower
      ∧ timeColumn env row.timeRangeTo = .ok upper
      ∧ getViewKeyReport t' row.userId row.reportId
        = some (newRow env now row lower upper) := by
  unfold insertViewKeyReport at h
  simp only [bind_eq_ok, panicIf_eq_ok] at h
  obtain ⟨lower, hlower, upper, hupper, -, hfresh, h⟩ := h
  cases h
  refine ⟨lower, upper, hlower, hupper, ?_⟩
  unfold getViewKeyReport
  rw [List.find?_append, List.find?_eq_none.mpr, Option.none_or]
  · simp [newRow]
  · intro old hold hboth
    exact hfresh ⟨old, hold, (of_decide_eq_true hboth).1⟩

/-- The text of a clock's reading is a time of the same text. -/
def ReadsBack (env : Env) : Prop :=
  ∀ i, ∃ j, env.timestamptz (env.toISOString i) = .ok j
    ∧ env.toISOString j = env.toISOString i

/-- A time is read back unchanged if it is the text of a reading. -/
theorem timeColumn_unchanged {s : Option String}
    {column : Option env.Instant} (hreads : ReadsBack env)
    (h : timeColumn env s = .ok column) :
    column.map env.toISOString = s
      ↔ ∀ text ∈ s, ∃ i, text = env.toISOString i := by
  cases s with
  | none =>
      cases h
      exact ⟨fun _ _ hnone => (by cases hnone), fun _ => rfl⟩
  | some text =>
      cases htime : env.timestamptz text with
      | error e =>
          rw [timeColumn, htime] at h
          cases h
      | ok j =>
          rw [timeColumn, htime] at h
          cases h
          simp only [Option.map_some, Option.some.injEq, Option.mem_def,
            forall_eq']
          constructor
          · intro hj
            exact ⟨j, hj.symm⟩
          · rintro ⟨i, rfl⟩
            obtain ⟨j', hj', htext⟩ := hreads i
            rw [htime, Except.ok.injEq] at hj'
            rw [hj', htext]

/-- Nothing of the report is lost: no amounts are disclosed, the bounds of
the time range are written as a clock's readings are, and the row is
inserted within the millisecond of signing. -/
structure Survives (t : Tables env) (userId : String)
    (body : ViewKeyReportBody) (signedAt insertedAt : env.Instant) :
    Prop where
  amounts : body.disclose_amounts = true →
    getOwnedNoteCommitments t userId body.note_commitments = []
  timeRangeFrom : ∀ s ∈ body.time_range_from, ∃ i, s = env.toISOString i
  timeRangeTo : ∀ s ∈ body.time_range_to, ∃ i, s = env.toISOString i
  generatedAt : env.toISOString insertedAt = env.toISOString signedAt

/-- The amounts of a report are none if none were asked for, or if there
are no commitments to disclose them of. -/
theorem amountsDisclosed_eq_nil {t : Tables env} {userId : String}
    {body : ViewKeyReportBody} :
    ((reportInput env t userId body).amountsDisclosed.getD [] = [])
      ↔ (body.disclose_amounts = true →
        getOwnedNoteCommitments t userId body.note_commitments = []) := by
  unfold reportInput
  dsimp only
  by_cases hdisclose : body.disclose_amounts = true
  · rw [if_pos hdisclose, Option.getD_some, List.map_eq_nil_iff]
    exact ⟨fun h _ => h, fun h => h hdisclose⟩
  · rw [if_neg hdisclose]
    exact ⟨fun _ h => absurd h hdisclose, fun _ => rfl⟩

/-- What is stored of a report, and when it is the report signed. -/
theorem postViewKeyReport_stores {t t' : Tables env}
    {userId reportId : String} {body : ViewKeyReportBody}
    {signedAt insertedAt : env.Instant} {signed : SignedViewKeyReport}
    {attachment : Option String} (hreads : ReadsBack env)
    (h : postViewKeyReport env t userId body reportId signedAt insertedAt
      = .ok ((signed, attachment), t')) :
    ∃ kp row, (∃ secret ∈ env.viewSigningSecret,
        env.fromSecret secret = .ok kp)
      ∧ getViewKeyReport t' userId reportId = some row
      ∧ SignedAs env kp (rebuilt env row) signed.toUnsignedViewKeyReport
      ∧ (SameReport (rebuilt env row).toUnsignedViewKeyReport
          signed.toUnsignedViewKeyReport
        ↔ Survives t userId body signedAt insertedAt) := by
  unfold postViewKeyReport at h
  simp only [bind_eq_ok, panicIf_eq_ok, orPanic_eq_ok] at h
  obtain ⟨-, -, secret, hsecret, signed', hsign, t'', hinsert, h⟩ := h
  cases h
  obtain ⟨hsigned, kp, hkp, hpubkey, hsignature⟩ :=
    signViewKeyReport_eq_ok hsign
  obtain ⟨lower, upper, hlower, hupper, hrow⟩ :=
    insertViewKeyReport_eq_ok hinsert
  refine ⟨kp, _, ⟨secret, (Option.filter_eq_some_iff.mp hsecret).1, hkp⟩, hrow,
    ⟨hpubkey, hsignature⟩, ?_⟩
  have hfrom := timeColumn_unchanged hreads hlower
  have hto := timeColumn_unchanged hreads hupper
  have hgenerated : signed.generatedAt = env.toISOString signedAt :=
    congrArg UnsignedViewKeyReport.generatedAt hsigned
  have hinput : signed.toViewKeyReportInput = reportInput env t userId body :=
    congrArg UnsignedViewKeyReport.toViewKeyReportInput hsigned
  constructor
  · intro hsame
    have hrange := hsame.timeRangeFrom
    have hrange' := hsame.timeRangeTo
    have hamounts := hsame.amountsDisclosed
    have hcreated := hsame.generatedAt
    rw [hinput] at hrange hrange' hamounts
    rw [hgenerated] at hcreated
    exact ⟨amountsDisclosed_eq_nil.mp hamounts.symm, hfrom.mp hrange,
      hto.mp hrange', hcreated⟩
  · intro hsurvives
    have hid : reportId = signed.reportId :=
      (congrArg UnsignedViewKeyReport.reportId hsigned).symm
    have huser : userId = signed.userId := by
      rw [hinput]
      rfl
    have hlower := hfrom.mpr hsurvives.timeRangeFrom
    have hupper := hto.mpr hsurvives.timeRangeTo
    have hnone := amountsDisclosed_eq_nil.mpr hsurvives.amounts
    refine ⟨hid, huser, ?_, ?_, ?_, .refl _, .refl _, rfl, rfl, rfl, ?_,
      .refl _⟩
    · rw [hgenerated]
      exact hsurvives.generatedAt
    · rw [hinput]
      exact hlower
    · rw [hinput]
      exact hupper
    · rw [hinput, hnone]
      rfl

/-- A rebuilt report verifies exactly when nothing of it was lost. -/
theorem rebuilt_verifies_iff {t t' : Tables env}
    {userId reportId : String} {body : ViewKeyReportBody}
    {signedAt insertedAt : env.Instant} {signed : SignedViewKeyReport}
    {attachment : Option String} (hreads : ReadsBack env)
    (h : postViewKeyReport env t userId body reportId signedAt insertedAt
      = .ok ((signed, attachment), t')) :
    ∃ kp row, (∃ secret ∈ env.viewSigningSecret,
        env.fromSecret secret = .ok kp)
      ∧ getViewKeyReport t' userId reportId = some row
      ∧ (Idealised env kp signed.toUnsignedViewKeyReport
          (rebuilt env row).toUnsignedViewKeyReport →
        (verifyViewKeyReport env (rebuilt env row) = .ok true
          ↔ Survives t userId body signedAt insertedAt)) := by
  obtain ⟨kp, row, hkp, hrow, hsigned, hsame⟩ :=
    postViewKeyReport_stores hreads h
  refine ⟨kp, row, hkp, hrow, fun hideal => ?_⟩
  rw [verifyViewKeyReport_iff hsigned hideal]
  exact hsame

/-- Rebuilt from its row, a report verifies exactly when nothing of it was
lost; and reports with one canonical text are the same. -/
theorem persisted_reports_verify (env : Env) :
    (∀ (t t' : Tables env) (userId reportId : String)
        (body : ViewKeyReportBody) (signedAt insertedAt : env.Instant)
        (signed : SignedViewKeyReport) (attachment : Option String),
      ReadsBack env →
      postViewKeyReport env t userId body reportId signedAt insertedAt
        = .ok ((signed, attachment), t') →
      ∃ kp row, (∃ secret ∈ env.viewSigningSecret,
          env.fromSecret secret = .ok kp)
        ∧ getViewKeyReport t' userId reportId = some row
        ∧ (Idealised env kp signed.toUnsignedViewKeyReport
            (rebuilt env row).toUnsignedViewKeyReport →
          (verifyViewKeyReport env (rebuilt env row) = .ok true
            ↔ Survives t userId body signedAt insertedAt)))
      ∧ ∀ r s : UnsignedViewKeyReport,
        canonicalReportPayload r = canonicalReportPayload s
          ↔ SameReport r s :=
  ⟨fun _ _ _ _ _ _ _ _ _ hreads h => rebuilt_verifies_iff hreads h,
    fun _ _ => canonicalReportPayload_eq_iff⟩

end

-- =========================================================== one request

namespace Demo

/-- The user, -/
def userId : String := "c2b4b0de-1f0a-4b58-8f0e-6a6f2d6f7a10"

/-- the report, -/
def reportId : String := "5f0c1a52-7d1e-4f43-9b8e-2f6f3f0a9c11"

/-- the one commitment it is about, -/
def commitment : String :=
  "0x0a0a0a0a0a0a0a0a0a0a0a0a0a0a0a0a0a0a0a0a0a0a0a0a0a0a0a0a0a0a0a0a"

/-- its policy -/
def policyId : String := "lumixprotocol:default-testnet-policy:v1"

/-- The report of one note, with or without its amount. -/
def report (amounts : Option (List DisclosedAmount)) :
    UnsignedViewKeyReport where
  userId := userId
  timeRangeFrom := none
  timeRangeTo := none
  noteCommitments := [commitment]
  disclosedNullifiers := []
  quoteId := none
  policyId := some policyId
  anchorId := none
  amountsDisclosed := amounts
  proofLinks := []
  reportId := reportId
  generatedAt := "2026-07-01T12:00:00.250Z"

/-- and its amount. -/
def amounts : List DisclosedAmount := [⟨commitment, "25000000", "USDC"⟩]

/-- `sha256` of the payload without amounts, -/
def withheldDigest : Word :=
  0xad668f72df66455dbdbb14c0967119d41378ecc23fb04a837ecf40546c1d0d42

/-- and with them. -/
def disclosedDigest : Word :=
  0x82a1b06ee47ccb05ab431babf5b81ba05e7047af97984b9afc6c0b38561656b5

/-- The service's signature of the one, -/
def withheldSignature : Bytes :=
  (0x12cc3a8b760236b47ad1c05e52fd65e3baf81ad1415220f43de096cc43d83b98
    : Word).toBytes
  ++ (0xb83f18415cdef3bef563c1961a092f20464e57a015f3e17f38291717265d390e
    : Word).toBytes

/-- and of the other. -/
def disclosedSignature : Bytes :=
  (0x16ae525b14071e9f4921d72ae6f7c0f34a77e6aaa3e468bf9117d445bef8c7e4
    : Word).toBytes
  ++ (0x3b823f29ddedacb6afd803660de2eb4d3e3598aac6428aa95c41192d7e6e8c0b
    : Word).toBytes

/-- The service's key pair, on the two digests. -/
def serviceKey : Keypair where
  publicKey :=
    0x5be29cc4f29e8de01a8218ff098ce6c8213d3ca8b24e8738bc93655586363b4d
  sign := fun digest =>
    if digest = disclosedDigest.toBytes then disclosedSignature
    else withheldSignature

/-- Its secret. -/
def serviceSecret : String :=
  "SDYDWU3EOKELBBEK52IWHE4ABHDVNTBWC5J7UTBX6I2WQDKWHL7S7K4T"

/-- The clock shows a second of one day. -/
def toISOString (ms : Fin 1000) : String :=
  "2026-07-01T12:00:00." ++ padStart 3 (toString ms.val) ++ "Z"

/-- An instant that is read back to the millisecond. -/
def timestamptz (s : String) : Option (Fin 1000) :=
  (List.finRange 1000).find? fun ms => toISOString ms = s

/-- The environment these are of. -/
def env : Env where
  sha256 := fun bytes =>
    if bytes = utf8 (canonicalReportPayload (report (some amounts))) then
      disclosedDigest
    else withheldDigest
  fromSecret := fun secret =>
    if secret = serviceSecret then .ok serviceKey else .error "invalid"
  verify := fun key digest signature =>
    key = serviceKey.publicKey
      ∧ ((digest = withheldDigest.toBytes ∧ signature = withheldSignature)
        ∨ (digest = disclosedDigest.toBytes
          ∧ signature = disclosedSignature))
  Instant := Fin 1000
  toISOString := toISOString
  timestamptz := fun s =>
    orPanic "invalid input syntax for type timestamp with time zone"
      (timestamptz s)
  datetime := fun _ => true
  encryptReportAttachment := fun _ _ => ""
  viewSigningSecret := some serviceSecret

/-- The user has the commitment. -/
def tables : Tables env where
  settlements := []
  noteCommitments := [⟨commitment, some userId, policyId, "25000000"⟩]
  anchorPayouts := []
  viewKeyReports := []

/-- They ask for it, with amounts or without. -/
def body (discloseAmounts : Bool) : ViewKeyReportBody where
  settlement_ids := []
  note_commitments := [commitment]
  time_range_from := none
  time_range_to := none
  quote_id := none
  policy_id := none
  anchor_id := none
  disclose_amounts := discloseAmounts
  attachment_recipient_pubkey := none

/-- A quarter of a second after the start. -/
def now : env.Instant := (250 : Fin 1000)

/-- What is written is read as what is written again. -/
theorem timestamptz_toISOString (i : Fin 1000) :
    ∃ j, timestamptz (toISOString i) = some j
      ∧ toISOString j = toISOString i := by
  have hsome : (timestamptz (toISOString i)).isSome = true :=
    List.find?_isSome.mpr ⟨i, List.mem_finRange i, decide_eq_true rfl⟩
  obtain ⟨j, hj⟩ := Option.isSome_iff_exists.mp hsome
  refine ⟨j, hj, ?_⟩
  unfold timestamptz at hj
  simpa using List.find?_some hj

/-- So the database gives instants back. -/
theorem readsBack : ReadsBack env := by
  intro i
  obtain ⟨j, hj, htext⟩ := timestamptz_toISOString i
  refine ⟨j, ?_, htext⟩
  simp only [env, orPanic_eq_ok]
  exact hj

/-- The digest without amounts, -/
theorem digest_withheld :
    payloadDigest env (report none) = withheldDigest.toBytes := by
  have hne : utf8 (canonicalReportPayload (report none))
      ≠ utf8 (canonicalReportPayload (report (some amounts))) := by
    intro h
    have hamounts :=
      (canonicalReportPayload_eq_iff.mp (utf8_inj h)).amountsDisclosed
    cases hamounts
  exact congrArg Word.toBytes (if_neg hne)

/-- and with them. -/
theorem digest_disclosed :
    payloadDigest env (report (some amounts)) = disclosedDigest.toBytes :=
  congrArg Word.toBytes (if_pos rfl)

/-- The request is answered, and its row is of a report without its
amount. -/
theorem posted (discloseAmounts : Bool) :
    ∃ signed attachment t' row,
      postViewKeyReport env tables userId (body discloseAmounts) reportId
          now now = .ok ((signed, attachment), t')
        ∧ getViewKeyReport t' userId reportId = some row
        ∧ signed.toUnsignedViewKeyReport
          = report (if discloseAmounts then some amounts else none)
        ∧ (rebuilt env row).toUnsignedViewKeyReport = report none := by
  cases discloseAmounts with
  | false => exact ⟨_, _, _, _, rfl, rfl, rfl, rfl⟩
  | true => exact ⟨_, _, _, _, rfl, rfl, rfl, rfl⟩

/-- No two payloads here collide, and no signature is forged. -/
theorem idealised (discloseAmounts : Bool) :
    Idealised env serviceKey
      (report (if discloseAmounts then some amounts else none))
      (report none) := by
  cases discloseAmounts with
  | false =>
      refine ⟨fun _ => rfl, ?_, fun _ => rfl⟩
      rw [if_neg Bool.false_ne_true, digest_withheld]
      decide +kernel
  | true =>
      rw [if_pos rfl]
      refine ⟨fun h => ?_, ?_, fun h => ?_⟩
      · rw [digest_withheld, digest_disclosed] at h
        exact absurd (Word.toBytes_inj h) (by decide)
      · rw [digest_disclosed]
        decide +kernel
      · rw [digest_withheld, digest_disclosed] at h
        exact absurd h (by decide +kernel)

/-- The configured secret is of this key. -/
theorem signingKey {kp : Keypair}
    (h : ∃ secret ∈ env.viewSigningSecret, env.fromSecret secret = .ok kp) :
    kp = serviceKey := by
  obtain ⟨_, ⟨⟩, hkp⟩ := h
  exact (Except.ok.inj hkp).symm

end Demo

/-- Without its amount, the report of a note verifies from its row. -/
theorem report_verifies :
    ∃ signed attachment t' row,
      postViewKeyReport Demo.env Demo.tables Demo.userId (Demo.body false)
          Demo.reportId Demo.now Demo.now = .ok ((signed, attachment), t')
        ∧ getViewKeyReport t' Demo.userId Demo.reportId = some row
        ∧ verifyViewKeyReport Demo.env (rebuilt Demo.env row)
          = .ok true := by
  obtain ⟨signed, attachment, t', row, hpost, hrow, hsigned, hrebuilt⟩ :=
    Demo.posted false
  obtain ⟨kp, row', hkp, hrow', hiff⟩ :=
    (persisted_reports_verify _).1 _ _ _ _ _ _ _ _ _ Demo.readsBack hpost
  rw [hrow, Option.some.injEq] at hrow'
  subst hrow'
  rw [Demo.signingKey hkp, hsigned, hrebuilt] at hiff
  have hsurvives : Survives Demo.tables Demo.userId (Demo.body false)
      Demo.now Demo.now :=
    ⟨fun h => (by cases h), fun _ h => (by cases h),
      fun _ h => (by cases h), rfl⟩
  exact ⟨signed, attachment, t', row, hpost, hrow,
    (hiff (Demo.idealised false)).mpr hsurvives⟩

/-- With its amount, it does not. -/
theorem disclosed_report_fails :
    ∃ signed attachment t' row,
      postViewKeyReport Demo.env Demo.tables Demo.userId (Demo.body true)
          Demo.reportId Demo.now Demo.now = .ok ((signed, attachment), t')
        ∧ getViewKeyReport t' Demo.userId Demo.reportId = some row
        ∧ verifyViewKeyReport Demo.env (rebuilt Demo.env row)
          ≠ .ok true := by
  obtain ⟨signed, attachment, t', row, hpost, hrow, hsigned, hrebuilt⟩ :=
    Demo.posted true
  obtain ⟨kp, row', hkp, hrow', hiff⟩ :=
    rebuilt_verifies_iff Demo.readsBack hpost
  rw [hrow, Option.some.injEq] at hrow'
  subst hrow'
  rw [Demo.signingKey hkp, hsigned, hrebuilt] at hiff
  refine ⟨signed, attachment, t', row, hpost, hrow, fun hverify => ?_⟩
  have hsurvives := (hiff (Demo.idealised true)).mp hverify
  exact absurd (hsurvives.amounts rfl) (by decide)

end Lumix.Services.Reports
