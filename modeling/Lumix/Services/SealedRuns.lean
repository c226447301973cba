/-
The committee on shares that a client sealed.

Every submission is made by one of the two clients, from a sharing: an
amount, and the draws of its polynomial. If each id is always submitted
with one sharing, then, whatever interleaves and whatever the nodes
answer, each batch the committee serves is the matching of the true
amounts of submitted intents (`sealed_batches_true`). One sharing an id
is asked for on purpose: over the network an intent submitted again with
another split has its shares overwritten node by node, and what is then
read at two nodes need not be of one polynomial.

The combined process stores a submission's shares in one go. There any
intent may be split anew, and the next request or tick signs the matches
of what was submitted last (`sealed_session_signed`).
-/
import Lumix.Committee.OpenSessions
import Lumix.Services.Sealing

namespace Lumix.Services

open Committee Exec Text Js Run

-- ========================================================= submissions

/-- What a client splits for an intent. -/
structure Sharing where
  amount : ℕ
  draws : ℕ → ℤ

/-- An intent whose shares a client sealed, the package's or the SDK's,
and whose id a node's router reads off the path it is put into. -/
structure Sealed (box : Box) (cfg : Config NodeKeys Parsed)
    (sharing : Sharing) (intent : MpcIntent) : Prop where
  client : (∃ text senders, bigInt text = some (sharing.amount : ℤ)
      ∧ splitAmountForCommittee box sharing.draws senders text
          (cfg.nodes.map nodePublicInfo) 2
        = .ok intent.encryptedShares)
    ∨ ∃ senders, Sdk.splitAndEncryptAmount box sharing.draws senders
        sharing.amount (cfg.nodes.map nodePublicInfo) 2
      = .ok intent.encryptedShares
  path : cfg.mode = .standalone →
    ∀ id, cfg.pathParam intent.intentId = some id → id = intent.intentId

/-- A committee that runs the package: its nodes' keys are pairs, and
their ids different. -/
structure Runs (box : Box) (numbers : Numbers) (sha256 : Bytes → Word)
    (syntaxError : String → String) (cfg : Config NodeKeys Parsed) :
    Prop where
  crypto : cfg.crypto = packageCrypto box numbers sha256 syntaxError
  lawful : box.Lawful
  paired : ∀ node ∈ cfg.nodes, Paired box node
  distinct : Distinct cfg
  size : cfg.nodes.length < 2 ^ 32

variable {box : Box} {numbers : Numbers} {sha256 : Bytes → Word}
  {syntaxError : String → String} {cfg : Config NodeKeys Parsed}
  {sharing : String → Sharing}

/-- Either client sends the same. -/
theorem Sealed.shares {sharing : Sharing} {intent : MpcIntent}
    (h : Sealed box cfg sharing intent) :
    ∃ senders, intent.encryptedShares
      = sealedShares box senders
        (Sdk.shamirSplit sharing.draws sharing.amount 2 cfg.nodes.length)
        cfg.nodes := by
  rcases h.client with ⟨text, senders, htext, hsplit⟩ | ⟨senders, hsplit⟩
  · by_cases hn : 2 ≤ cfg.nodes.length
    · rw [splitAmountForCommittee_eq htext _ _ _ (le_refl 2) hn] at hsplit
      injection hsplit with hsplit
      exact ⟨senders, hsplit.symm⟩
    · exfalso
      simp only [splitAmountForCommittee, bind_eq_ok, List.length_map]
        at hsplit
      obtain ⟨a, -, shares, hshares, -⟩ := hsplit
      rw [shamirSplit_error _ _ (.inr (by omega))] at hshares
      cases hshares
  · rw [splitAndEncryptAmount_eq] at hsplit
    injection hsplit with hsplit
    exact ⟨senders, hsplit.symm⟩

-- ============================================================== points

/-- The value of a node's share of an intent. -/
def PointOf (numbers : Numbers)
    (nodes : List (CommitteeNodeKeyPair NodeKeys))
    (sharing : String → Sharing) (id nodeId : String) (v : Parsed) : Prop :=
  ∃ (i : ℕ) (node : CommitteeNodeKeyPair NodeKeys) (share : Share),
    nodes[i]? = some node ∧ node.nodeId = nodeId
      ∧ (Sdk.shamirSplit (sharing id).draws (sharing id).amount 2
          nodes.length)[i]? = some share
      ∧ decodeParsed numbers v = some share

/-- A split's share is decoded to itself. -/
theorem decode_split {draws : ℕ → ℤ} {secret : ℤ} {t n i : ℕ}
    {share : Share}
    (h : (Sdk.shamirSplit draws secret t n)[i]? = some share) :
    decodeParsed numbers (shareValue share) = some share := by
  obtain ⟨hpos, -, hy, -⟩ := mem_split (List.mem_of_getElem? h)
  rw [decodeParsed_shareValue]
  exact decodeShare_encodeShare hpos.le hy

/-- A share that was sealed for a node opens there to its point. -/
theorem good_sealed (h : Runs box numbers sha256 syntaxError cfg)
    {intent : MpcIntent}
    (hsealed : Sealed box cfg (sharing intent.intentId) intent)
    {sh : EncryptedShare} (hsh : sh ∈ intent.encryptedShares) :
    Good cfg (PointOf numbers cfg.nodes sharing) intent.intentId sh := by
  obtain ⟨senders, hshares⟩ := hsealed.shares
  rw [hshares] at hsh
  obtain ⟨i, node, share, hnode, hshare, rfl⟩ := mem_sealedShares hsh
  intro node' hnode' hid plain hplain
  have hmem := List.mem_of_getElem? hnode
  obtain rfl : node' = node :=
    List.inj_on_of_nodup_map h.distinct.nodes hnode' hmem hid
  rw [h.crypto] at hplain
  have hopen := decryptShare_sealShare numbers h.lawful
    (h.paired node' hnode') syntaxError (senders i) share
  have hsame := hopen.symm.trans hplain
  injection hsame with hsame
  injection hsame with hsame
  subst hsame
  exact ⟨i, node', share, hnode, rfl, hshare, decode_split hshare⟩

/-- Two points of different nodes give the amount. -/
theorem pointsAgree_sealed (h : Runs box numbers sha256 syntaxError cfg)
    (hamount : ∀ id, (sharing id).amount < P) :
    PointsAgree cfg.crypto (PointOf numbers cfg.nodes sharing)
      fun id => (sharing id).amount := by
  rintro id n m p q hne ⟨i, node, a, hnode, rfl, ha, hp⟩
    ⟨j, node', b, hnode', rfl, hb, hq⟩ amount hgives
  have hij : i ≠ j := by
    rintro rfl
    rw [hnode] at hnode'
    exact hne (congrArg _ (Option.some.inj hnode'))
  have htwo : 2 ≤ cfg.nodes.length := by
    obtain ⟨hi, -⟩ := List.getElem?_eq_some_iff.mp hnode
    obtain ⟨hj, -⟩ := List.getElem?_eq_some_iff.mp hnode'
    omega
  have hP : cfg.nodes.length < P := h.size.trans (by decide)
  have hsecret := shamirReconstruct_split hP (Int.natCast_nonneg _)
    (by exact_mod_cast hamount id)
    (shamirSplit_ok (sharing id).draws (sharing id).amount (le_refl 2) htwo)
    ha hb hij
  have hdecoded : [p, q].mapM (decodeParsed numbers) = some [a, b] := by
    simp [hp, hq]
  rw [h.crypto] at hgives
  change reconstructAmount (decodeParsed numbers) [p, q] = some amount
    at hgives
  rw [reconstructAmount, hdecoded, Option.map_some, hsecret,
    Int.toNat_natCast] at hgives
  exact (Option.some.inj hgives).symm

/-- A sealed intent brings the points of its sharing. -/
theorem brings_sealed (h : Runs box numbers sha256 syntaxError cfg)
    {intent : MpcIntent}
    (hsealed : Sealed box cfg (sharing intent.intentId) intent) :
    Brings cfg (PointOf numbers cfg.nodes sharing) intent where
  shares := fun _ hsh => good_sealed h hsealed hsh
  path := hsealed.path

/-- A sealed intent brings its sharing whole, to the combined
process. -/
theorem shared_sealed (h : Runs box numbers sha256 syntaxError cfg)
    {sharing : Sharing} (hamount : sharing.amount < P)
    (htwo : 2 ≤ cfg.nodes.length) {intent : MpcIntent}
    (hsealed : Sealed box cfg sharing intent) :
    BringsSharing cfg (decodeParsed numbers) sharing.amount intent where
  amount_lt := hamount
  nodeIds := by
    obtain ⟨senders, hshares⟩ := hsealed.shares
    rw [hshares]
    exact nodeIds_sealedShares (length_split ..)
  shares := by
    obtain ⟨senders, hshares⟩ := hsealed.shares
    refine ⟨_, _, shamirSplit_ok sharing.draws _ (le_refl 2) htwo,
      fun i node hnode => ?_⟩
    obtain ⟨hlt, -⟩ := List.getElem?_eq_some_iff.mp hnode
    obtain ⟨share, hshare, -⟩ :=
      point_split sharing.draws sharing.amount 2 hlt
    refine ⟨sealShare box (senders i) share node, shareValue share, share,
      ?_, ?_, decode_split hshare, hshare⟩
    · rw [hshares]
      exact getElem?_sealedShares box senders hnode hshare
    · rw [h.crypto]
      exact decryptShare_sealShare numbers h.lawful
        (h.paired node (List.mem_of_getElem? hnode)) _ _ _

-- ================================================================ runs

/-- The intents of every session were submitted under their ids. -/
def FromSubmissions (es : List Committee.Event)
    (c : CommitteeState Parsed) : Prop :=
  ∀ (r : Ref) s, c.heap[r]? = some s → ∀ id i,
    s.intents.get id = some i →
    i.intentId = id ∧ ∃ clock, .submit i clock ∈ es

/-- An intent in a session was submitted, whenever it was added. -/
theorem fromSubmissions_added {es : List Committee.Event}
    {c c' : CommitteeState Parsed} (h : FromSubmissions es c)
    {intent : MpcIntent} {clock : Clock} (hes : .submit intent clock ∈ es)
    {sid : String} (hadd : CommitteeState.Added c intent clock c' sid) :
    FromSubmissions es c' := by
  obtain ⟨r₁, s₁, hlanded⟩ := hadd.landed
  intro r s hs id i hi
  by_cases hr : r = r₁
  · subst hr
    obtain rfl := CommitteeState.cell_inj hs hlanded.here
    rw [SessionState.get_intents_addIntent] at hi
    by_cases hsame : intent.intentId = id
    · rw [if_pos hsame] at hi
      injection hi with hi
      subst hi
      exact ⟨hsame, clock, hes⟩
    · rw [if_neg hsame] at hi
      rcases hlanded.origin with ⟨hs₁, -⟩ | ⟨-, hnone, -⟩
      · exact h r s₁ hs₁ id i hi
      · rw [hnone] at hi
        cases hi
  · rw [hlanded.elsewhere r hr] at hs
    exact h r s hs id i hi

/-- So in every run. -/
theorem fromSubmissions_run (cfg : Config NodeKeys Parsed)
    (es : List Committee.Event) :
    FromSubmissions es
      (run (Committee.step cfg) (Committee.World.boot cfg) es).committee := by
  suffices hrun : Protocol
        (run (Committee.step cfg) (Committee.World.boot cfg) es)
      ∧ FromSubmissions es (run (Committee.step cfg)
        (Committee.World.boot cfg) es).committee from hrun.2
  refine history_induction_of (fun t => t.event ∈ es)
    (fun _ w => Protocol w ∧ FromSubmissions es w.committee)
    ⟨Protocol.boot cfg, fun r s hs => by cases hs⟩ ?_ es
    fun t ht => event_of_mem_accepted ht
  intro _ w w' e h hstep _ he
  have hstepped := Committee.step_cases hstep
  refine ⟨h.1.next hstepped, ?_⟩
  cases hsub : e.submission with
  | none =>
      intro r s' hs' id i hi
      obtain ⟨s, hs, heq⟩ := h.1.intents_kept hstepped hsub hs'
      exact h.2 r s hs id i (heq ▸ hi)
  | some p =>
      cases e with
      | submit intent clock =>
          obtain ⟨sid, hadd⟩ := hstepped.added
          exact fromSubmissions_added h.2 he hadd
      | requestMatch | tick | resumeTick | deliver | answerDecrypt
      | answerSign | loseAnswer | settle => cases hsub

/-- For every run of a committee, combined or over the network, to which
only sealed intents were submitted, every id with one sharing: each batch
it serves matches the intents of a session, which all were submitted, and
the matches are those of the true amounts. -/
theorem sealed_batches_true (h : Runs box numbers sha256 syntaxError cfg)
    (hamount : ∀ id, (sharing id).amount < P)
    (es : List Committee.Event)
    (hes : ∀ intent clock, .submit intent clock ∈ es →
      Sealed box cfg (sharing intent.intentId) intent)
    (batch : SignedMatchBatch)
    (hserved : batch ∈ (run (Committee.step cfg)
      (Committee.World.boot cfg) es).committee.batches) :
    ∃ s ∈ (run (Committee.step cfg) (Committee.World.boot cfg)
        es).committee.heap,
      s.signedBatch = some batch
        ∧ (∀ id i, s.intents.get id = some i →
          i.intentId = id ∧ ∃ clock, .submit i clock ∈ es)
        ∧ batch.matchResults
          = matchIntents (trueRows s fun id => (sharing id).amount) := by
  obtain ⟨_, r, s, -, hs, hsigned, hbatch⟩ := mem_batches.mp hserved
  refine ⟨s, List.mem_of_getElem? hs, hbatch,
    fromSubmissions_run cfg es r s hs, ?_⟩
  exact carried_served h.distinct (pointsAgree_sealed h hamount)
    (fun intent clock hmem => brings_sealed h (hes intent clock hmem)) hs
    hsigned hbatch

/-- For every run of the combined process to which only sealed intents
were submitted, any id as often and with as many splits as one likes: an
open session with at least two of them is signed at the next request for
it and at the next tick of the timer, with the matches of the true
amounts. -/
theorem sealed_session_signed (h : Runs box numbers sha256 syntaxError cfg)
    (hmode : cfg.mode = .combined) (htwo : 2 ≤ cfg.nodes.length)
    (sharing : MpcIntent → Sharing)
    (es : List Committee.Event)
    (hes : ∀ intent clock, .submit intent clock ∈ es →
      (sharing intent).amount < P ∧ Sealed box cfg (sharing intent) intent)
    {r : Ref} {s : SessionState Parsed}
    (hs : (run (Committee.step cfg) (Committee.World.boot cfg)
      es).committee.heap[r]? = some s)
    (hopen : s.status = .opened) (hsize : 2 ≤ s.intents.size)
    (batchId : String) :
    (∃ w', Committee.step cfg (run (Committee.step cfg)
          (Committee.World.boot cfg) es)
            (.requestMatch s.sessionId batchId) = .ok w'
        ∧ w'.SignedWith r (matchIntents
          (trueRows s (s.amounts fun i => (sharing i).amount))))
      ∧ ∃ w', Committee.step cfg (run (Committee.step cfg)
          (Committee.World.boot cfg) es) (.tick batchId) = .ok w'
        ∧ w'.SignedWith r (matchIntents
          (trueRows s (s.amounts fun i => (sharing i).amount))) := by
  have hopened : (run (Committee.step cfg) (Committee.World.boot cfg)
      es).committee.Opened cfg (decodeParsed numbers)
        fun i => (sharing i).amount :=
    opened_run h.distinct.nodes fun intent clock hmem =>
      shared_sealed h (hes intent clock hmem).1 htwo
        (hes intent clock hmem).2
  exact matched_next hmode (by rw [h.crypto]; rfl) h.distinct.nodes htwo
    h.size (Protocol.run cfg es) hopened hs hopen hsize batchId

-- ==================================================== two sealed intents

namespace Demo

/-- Three nodes in one process, with the package's crypto over boxes
that only say whose they are. -/
def packageCommittee : Config NodeKeys Parsed where
  mode := .combined
  nodes := threeNodes
  endpoints := []
  crypto := packageCrypto plainBox plainNumbers digest id
  pathParam := some

/-- It runs the package's crypto with keys that fit. -/
theorem packageCommittee_runs :
    Runs plainBox plainNumbers digest id packageCommittee where
  crypto := rfl
  lawful := plainBox_lawful
  paired := threeNodes_paired
  distinct := ⟨by decide, List.nodup_nil⟩
  size := by decide

/-- One intent is of four, every other of six. -/
def fourOrSix (id : String) : Sharing where
  amount := if id = "a" then 4 else 6
  draws := fun i => 3 * i + 5

/-- An intent whose amount a client sealed. -/
def sealedIntent (intentId inputAsset outputAsset : String) :
    MpcIntent where
  intentId := intentId
  inputAsset := inputAsset
  outputAsset := outputAsset
  encryptedShares := sealedShares plainBox sender
    (Sdk.shamirSplit (fourOrSix intentId).draws
      (fourOrSix intentId).amount 2 threeNodes.length) threeNodes

/-- It is sealed. -/
theorem sealedIntent_sealed (intentId inputAsset outputAsset : String) :
    Sealed plainBox packageCommittee (fourOrSix intentId)
      (sealedIntent intentId inputAsset outputAsset) where
  client := .inr ⟨sender, splitAndEncryptAmount_eq _ _ _ _ _⟩
  path := nofun

/-- The first comes from the package, the second from the SDK. -/
theorem sealedIntent_package :
    Sealed plainBox packageCommittee (fourOrSix "a")
      (sealedIntent "a" "X" "Y") where
  client := .inl ⟨"4", sender, bigInt_toString 4,
    splitAmountForCommittee_eq (bigInt_toString 4) _ _ threeNodes
      (le_refl 2) (by decide)⟩
  path := nofun

/-- Two of them, which cross. -/
def sealedSubmissions : List Committee.Event :=
  [.submit (sealedIntent "a" "X" "Y") (Committee.Demo.clockAt 7),
    .submit (sealedIntent "b" "Y" "X") (Committee.Demo.clockAt 8)]

/-- Every submission among them is sealed. -/
theorem sealedSubmissions_sealed {es : List Committee.Event}
    (h : es ⊆ sealedSubmissions ++ [.tick "batch"]) :
    ∀ intent clock, .submit intent clock ∈ es →
      Sealed plainBox packageCommittee (fourOrSix intent.intentId)
        intent := by
  intro intent clock hmem
  have hmem := h hmem
  simp only [sealedSubmissions, List.cons_append, List.nil_append,
    List.mem_cons, Event.submit.injEq, List.not_mem_nil, or_false,
    reduceCtorEq] at hmem
  rcases hmem with ⟨rfl, -⟩ | ⟨rfl, -⟩
  · exact sealedIntent_package
  · exact sealedIntent_sealed "b" "Y" "X"

/-- The committee after both. -/
def afterSubmissions : Committee.World Parsed :=
  run (Committee.step packageCommittee)
    (Committee.World.boot packageCommittee) sealedSubmissions

/-- Both are in one open session. -/
theorem afterSubmissions_open :
    (afterSubmissions.committee.heap.map fun s =>
      (decide (s.status = .opened), s.intents.size)) = [(true, 2)] := by
  decide +kernel

/-- They are in one open session. -/
theorem afterSubmissions_session :
    ∃ s, afterSubmissions.committee.heap[0]? = some s
      ∧ s.status = .opened ∧ 2 ≤ s.intents.size := by
  have hfact := congrArg (·[0]?) afterSubmissions_open
  simp only [List.getElem?_map] at hfact
  obtain ⟨s, hs, heq⟩ := Option.map_eq_some_iff.mp hfact
  injection heq with hopen hsize
  exact ⟨s, hs, of_decide_eq_true hopen, hsize.ge⟩

/-- Both amounts are field elements. -/
theorem fourOrSix_lt (id : String) : (fourOrSix id).amount < P := by
  unfold fourOrSix
  dsimp only
  split <;> decide

/-- "a" is offered for one asset, and then anew for another: another
amount, and another split. -/
def assetSharing (inputAsset : String) : Sharing where
  amount := if inputAsset = "X" then 4 else 6
  draws := fun i => if inputAsset = "Z" then 8 * i + 1 else 3 * i + 5

/-- An intent whose sharing depends on what it sells. -/
def assetIntent (intentId inputAsset outputAsset : String) : MpcIntent where
  intentId := intentId
  inputAsset := inputAsset
  outputAsset := outputAsset
  encryptedShares := sealedShares plainBox sender
    (Sdk.shamirSplit (assetSharing inputAsset).draws
      (assetSharing inputAsset).amount 2 threeNodes.length) threeNodes

/-- It is sealed too. -/
theorem assetIntent_sealed (intentId inputAsset outputAsset : String) :
    (assetSharing inputAsset).amount < P
      ∧ Sealed plainBox packageCommittee (assetSharing inputAsset)
        (assetIntent intentId inputAsset outputAsset) := by
  refine ⟨?_, .inr ⟨sender, splitAndEncryptAmount_eq _ _ _ _ _⟩, nofun⟩
  unfold assetSharing
  dsimp only
  split <;> decide

/-- One intent is submitted again with another asset, and so another
sharing. -/
def resubmissions : List Committee.Event :=
  [.submit (assetIntent "a" "Z" "Y") (Committee.Demo.clockAt 7),
    .submit (assetIntent "b" "Y" "X") (Committee.Demo.clockAt 8),
    .submit (assetIntent "a" "X" "Y") (Committee.Demo.clockAt 9)]

/-- Every submission among them is sealed. -/
theorem resubmissions_sealed :
    ∀ intent clock, .submit intent clock ∈ resubmissions →
      (assetSharing intent.inputAsset).amount < P
        ∧ Sealed plainBox packageCommittee
          (assetSharing intent.inputAsset) intent := by
  intro intent clock hmem
  simp only [resubmissions, List.mem_cons, Event.submit.injEq,
    List.not_mem_nil, or_false] at hmem
  rcases hmem with ⟨rfl, -⟩ | ⟨rfl, -⟩ | ⟨rfl, -⟩
  · exact assetIntent_sealed "a" "Z" "Y"
  · exact assetIntent_sealed "b" "Y" "X"
  · exact assetIntent_sealed "a" "X" "Y"

/-- The committee after all three. -/
def afterResubmissions : Committee.World Parsed :=
  run (Committee.step packageCommittee)
    (Committee.World.boot packageCommittee) resubmissions

/-- The second offer of "a" is the one that stands. -/
def standing : List Reconstructed :=
  [⟨"a", 4, "X", "Y"⟩, ⟨"b", 6, "Y", "X"⟩]

/-- Both intents stand in one open session, with the amounts last
submitted. -/
theorem afterResubmissions_open :
    (afterResubmissions.committee.heap.map fun s =>
      (decide (s.status = .opened), s.intents.size,
        trueRows s (s.amounts fun i => (assetSharing i.inputAsset).amount)))
      = [(true, 2, standing)] := by
  decide +kernel

/-- Said of the session. -/
theorem afterResubmissions_session :
    ∃ s, afterResubmissions.committee.heap[0]? = some s
      ∧ s.status = .opened ∧ 2 ≤ s.intents.size
      ∧ trueRows s (s.amounts fun i => (assetSharing i.inputAsset).amount)
        = standing := by
  have hfact := congrArg (·[0]?) afterResubmissions_open
  simp only [List.getElem?_map] at hfact
  obtain ⟨s, hs, heq⟩ := Option.map_eq_some_iff.mp hfact
  injection heq with hopen heq
  injection heq with hsize hrows
  exact ⟨s, hs, of_decide_eq_true hopen, hsize.ge, hrows⟩

end Demo

/-- The session is signed at the request and at the tick, with the offers
that stand. -/
theorem sealed_session_signed_crossing :
    ∃ s : SessionState Parsed,
      (∃ w', Committee.step Demo.packageCommittee Demo.afterResubmissions
          (.requestMatch s.sessionId "batch") = .ok w'
        ∧ w'.SignedWith 0 (matchIntents Demo.standing))
      ∧ ∃ w', Committee.step Demo.packageCommittee Demo.afterResubmissions
          (.tick "batch") = .ok w'
        ∧ w'.SignedWith 0 (matchIntents Demo.standing) := by
  obtain ⟨s, hs, hopen, hsize, hrows⟩ := Demo.afterResubmissions_session
  rw [← hrows]
  exact ⟨s, sealed_session_signed Demo.packageCommittee_runs rfl (by decide)
    (fun i => Demo.assetSharing i.inputAsset) Demo.resubmissions
    Demo.resubmissions_sealed hs hopen hsize "batch"⟩

/-- The batch of the tick is of the true amounts. -/
theorem sealed_batches_true_crossing :
    ∃ batch : SignedMatchBatch,
      ∃ s ∈ (run (Committee.step Demo.packageCommittee)
          (Committee.World.boot Demo.packageCommittee)
          (Demo.sealedSubmissions ++ [.tick "batch"])).committee.heap,
        s.signedBatch = some batch
          ∧ (∀ id i, s.intents.get id = some i → i.intentId = id
            ∧ ∃ clock, .submit i clock
              ∈ Demo.sealedSubmissions ++ [.tick "batch"])
          ∧ batch.matchResults
            = matchIntents
              (trueRows s fun id => (Demo.fourOrSix id).amount) := by
  obtain ⟨s, hs, hopen, hsize⟩ := Demo.afterSubmissions_session
  have hopened : Demo.afterSubmissions.committee.Opened
      Demo.packageCommittee (decodeParsed Demo.plainNumbers)
        fun i => (Demo.fourOrSix i.intentId).amount :=
    opened_run Demo.packageCommittee_runs.distinct.nodes
      fun intent clock hmem => shared_sealed Demo.packageCommittee_runs
        (Demo.fourOrSix_lt intent.intentId) (by decide)
        (Demo.sealedSubmissions_sealed (List.subset_append_left _ _)
          intent clock hmem)
  have hprotocol : Protocol Demo.afterSubmissions :=
    Protocol.run Demo.packageCommittee Demo.sealedSubmissions
  obtain ⟨-, w', hstep, _, batch, -, -, -, -, hserved⟩ := matched_next rfl
    rfl Demo.packageCommittee_runs.distinct.nodes (by decide) (by decide)
    hprotocol hopened hs hopen hsize "batch"
  have hlast : run (Committee.step Demo.packageCommittee)
      (Committee.World.boot Demo.packageCommittee)
      (Demo.sealedSubmissions ++ [.tick "batch"]) = w' := by
    rw [run_concat]
    exact next_ok hstep
  refine ⟨batch, @sealed_batches_true Demo.plainBox Demo.plainNumbers
    Demo.digest id Demo.packageCommittee Demo.fourOrSix
    Demo.packageCommittee_runs Demo.fourOrSix_lt _
    (Demo.sealedSubmissions_sealed (List.Subset.refl _)) batch ?_⟩
  rw [hlast]
  exact hserved

end Lumix.Services
