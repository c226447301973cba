/-
Who an RFQ settlement pays.

A settlement is carried to the pool by a relayer, who fills in the
arguments. What keeps the relayer honest is evidence made by others: the
user's proof over its public signals, and the solver's signature, over
the quote in `rfq_settle` and over the swap terms in
`rfq_settle_atomic_swap`. So an argument is safe from the relayer when
the evidence determines it.

The swap terms are a concatenation of fixed-length fields, so the
signature determines each of them (`terms_inj`, `swap_terms_eq`), the
user's delivery among them (`swap_delivery`). The account the solver is
paid on is a field of nothing: two settlements on the same evidence make
the same payments exactly when they name the same one
(`rfq_payments_iff`).
-/
import Lumix.Pool.Testnet

namespace Lumix

open Exec Run

variable {L : Type} [TokenHost L]

-- ===================================================== the signed terms

/-- What the solver signs of a swap, before hashing. -/
def AtomicSwapArgs.terms (a : AtomicSwapArgs) (recipientH : Word) : Bytes :=
  a.quoteHash.toBytes ++ a.outputAssetId.toBytes
    ++ a.quotedOutput.toBeBytes ++ a.minOutput.toBeBytes
    ++ a.priceScaled.toBeBytes ++ recipientH.toBytes

theorem swapHash_eq (env : Env) (a : AtomicSwapArgs) (recipientH : Word) :
    swapHash env a recipientH = env.sha256 (a.terms recipientH) := rfl

/-- Every field has one length, so equal terms are equal field by
field. -/
theorem AtomicSwapArgs.terms_inj {a b : AtomicSwapArgs} {g h : Word}
    (heq : a.terms g = b.terms h) :
    a.quoteHash = b.quoteHash ∧ a.outputAssetId = b.outputAssetId
      ∧ a.quotedOutput = b.quotedOutput ∧ a.minOutput = b.minOutput
      ∧ a.priceScaled = b.priceScaled ∧ g = h := by
  unfold AtomicSwapArgs.terms at heq
  -- peel the fields off from the right
  obtain ⟨heq, hrecipient⟩ := List.append_inj' heq (by simp)
  obtain ⟨heq, hprice⟩ := List.append_inj' heq (by simp)
  obtain ⟨heq, hmin⟩ := List.append_inj' heq (by simp)
  obtain ⟨heq, hquoted⟩ := List.append_inj' heq (by simp)
  obtain ⟨hquote, hasset⟩ := List.append_inj' heq (by simp)
  exact ⟨Word.toBytes_inj hquote, Word.toBytes_inj hasset,
    I128.toBeBytes_inj hquoted, I128.toBeBytes_inj hmin,
    I128.toBeBytes_inj hprice, Word.toBytes_inj hrecipient⟩

/-- The hash of an address that is compared and signed. -/
def recipientField (env : Env) (a : Address) : Word :=
  hashToField (env.sha256 (env.strkey a))

theorem recipientHash_ok {env : Env} {a : Address} {g : Word}
    (h : recipientHash env a = .ok g) : g = recipientField env a := by
  simp only [recipientHash, bind_eq_ok, pure_eq_ok] at h
  obtain ⟨_, -, rfl⟩ := h
  rfl

/-- The message of the solver's signature on a swap. -/
def swapMessage (env : Env) (a : AtomicSwapArgs) : Bytes :=
  (swapHash env a (recipientField env a.userXlmRecipient)).toBytes

/-- What a signature on two swaps rests on: it is valid for one of the
two messages only, unless they are one, and the hashes that make them up
do not collide. -/
structure TermsBind (env : Env) (a b : AtomicSwapArgs) : Prop where
  signature : env.ed25519Verify a.solverPubkey (swapMessage env a)
      a.solverSig = true →
    env.ed25519Verify a.solverPubkey (swapMessage env b) a.solverSig
      = true → swapMessage env a = swapMessage env b
  terms : Set.InjOn env.sha256 {
    a.terms (recipientField env a.userXlmRecipient),
    b.terms (recipientField env b.userXlmRecipient)}
  recipients : recipientField env a.userXlmRecipient
    = recipientField env b.userXlmRecipient →
    a.userXlmRecipient = b.userXlmRecipient

section Terms

variable {env : Env} {p : Pool} {a b : AtomicSwapArgs}

/-- An admitted swap is signed by its solver. -/
theorem swap_signed (h : (Call.rfqSettleAtomicSwap a).Admitted env p) :
    env.ed25519Verify a.solverPubkey (swapMessage env a) a.solverSig
      = true := by
  obtain ⟨-, ⟨g, hg, hsigned⟩, -⟩ := h.terms
  rw [recipientHash_ok hg] at hsigned
  exact hsigned

/-- Two swaps admitted under one key and signature have the same
terms. -/
theorem swap_terms_eq (ha : (Call.rfqSettleAtomicSwap a).Admitted env p)
    (hb : (Call.rfqSettleAtomicSwap b).Admitted env p)
    (hbind : TermsBind env a b) (hkey : a.solverPubkey = b.solverPubkey)
    (hsig : a.solverSig = b.solverSig) :
    a.outputAssetId = b.outputAssetId ∧ a.quotedOutput = b.quotedOutput
      ∧ a.userXlmRecipient = b.userXlmRecipient := by
  have hsigned := swap_signed hb
  rw [← hkey, ← hsig] at hsigned
  have hmessage := hbind.signature (swap_signed ha) hsigned
  have hhash : env.sha256 (a.terms (recipientField env a.userXlmRecipient))
      = env.sha256 (b.terms (recipientField env b.userXlmRecipient)) :=
    Word.toBytes_inj hmessage
  have hterms := hbind.terms (Set.mem_insert _ _)
    (Set.mem_insert_of_mem _ rfl) hhash
  obtain ⟨-, hasset, hquoted, -, -, hrecipient⟩ :=
    AtomicSwapArgs.terms_inj hterms
  exact ⟨hasset, hquoted, hbind.recipients hrecipient⟩

end Terms

-- ======================================================== the payments

/-- The signals of a call are read off its bytes. -/
theorem Call.signal_congr {c d : Call} (h : c.signalBytes = d.signalBytes) :
    c.signal = d.signal := by
  unfold Call.signal Call.signals
  rw [h]

/-- The two token invocations of a swap: the user's delivery, then the
solver's credit. -/
theorem swap_ops {env : Env} {p : Pool} {a : AtomicSwapArgs}
    (h : (Call.rfqSettleAtomicSwap a).Admitted env p) (ctx : Ctx) :
    ∃ outToken inToken, p.assetToken a.outputAssetId = some outToken
      ∧ p.assetToken ((Call.rfqSettleAtomicSwap a).signal 17)
        = some inToken
      ∧ ((Call.rfqSettleAtomicSwap a).effect env ctx p).ops = [
        .transfer outToken env.self a.userXlmRecipient
          a.quotedOutput.toInt,
        .transfer inToken env.self a.solverUsdcRecipient
          (fr32ToI128 ((Call.rfqSettleAtomicSwap a).signal 2)
            - fr32ToI128 ((Call.rfqSettleAtomicSwap a).signal 4))] := by
  obtain ⟨-, -, -, -, ⟨outToken, hout⟩, inToken, hin⟩ := h.terms
  refine ⟨outToken, inToken, hout, hin, ?_⟩
  simp only [Call.effect, hout, hin, payout_some, List.cons_append,
    List.nil_append]

/-- The evidence of an RFQ settlement is the same: the user's proof with
its signals, and the solver's quote, key and signature. -/
def RfqSettleArgs.SameEvidence (a b : RfqSettleArgs) : Prop :=
  a.proofBytes = b.proofBytes ∧ a.pubSignalsBytes = b.pubSignalsBytes
    ∧ a.quoteHash = b.quoteHash ∧ a.solverPubkey = b.solverPubkey
    ∧ a.solverSig = b.solverSig

@[inherit_doc RfqSettleArgs.SameEvidence]
def AtomicSwapArgs.SameEvidence (a b : AtomicSwapArgs) : Prop :=
  a.proofBytes = b.proofBytes ∧ a.pubSignalsBytes = b.pubSignalsBytes
    ∧ a.quoteHash = b.quoteHash ∧ a.solverPubkey = b.solverPubkey
    ∧ a.solverSig = b.solverSig

section Payments

variable {env : Env} {ctx₁ ctx₂ : Ctx} {w w₁ w₂ : World L}

theorem rfqSettle_payments {a b : RfqSettleArgs}
    (h₁ : rfqSettle env ctx₁ a w = .ok w₁)
    (h₂ : rfqSettle env ctx₂ b w = .ok w₂) (hsame : a.SameEvidence b) :
    w₁.trace = w₂.trace ↔ a.toSolver = b.toSolver := by
  obtain ⟨-, happ₁, -⟩ := rfqSettle_ok h₁
  obtain ⟨-, happ₂, -⟩ := rfqSettle_ok h₂
  obtain ⟨-, hbytes, -⟩ := hsame
  have hsignal : (Call.rfqSettle a).signal = (Call.rfqSettle b).signal :=
    Call.signal_congr (congrArg some hbytes)
  rw [happ₁.trace, happ₂.trace, List.append_right_inj]
  simp [Call.effect, hsignal]

theorem swap_payments {a b : AtomicSwapArgs}
    (h₁ : rfqSettleAtomicSwap env ctx₁ a w = .ok w₁)
    (h₂ : rfqSettleAtomicSwap env ctx₂ b w = .ok w₂)
    (hsame : a.SameEvidence b) (hbind : TermsBind env a b) :
    w₁.trace = w₂.trace
      ↔ a.solverUsdcRecipient = b.solverUsdcRecipient := by
  obtain ⟨hadm₁, happ₁, -⟩ := rfqSettleAtomicSwap_ok h₁
  obtain ⟨hadm₂, happ₂, -⟩ := rfqSettleAtomicSwap_ok h₂
  obtain ⟨-, hbytes, -, hkey, hsig⟩ := hsame
  have hsignal : (Call.rfqSettleAtomicSwap a).signal
      = (Call.rfqSettleAtomicSwap b).signal :=
    Call.signal_congr (congrArg some hbytes)
  obtain ⟨hasset, hquoted, hrecipient⟩ :=
    swap_terms_eq hadm₁ hadm₂ hbind hkey hsig
  obtain ⟨out₁, in₁, hout₁, hin₁, hops₁⟩ := swap_ops hadm₁ ctx₁
  obtain ⟨out₂, in₂, hout₂, hin₂, hops₂⟩ := swap_ops hadm₂ ctx₂
  have hout : out₁ = out₂ := by
    rw [hasset, hout₂] at hout₁
    exact (Option.some.inj hout₁).symm
  have hin : in₁ = in₂ := by
    rw [hsignal, hin₂] at hin₁
    exact (Option.some.inj hin₁).symm
  rw [happ₁.trace, happ₂.trace, List.append_right_inj, hops₁, hops₂, hout,
    hin, hquoted, hrecipient, hsignal]
  simp

/-- Redirection. Two settlements accepted in one state on the same
evidence make the same payments exactly when the relayer named the same
account for the solver. -/
theorem rfq_payments_iff (w : World L) :
    (∀ (ctx₁ ctx₂ : Ctx) (a b : RfqSettleArgs) (w₁ w₂ : World L),
      rfqSettle env ctx₁ a w = .ok w₁ →
      rfqSettle env ctx₂ b w = .ok w₂ → a.SameEvidence b →
      (w₁.trace = w₂.trace ↔ a.toSolver = b.toSolver))
    ∧ ∀ (ctx₁ ctx₂ : Ctx) (a b : AtomicSwapArgs) (w₁ w₂ : World L),
      rfqSettleAtomicSwap env ctx₁ a w = .ok w₁ →
      rfqSettleAtomicSwap env ctx₂ b w = .ok w₂ → a.SameEvidence b →
      TermsBind env a b →
      (w₁.trace = w₂.trace
        ↔ a.solverUsdcRecipient = b.solverUsdcRecipient) := by
  constructor
  · intro ctx₁ ctx₂ a b w₁ w₂ h₁ h₂ hsame
    exact rfqSettle_payments h₁ h₂ hsame
  · intro ctx₁ ctx₂ a b w₁ w₂ h₁ h₂ hsame hbind
    exact swap_payments h₁ h₂ hsame hbind

end Payments

-- ======================================================== the delivery

omit [TokenHost L] in
/-- The first token invocation on the way from one world to another. -/
def delivery (w w' : World L) : Option TokenOp := w'.trace[w.trace.length]?

/-- The user's proof is the same, whatever the solver signed. -/
def AtomicSwapArgs.SameProof (a b : AtomicSwapArgs) : Prop :=
  a.proofBytes = b.proofBytes ∧ a.pubSignalsBytes = b.pubSignalsBytes

/-- What a swap pays the user: the value of the note leaving the pool, at
the price of the terms. -/
def AtomicSwapArgs.output (a : AtomicSwapArgs) : ℤ :=
  (fr32ToI128 ((Call.rfqSettleAtomicSwap a).signal 2)
    * a.priceScaled.toInt).tdiv priceScale

section Delivery

variable {env : Env} {w : World L}

/-- A swap delivers its output to its recipient first. -/
theorem swap_delivers {ctx : Ctx} {a : AtomicSwapArgs} {w' : World L}
    (h : rfqSettleAtomicSwap env ctx a w = .ok w') :
    ∃ token, w.pool.assetToken a.outputAssetId = some token
      ∧ delivery w w' = some (.transfer token env.self a.userXlmRecipient
        a.output) := by
  obtain ⟨hadm, happ, -⟩ := rfqSettleAtomicSwap_ok h
  obtain ⟨outToken, _, hout, _, hops⟩ := swap_ops hadm ctx
  obtain ⟨-, -, hprice, -⟩ := hadm.terms
  refine ⟨outToken, hout, ?_⟩
  unfold delivery AtomicSwapArgs.output
  rw [happ.trace, hops, ← hprice,
    List.getElem?_append_right (Nat.le_refl _), Nat.sub_self]
  rfl

/-- Delivery. Two swaps accepted in one state on the same user proof are
for a quote with the field element the proof commits to. They deliver
the same amount of the same token to the same address exactly when the
terms agree on the recipient, on the token behind the output asset, and
on the value of the note at the price; and they do so whenever they
carry one solver key and signature. -/
theorem swap_delivery {ctx₁ ctx₂ : Ctx} {a b : AtomicSwapArgs}
    {w₁ w₂ : World L} (h₁ : rfqSettleAtomicSwap env ctx₁ a w = .ok w₁)
    (h₂ : rfqSettleAtomicSwap env ctx₂ b w = .ok w₂)
    (hsame : a.SameProof b) :
    hashToField a.quoteHash = hashToField b.quoteHash
      ∧ (delivery w w₁ = delivery w w₂
        ↔ a.userXlmRecipient = b.userXlmRecipient
          ∧ w.pool.assetToken a.outputAssetId
            = w.pool.assetToken b.outputAssetId
          ∧ a.output = b.output)
      ∧ (TermsBind env a b → a.solverPubkey = b.solverPubkey →
        a.solverSig = b.solverSig → delivery w w₁ = delivery w w₂) := by
  obtain ⟨hadm₁, -, -⟩ := rfqSettleAtomicSwap_ok h₁
  obtain ⟨hadm₂, -, -⟩ := rfqSettleAtomicSwap_ok h₂
  have hsignal : (Call.rfqSettleAtomicSwap a).signal
      = (Call.rfqSettleAtomicSwap b).signal :=
    Call.signal_congr (congrArg some hsame.2)
  obtain ⟨-, -, hprice₁, hquote₁, -⟩ := hadm₁.terms
  obtain ⟨-, -, hprice₂, hquote₂, -⟩ := hadm₂.terms
  obtain ⟨out₁, hout₁, hdelivery₁⟩ := swap_delivers h₁
  obtain ⟨out₂, hout₂, hdelivery₂⟩ := swap_delivers h₂
  have hiff : delivery w w₁ = delivery w w₂
      ↔ a.userXlmRecipient = b.userXlmRecipient
        ∧ w.pool.assetToken a.outputAssetId
          = w.pool.assetToken b.outputAssetId
        ∧ a.output = b.output := by
    rw [hdelivery₁, hdelivery₂, hout₁, hout₂]
    simp only [Option.some.injEq, TokenOp.transfer.injEq, true_and]
    exact ⟨fun ⟨ht, hr, ho⟩ => ⟨hr, ht, ho⟩,
      fun ⟨hr, ht, ho⟩ => ⟨ht, hr, ho⟩⟩
  refine ⟨by rw [hquote₁, hquote₂, hsignal], hiff, ?_⟩
  intro hbind hkey hsig
  obtain ⟨hasset, hquoted, hrecipient⟩ :=
    swap_terms_eq hadm₁ hadm₂ hbind hkey hsig
  refine hiff.mpr ⟨hrecipient, by rw [hasset], ?_⟩
  unfold AtomicSwapArgs.output
  rw [← hprice₁, ← hprice₂, hquoted]

end Delivery

section Runs

open Testnet

namespace Swap

/-- The solver's own account. -/
def solver : Address := ⟨11⟩

-- GAK23YC4KCXQQGCQQM4M6NBBSCEQ52BICXWERS4QHC5SPKEQZPIU2IRG
/-- The solver's strkey, as its account is hashed. -/
def solverStrkey : Bytes :=
  Digits.beBytes 28 0x47414b32335943344b43585151474351514d344d364e424253434551
    ++ Digits.beBytes 28 0x35324249435857455253345148433553504b45515a50495532495247

/-- `noteU` swapped for XLM, all of its value. -/
def swap100 : Withdraw := exit 5 noteU openU 100 0

/-- The swap the user accepted: 2500 XLM at 25. -/
def agreed : AtomicSwapArgs where
  userXlmRecipient := user
  solverUsdcRecipient := solver
  proofBytes := proofBytes
  pubSignalsBytes := canonicalBytes (.withdraw swap100)
  quoteHash := quoteHash
  intentHash := 0
  fillReceiptHash := 0
  outputAssetId := idOf xlm
  quotedOutput := 2500
  minOutput := 2500
  priceScaled := 25000000000
  solverPubkey := solverKey
  solverSig :=
    0x01371662571ee3f150fbb4d2830eebe1fdd985d2592036083bcca2427d7bc05c#256
      ++ 0xabddb82809f06112b2719dc43d9ef5e34f4f272530b643bf24791d922ee6540a#256

/-- Other terms for the same proof: 100 XLM at 1, to the solver. -/
def rewritten : AtomicSwapArgs :=
  { agreed with
    userXlmRecipient := solver
    quotedOutput := 100
    minOutput := 1
    priceScaled := 1000000000
    solverSig :=
      0x5a18ed293b3d60925230e27a6b8e08a59fcb3fd3b512adcd73849e57699d9100#256
        ++ 0x7636006a9e19af35670a479c56f89ca28bd37d1da31b1fcec9779fac3e10e50b#256 }

/-- The SHA-256 hashes of the solver's account and of both terms. -/
def hashes : List (Bytes × Word) := [
  (solverStrkey,
    0x04f025428d1c8d928060c699333febfd70020226a6d0e1348fe9c430f3e2c915),
  (agreed.terms (idOf user),
    0x0d916f50527b570a20b5910eca0d1b99bfdd224129fca02ce0eabef034f03bd0),
  (rewritten.terms
      0x04f025428d1c8d928060c699333febfd70020226a6d0e1348fe9c430f3e2c9,
    0x3c778a00267c002d35fdf4ff1315fa2f7e624d96755afe2a8e339d4f4310da94)]

/-- The testnet host, with these hashes and the solver's signatures of
both swaps. -/
def env : Env :=
  { Testnet.env with
    sha256 := fun bytes =>
      (hashes.lookup bytes).getD (Testnet.env.sha256 bytes)
    ed25519Verify := fun key message signature =>
      Testnet.env.ed25519Verify key message signature
        || [(solverKey, Word.toBytes
            0x0d916f50527b570a20b5910eca0d1b99bfdd224129fca02ce0eabef034f03bd0,
            agreed.solverSig),
          (solverKey, Word.toBytes
            0x3c778a00267c002d35fdf4ff1315fa2f7e624d96755afe2a8e339d4f4310da94,
            rewritten.solverSig)].contains (key, message, signature)
    strkey := fun a =>
      if a = solver then solverStrkey else Testnet.env.strkey a }

/-- The pool with `noteU` deposited and 2500 XLM in reserve. -/
def reserves : World SacLedger := run (step env) (genesis 100 2500) depositRun

/-- Someone who carries settlements to the pool. -/
def relayer : Address := ⟨12⟩

/-- `noteU` settled against a fill on another chain. -/
def settle100 : Withdraw := exit 3 noteU openU 100 0

/-- The settlement pays the solver. -/
def settled : RfqSettleArgs := { rfqArgs settle100 with toSolver := solver }

/-- The settlement and the swap are proven and accepted, and so they are
with the relayer in the solver's place and with another intent hash of
the same field element; so is the swap under its other terms. -/
theorem settlements_evaluated :
    (Proven env.poseidon 12 2 (.rfqSettle settled) (.withdraw settle100)
      ∧ (rfqSettle env ctx settled reserves).isOk
      ∧ (rfqSettle env ctx { settled with toSolver := relayer }
        reserves).isOk
      ∧ (rfqSettle env ctx { settled with intentHash := 1 } reserves).isOk)
    ∧ Proven env.poseidon 12 2 (.rfqSettleAtomicSwap agreed)
        (.withdraw swap100)
      ∧ (rfqSettleAtomicSwap env ctx agreed reserves).isOk
      ∧ (rfqSettleAtomicSwap env ctx
        { agreed with solverUsdcRecipient := relayer } reserves).isOk
      ∧ (rfqSettleAtomicSwap env ctx { agreed with intentHash := 1 }
        reserves).isOk
      ∧ (rfqSettleAtomicSwap env ctx rewritten reserves).isOk := by
  decide +kernel

/-- Two calls with the same terms bind them. -/
theorem termsBind_of_terms_eq {e : Env} {a b : AtomicSwapArgs}
    (hrecipient : a.userXlmRecipient = b.userXlmRecipient)
    (hterms : ∀ g, a.terms g = b.terms g) : TermsBind e a b where
  signature _ _ := by
    unfold swapMessage
    rw [swapHash_eq, swapHash_eq, hrecipient, hterms]
  terms := by
    rw [hrecipient, hterms, Set.pair_eq_singleton]
    exact Set.injOn_singleton _ _
  recipients _ := hrecipient

end Swap

open Swap

/-- Another intent hash of the same field element changes no payment. -/
theorem rfq_payments_unchanged :
    (∃ w₁ w₂, rfqSettle Swap.env ctx settled reserves = .ok w₁
      ∧ rfqSettle Swap.env ctx { settled with intentHash := 1 } reserves
        = .ok w₂
      ∧ w₁.trace = w₂.trace)
    ∧ ∃ w₁ w₂, rfqSettleAtomicSwap Swap.env ctx agreed reserves = .ok w₁
      ∧ rfqSettleAtomicSwap Swap.env ctx { agreed with intentHash := 1 }
        reserves = .ok w₂
      ∧ w₁.trace = w₂.trace := by
  obtain ⟨⟨-, hok₁, -, hok₂⟩, -, hok₃, -, hok₄, -⟩ :=
    settlements_evaluated
  obtain ⟨w₁, hw₁⟩ := exists_ok_of_isOk hok₁
  obtain ⟨w₂, hw₂⟩ := exists_ok_of_isOk hok₂
  obtain ⟨w₃, hw₃⟩ := exists_ok_of_isOk hok₃
  obtain ⟨w₄, hw₄⟩ := exists_ok_of_isOk hok₄
  obtain ⟨hsettle, hswap⟩ := @rfq_payments_iff _ _ Swap.env reserves
  refine ⟨⟨w₁, w₂, hw₁, hw₂, ?_⟩, w₃, w₄, hw₃, hw₄, ?_⟩
  · exact (hsettle _ _ _ _ _ _ hw₁ hw₂ ⟨rfl, rfl, rfl, rfl, rfl⟩).mpr rfl
  · exact (hswap _ _ _ _ _ _ hw₃ hw₄ ⟨rfl, rfl, rfl, rfl, rfl⟩
      (termsBind_of_terms_eq rfl fun _ => rfl)).mpr rfl

/-- The relayer in the solver's place does: both settlements pay it, on
the solver's evidence. -/
theorem rfq_payments_redirected :
    (genesis 100 2500).Constructed
    ∧ (Proven Swap.env.poseidon 12 2 (.rfqSettle settled)
        (.withdraw settle100)
      ∧ settled.SameEvidence { settled with toSolver := relayer }
      ∧ ∃ w₁ w₂, rfqSettle Swap.env ctx settled reserves = .ok w₁
        ∧ rfqSettle Swap.env ctx { settled with toSolver := relayer }
          reserves = .ok w₂
        ∧ w₁.trace ≠ w₂.trace)
    ∧ Proven Swap.env.poseidon 12 2 (.rfqSettleAtomicSwap agreed)
        (.withdraw swap100)
      ∧ agreed.SameEvidence { agreed with solverUsdcRecipient := relayer }
      ∧ ∃ w₁ w₂, rfqSettleAtomicSwap Swap.env ctx agreed reserves = .ok w₁
        ∧ rfqSettleAtomicSwap Swap.env ctx
          { agreed with solverUsdcRecipient := relayer } reserves = .ok w₂
        ∧ w₁.trace ≠ w₂.trace := by
  obtain ⟨⟨hp, hok₁, hok₂, -⟩, hp', hok₃, hok₄, -⟩ := settlements_evaluated
  obtain ⟨w₁, hw₁⟩ := exists_ok_of_isOk hok₁
  obtain ⟨w₂, hw₂⟩ := exists_ok_of_isOk hok₂
  obtain ⟨w₃, hw₃⟩ := exists_ok_of_isOk hok₃
  obtain ⟨w₄, hw₄⟩ := exists_ok_of_isOk hok₄
  have hne : solver ≠ relayer := by decide
  have hsame : settled.SameEvidence { settled with toSolver := relayer } :=
    ⟨rfl, rfl, rfl, rfl, rfl⟩
  have hsame' : agreed.SameEvidence
      { agreed with solverUsdcRecipient := relayer } :=
    ⟨rfl, rfl, rfl, rfl, rfl⟩
  refine ⟨genesis_constructed 100 2500, ⟨hp, hsame, w₁, w₂, hw₁, hw₂, ?_⟩,
    hp', hsame', w₃, w₄, hw₃, hw₄, ?_⟩
  · intro htrace
    exact hne ((rfqSettle_payments hw₁ hw₂ hsame).mp htrace)
  · intro htrace
    exact hne ((swap_payments hw₃ hw₄ hsame'
      (termsBind_of_terms_eq rfl fun _ => rfl)).mp htrace)

/-- The user's delivery is out of the relayer's reach. -/
theorem swap_delivery_unchanged :
    ∃ w₁ w₂, rfqSettleAtomicSwap Swap.env ctx agreed reserves = .ok w₁
      ∧ rfqSettleAtomicSwap Swap.env ctx
        { agreed with solverUsdcRecipient := relayer } reserves = .ok w₂
      ∧ delivery reserves w₁ = delivery reserves w₂ := by
  obtain ⟨-, -, hok₁, hok₂, -⟩ := settlements_evaluated
  obtain ⟨w₁, hw₁⟩ := exists_ok_of_isOk hok₁
  obtain ⟨w₂, hw₂⟩ := exists_ok_of_isOk hok₂
  obtain ⟨-, -, hsigned⟩ := swap_delivery hw₁ hw₂ ⟨rfl, rfl⟩
  exact ⟨w₁, w₂, hw₁, hw₂,
    hsigned (termsBind_of_terms_eq rfl fun _ => rfl) rfl rfl⟩

/-- It is in the solver's: one proof of the user is accepted under both
terms, 2500 XLM to the user and 100 XLM to the solver. -/
theorem swap_delivery_rewritten :
    (genesis 100 2500).Constructed
    ∧ Proven Swap.env.poseidon 12 2 (.rfqSettleAtomicSwap agreed)
      (.withdraw swap100)
    ∧ agreed.SameProof rewritten
    ∧ ∃ w₁ w₂, rfqSettleAtomicSwap Swap.env ctx agreed reserves = .ok w₁
      ∧ rfqSettleAtomicSwap Swap.env ctx rewritten reserves = .ok w₂
      ∧ delivery reserves w₁ ≠ delivery reserves w₂ := by
  obtain ⟨-, hp, hok₁, -, -, hok₂⟩ := settlements_evaluated
  obtain ⟨w₁, hw₁⟩ := exists_ok_of_isOk hok₁
  obtain ⟨w₂, hw₂⟩ := exists_ok_of_isOk hok₂
  refine ⟨genesis_constructed 100 2500, hp, ⟨rfl, rfl⟩, w₁, w₂, hw₁, hw₂,
    ?_⟩
  obtain ⟨_, -, hdelivery₁⟩ := swap_delivers hw₁
  obtain ⟨_, -, hdelivery₂⟩ := swap_delivers hw₂
  rw [hdelivery₁, hdelivery₂]
  intro hsame
  injection hsame with hsame
  injection hsame with _ _ hrecipient
  exact absurd hrecipient (by decide)

end Runs

end Lumix
