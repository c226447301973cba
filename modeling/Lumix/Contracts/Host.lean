/-
The Soroban host, as far as the contracts see it: addresses and
authorisation, the ways an invocation can trap, checked integer
arithmetic, byte cursors, and the token contracts a pool calls.

A trapping invocation reverts everything it did, so every contract
function returns `Except Trap`: the new state, or the reason nothing
happened.

Code that is not in the repository enters as a parameter. Tokens and the
CCTP messenger are operations on an abstract ledger type `L`
(`TokenHost`); what the protocol relies on about them is `LawfulTokens`,
the SEP-41 behaviour and nothing more: a transfer moves its amount, an
approval moves nothing and sets an allowance, and a burn through the
messenger draws on its allowance only. `SacLedger` is the Stellar asset
contract's ledger, an instance of both.
-/
import Lumix.Basic.Word
import Lumix.Lib.Exec

namespace Lumix

open Exec

-- ============================================================= traps

/-- An account or contract address. -/
structure Address where
  id : ℕ
  deriving DecidableEq, Repr

/-- Why an invocation failed. -/
inductive Trap
  /-- `panic_with_error!` with the contract's own error code -/
  | contract (code : ℕ)
  /-- `panic!` with a message -/
  | panic (message : String)
  /-- `require_auth` without an authorisation -/
  | auth
  /-- `unwrap` of a missing value -/
  | unwrapNone
  /-- a slice or copy that does not fit its bytes -/
  | outOfRange
  /-- integer overflow under `overflow-checks` -/
  | overflow
  /-- a signature that does not verify -/
  | crypto
  /-- an invocation of an address with no such contract -/
  | noContract
  /-- a call of a function the contract does not have -/
  | noFunction
  /-- a call whose arguments are not as many as the parameters -/
  | arity
  /-- the called token refused -/
  | token
  /-- the called CCTP messenger refused -/
  | messenger
  deriving DecidableEq, Repr

/-- A computation that never fails with a contract's error code. -/
def Codeless {α : Type} (x : Except Trap α) : Prop :=
  ∀ code, x ≠ .error (.contract code)

namespace Codeless

/-- Success is no contract error. -/
theorem ok {α : Type} (a : α) : Codeless (.ok a) := fun _ => nofun

/-- Nor is a step after a step. -/
theorem bind {α β : Type} {x : Except Trap α} {f : α → Except Trap β}
    (hx : Codeless x) (hf : ∀ a, Codeless (f a)) : Codeless (x >>= f) :=
  fun code => bind_ne_error (hx code) fun a _ => hf a code

/-- Nor a value that is missing, unless the trap is one, -/
theorem orPanic {α : Type} {t : Trap} (ht : ∀ code, t ≠ .contract code)
    (o : Option α) : Codeless (Exec.orPanic t o) := by
  intro code h
  rw [orPanic_eq_error] at h
  exact ht code h.2

/-- nor a condition. -/
theorem panicIf {t : Trap} (ht : ∀ code, t ≠ .contract code) (c : Prop)
    [Decidable c] : Codeless (Exec.panicIf c t) := by
  intro code h
  rw [panicIf_eq_error] at h
  exact ht code h.2

end Codeless

/-- What an invocation is given by the ledger: whose authorisations it
carries, and the ledger sequence number. -/
structure Ctx where
  auth : Address → Bool
  sequence : UInt32

/-- `a.require_auth()`. -/
def Ctx.requireAuth (ctx : Ctx) (a : Address) : Except Trap Unit :=
  panicIf (ctx.auth a = false) .auth

/-- The context of a call made by the contract `self`: the host counts a
direct invoker as authorised. -/
def Ctx.invokedBy (ctx : Ctx) (self : Address) : Ctx :=
  { ctx with auth := fun a => decide (a = self) || ctx.auth a }

-- ========================================================= arithmetic

/-- An `i128` argument; its value is `toInt`. -/
abbrev I128 := BitVec 128

/-- `to_be_bytes` of an `i128`. -/
def I128.toBeBytes (x : I128) : Bytes := Digits.beBytes 16 x.toNat

/-- Sixteen bytes. -/
@[simp]
theorem I128.length_toBeBytes (x : I128) : x.toBeBytes.length = 16 :=
  Digits.length_beBytes 16 x.toNat

/-- A number has bytes of its own. -/
theorem I128.toBeBytes_inj {x y : I128} (h : x.toBeBytes = y.toBeBytes) :
    x = y := by
  apply BitVec.eq_of_toNat_eq
  exact Digits.beBytes_inj (by simpa using x.isLt) (by simpa using y.isLt) h

/-- The range of `i128`. -/
def InI128 (x : ℤ) : Prop := -2 ^ 127 ≤ x ∧ x < 2 ^ 127

instance (x : ℤ) : Decidable (InI128 x) :=
  inferInstanceAs (Decidable (_ ∧ _))

/-- The result of an `i128` operation, trapping on overflow. -/
def i128 (x : ℤ) : Except Trap ℤ :=
  if InI128 x then .ok x else .error .overflow

/-- The range of `u32`. -/
def InU32 (x : ℕ) : Prop := x < 2 ^ 32

instance (x : ℕ) : Decidable (InU32 x) :=
  inferInstanceAs (Decidable (_ < _))

/-- The result of a `u32` operation, trapping on overflow. -/
def u32 (x : ℕ) : Except Trap ℕ :=
  if InU32 x then .ok x else .error .overflow

/-- A number in range passes, -/
@[simp]
theorem i128_eq_ok {x y : ℤ} : i128 x = .ok y ↔ InI128 x ∧ x = y := by
  unfold i128
  by_cases h : InI128 x <;> simp [h]

/-- and any other overflows. -/
@[simp]
theorem i128_eq_error {x : ℤ} {t : Trap} :
    i128 x = .error t ↔ ¬InI128 x ∧ Trap.overflow = t := by
  unfold i128
  by_cases h : InI128 x <;> simp [h]

/-- A number in range passes, -/
@[simp]
theorem u32_eq_ok {x y : ℕ} : u32 x = .ok y ↔ InU32 x ∧ x = y := by
  unfold u32
  by_cases h : InU32 x <;> simp [h]

/-- and any other overflows. -/
@[simp]
theorem u32_eq_error {x : ℕ} {t : Trap} :
    u32 x = .error t ↔ ¬InU32 x ∧ Trap.overflow = t := by
  unfold u32
  by_cases h : InU32 x <;> simp [h]

-- ======================================================== byte cursors

/-- Read `n` bytes at the cursor. The cursor position is modelled by the
bytes that are left; a read past the end traps. (`Bytes` has a `u32`
length, so the source's position cannot overflow before that.) -/
def takeBytes : ℕ → Bytes → Except Trap (Bytes × Bytes)
  | 0, rest => .ok ([], rest)
  | _ + 1, [] => .error .outOfRange
  | n + 1, b :: rest =>
      match takeBytes n rest with
      | .ok (bs, rest') => .ok (b :: bs, rest')
      | .error t => .error t

/-- The front of a text is taken. -/
theorem takeBytes_append (bs rest : Bytes) :
    takeBytes bs.length (bs ++ rest) = .ok (bs, rest) := by
  induction bs with
  | nil => rfl
  | cons b bs ih => simp [takeBytes, ih]

/-- Taking bytes raises no contract error. -/
theorem takeBytes_codeless (n : ℕ) (s : Bytes) :
    Codeless (takeBytes n s) := by
  intro code h
  induction n generalizing s with
  | zero => cases h
  | succ n ih =>
      cases s with
      | nil => cases h
      | cons b s =>
          simp only [takeBytes] at h
          split at h
          case h_1 => cases h
          case h_2 t hrec =>
            injection h with h
            rw [h] at hrec
            exact ih s hrec

-- ============================================================= tokens

/-- The arguments of the messenger's `deposit_for_burn`. -/
structure BurnArgs where
  caller : Address
  amount : ℤ
  destinationDomain : UInt32
  mintRecipient : Word
  burnToken : Address
  destinationCaller : Word
  maxFee : ℤ
  minFinalityThreshold : UInt32

/-- The token contracts and the CCTP messenger, over the state `L` they
keep. -/
class TokenHost (L : Type) where
  /-- `balance(holder)` of a token -/
  balance : L → (token holder : Address) → ℤ
  /-- `allowance(owner, spender)` of a token -/
  allowance : L → (token owner spender : Address) → ℤ
  /-- `transfer(src, dst, amount)`, authorised by `src` -/
  transfer : L → (token src dst : Address) → ℤ → Option L
  /-- `approve(owner, spender, amount, expiration)`, authorised by
  `owner` -/
  approve : L → (token owner spender : Address) → ℤ → (expiration : ℕ) →
    Option L
  /-- the messenger's `deposit_for_burn` -/
  depositForBurn : L → (messenger : Address) → BurnArgs → Option L

open TokenHost

/-- One invocation of a token or of the messenger. -/
inductive TokenOp
  | transfer (token src dst : Address) (amount : ℤ)
  | approve (token owner spender : Address) (amount : ℤ) (expiration : ℕ)
  | depositForBurn (messenger : Address) (args : BurnArgs)

/-- Perform an invocation; a refusal traps. -/
def TokenOp.perform {L : Type} [TokenHost L] (l : L) :
    TokenOp → Except Trap L
  | transfer token src dst amount =>
      orPanic .token (TokenHost.transfer l token src dst amount)
  | approve token owner spender amount expiration =>
      orPanic .token
        (TokenHost.approve l token owner spender amount expiration)
  | depositForBurn messenger args =>
      orPanic .messenger (TokenHost.depositForBurn l messenger args)

/-- Nor does a token. -/
theorem TokenOp.perform_codeless {L : Type} [TokenHost L] (l : L)
    (op : TokenOp) : Codeless (op.perform l) := by
  cases op with
  | transfer token src dst amount =>
      exact Codeless.orPanic (t := .token) nofun _
  | approve token owner spender amount exp =>
      exact Codeless.orPanic (t := .token) nofun _
  | depositForBurn messenger args =>
      exact Codeless.orPanic (t := .messenger) nofun _

/-- What the pool relies on of the tokens it holds and of the messenger:
SEP-41, and burns within the allowance. -/
class LawfulTokens (L : Type) [TokenHost L] : Prop where
  balance_nonneg : ∀ (l : L) (t a : Address), 0 ≤ balance l t a
  transfer_balance : ∀ {l l' : L} {t src dst : Address} {x : ℤ},
    transfer l t src dst x = some l' → 0 ≤ x ∧ ∀ t' a,
      balance l' t' a = balance l t' a
        - (if t' = t ∧ a = src then x else 0)
        + (if t' = t ∧ a = dst then x else 0)
  approve_balance : ∀ {l l' : L} {t owner spender : Address} {x : ℤ}
    {exp : ℕ}, approve l t owner spender x exp = some l' →
      ∀ t' a, balance l' t' a = balance l t' a
  approve_allowance : ∀ {l l' : L} {t owner spender : Address} {x : ℤ}
    {exp : ℕ}, approve l t owner spender x exp = some l' →
      allowance l' t owner spender = x
  burn_balance : ∀ {l l' : L} {m : Address} {b : BurnArgs},
    depositForBurn l m b = some l' → ∀ t,
      balance l t b.caller
          - (if t = b.burnToken then allowance l t b.caller m else 0)
        ≤ balance l' t b.caller

-- ==================================================== the asset contract

/-- The ledger of Stellar asset contracts: balances and allowances, with
no negative balance. -/
structure SacLedger where
  bal : Address → Address → ℤ
  allow : Address → Address → Address → ℤ
  nonneg : ∀ t a, 0 ≤ bal t a

namespace SacLedger

/-- Move `x` of token `t` from `src` to `dst`. -/
def moved (l : SacLedger) (t src dst : Address) (x : ℤ)
    (h : 0 ≤ x ∧ x ≤ l.bal t src) : SacLedger where
  bal t' a := l.bal t' a - (if t' = t ∧ a = src then x else 0)
    + (if t' = t ∧ a = dst then x else 0)
  allow := l.allow
  nonneg t' a := by
    have hpos := l.nonneg t' a
    split <;> split
    · omega
    · rename_i hsrc _
      obtain ⟨rfl, rfl⟩ := hsrc
      omega
    · omega
    · omega

/-- Destroy `x` of token `t` held by `src`, drawn from the allowance of
`spender`. -/
def burned (l : SacLedger) (t src spender : Address) (x : ℤ)
    (h : 0 ≤ x ∧ x ≤ l.bal t src) : SacLedger where
  bal t' a := l.bal t' a - (if t' = t ∧ a = src then x else 0)
  allow t' a s := l.allow t' a s
    - (if t' = t ∧ a = src ∧ s = spender then x else 0)
  nonneg t' a := by
    have hpos := l.nonneg t' a
    split
    · rename_i hsrc
      obtain ⟨rfl, rfl⟩ := hsrc
      omega
    · omega

instance : TokenHost SacLedger where
  balance l t a := l.bal t a
  allowance l t a s := l.allow t a s
  transfer l t src dst x :=
    if h : 0 ≤ x ∧ x ≤ l.bal t src then some (l.moved t src dst x h)
    else none
  approve l t owner spender x _ :=
    if 0 ≤ x then
      some { l with
        allow := fun t' a s =>
          if t' = t ∧ a = owner ∧ s = spender then x else l.allow t' a s }
    else none
  depositForBurn l m b :=
    if h : 0 ≤ b.amount ∧ b.amount ≤ l.bal b.burnToken b.caller then
      if b.amount ≤ l.allow b.burnToken b.caller m then
        some (l.burned b.burnToken b.caller m b.amount h)
      else none
    else none

instance : LawfulTokens SacLedger where
  balance_nonneg l t a := l.nonneg t a
  transfer_balance := by
    intro l l' t src dst x hok
    simp only [transfer] at hok
    split at hok
    case isFalse => cases hok
    case isTrue h =>
      injection hok with hok
      subst hok
      exact ⟨h.1, fun _ _ => rfl⟩
  approve_balance := by
    intro l l' t owner spender x exp hok t' a
    simp only [approve] at hok
    split at hok
    case isFalse => cases hok
    case isTrue h =>
      injection hok with hok
      subst hok
      rfl
  approve_allowance := by
    intro l l' t owner spender x exp hok
    simp only [approve] at hok
    split at hok
    case isFalse => cases hok
    case isTrue h =>
      injection hok with hok
      subst hok
      show (if _ then x else _) = x
      rw [if_pos ⟨rfl, rfl, rfl⟩]
  burn_balance := by
    intro l l' m b hok t
    simp only [depositForBurn] at hok
    split at hok
    case isFalse => cases hok
    case isTrue h =>
      split at hok
      case isFalse => cases hok
      case isTrue hallow =>
        injection hok with hok
        subst hok
        show _ ≤ l.bal t b.caller
          - (if t = b.burnToken ∧ b.caller = b.caller then b.amount else 0)
        by_cases ht : t = b.burnToken
        · subst ht
          rw [if_pos rfl, if_pos ⟨rfl, rfl⟩]
          exact Int.sub_le_sub_left hallow _
        · rw [if_neg ht, if_neg fun hc => ht hc.1]
          exact le_refl _

end SacLedger

end Lumix
