/-
What a recovery status is earned by.

The policy counts the active wrappers that are neither EVM wrappers nor
diagnostic, and looks among all active wrappers for a passkey or a Stellar
signature. So a wrapper that is listed twice counts twice, and a
diagnostic passkey makes a vault strong: a status is earned exactly when
neither decides it (`status_earned`). That more active wrappers never
lower it holds for every list (`rank_le_insert`).
-/
import Mathlib.Data.Finset.Card
import Mathlib.Data.Finset.Dedup
import Lumix.Services.Readiness

namespace Lumix.Services.Vaults

/-- The order of the statuses. -/
def PolicyStatus.rank : PolicyStatus → ℕ
  | .insufficient => 0
  | .sufficient => 1
  | .strong => 2

/-- What the policy reads of the wrappers of an envelope. -/
def plain (ws : List VaultWrapper) : List RecoveryWrapper :=
  ws.map (·.toRecoveryWrapper)

/-- The policy on wrappers as an envelope lists them. -/
def policyOf (ws : List VaultWrapper) (opts : PolicyOpts) : PolicyStatus :=
  evaluateRecoveryPolicy (plain ws) opts

/-- An active, non-EVM, non-diagnostic wrapper. -/
def VaultWrapper.Counts (w : VaultWrapper) : Prop :=
  w.status = .active ∧ w.type ≠ .evm_signature
    ∧ w.diagnostic_only ≠ some true

instance (w : VaultWrapper) : Decidable w.Counts :=
  inferInstanceAs (Decidable (_ ∧ _ ∧ _))

/-- A passkey or Stellar-signature wrapper. -/
def VaultWrapper.IsStrong (w : VaultWrapper) : Prop :=
  w.type = .passkey_prf ∨ w.type = .stellar_ed25519_signature

instance (w : VaultWrapper) : Decidable w.IsStrong :=
  inferInstanceAs (Decidable (_ ∨ _))

/-- The wrappers that count: active, and not for diagnosis only. -/
def countedWrappers (ws : List VaultWrapper) : List VaultWrapper :=
  ws.filter fun w => w.Counts

/-- The ids among the wrappers that are counted. -/
def countedIds (ws : List VaultWrapper) : Finset String :=
  ((countedWrappers ws).map (·.id)).toFinset

-- ============================================================= the branches

section Branches

variable {ws : List VaultWrapper} {opts : PolicyOpts} {min : ℕ}
  (hmin : opts.min = some min) (hpos : 1 ≤ min)

include hmin

/-- Below the given minimum. -/
theorem below_min {n : ℕ} : (∃ m ∈ opts.min, n < m) ↔ n < min := by
  rw [hmin]
  constructor
  · rintro ⟨m, ⟨⟩, hlt⟩
    exact hlt
  · exact fun hlt => ⟨min, rfl, hlt⟩

/-- When the policy is strong, -/
theorem policyOf_strong :
    policyOf ws opts = .strong ↔ min ≤ counted (plain ws)
      ∧ 2 ≤ counted (plain ws) ∧ hasStrong (plain ws) = true := by
  unfold policyOf
  rw [evaluateRecoveryPolicy_eq_strong, below_min hmin, Nat.not_lt]
  constructor
  · exact fun h => h.2
  · intro h
    refine ⟨?_, h⟩
    rintro ⟨-, hzero⟩
    omega

include hpos

/-- and when it is enough. -/
theorem policyOf_ne_insufficient :
    policyOf ws opts ≠ .insufficient ↔ min ≤ counted (plain ws)
      ∧ (opts.mainnet = true →
        2 ≤ counted (plain ws) ∧ hasStrong (plain ws) = true) := by
  unfold policyOf
  rw [ne_eq, evaluateRecoveryPolicy_eq_insufficient, below_min hmin, not_or,
    not_or, Nat.not_lt, not_and_not_right]
  constructor
  · exact fun h => h.2
  · intro h
    refine ⟨?_, h⟩
    rintro ⟨-, hzero⟩
    omega

end Branches

/-- More wrappers never lower the status. -/
theorem rank_le_insert (opts : PolicyOpts) (front back : List VaultWrapper)
    (w : VaultWrapper) :
    (policyOf (front ++ back) opts).rank
      ≤ (policyOf (front ++ w :: back) opts).rank := by
  have hsub : (plain (front ++ back)).Sublist (plain (front ++ w :: back)) :=
    ((List.Sublist.refl front).append (List.sublist_cons_self w back)).map _
  cases hstatus : policyOf (front ++ back) opts with
  | insufficient => exact Nat.zero_le _
  | sufficient =>
      have hne : policyOf (front ++ back) opts ≠ .insufficient := by
        rw [hstatus]
        decide
      have hmore : policyOf (front ++ w :: back) opts ≠ .insufficient :=
        (Backs.of_sublist hsub).policy hne
      cases hcase : policyOf (front ++ w :: back) opts with
      | insufficient => exact absurd hcase hmore
      | sufficient | strong => decide
  | strong =>
      have hmore : policyOf (front ++ w :: back) opts = .strong :=
        (Backs.of_sublist hsub).policy_strong hstatus
      rw [hmore]

-- =================================================================== earned

/-- A status is earned and monotone. -/
structure Earned (ws : List VaultWrapper) (opts : PolicyOpts) (min : ℕ) :
    Prop where
  enough : policyOf ws opts ≠ .insufficient → ∃ es ⊆ countedWrappers ws,
    (es.map (·.id)).Nodup ∧ min ≤ es.length
  strong : policyOf ws opts = .strong → ∃ a ∈ countedWrappers ws,
    ∃ b ∈ countedWrappers ws, b.id ≠ a.id ∧ a.IsStrong
  monotone : ∀ front back w, ws = front ++ back → w.status = .active →
    (policyOf ws opts).rank ≤ (policyOf (front ++ w :: back) opts).rank

/-- Neither wrappers that are listed twice nor diagnostic ones decide. -/
structure Undisputed (ws : List VaultWrapper) (opts : PolicyOpts)
    (min : ℕ) : Prop where
  ids : min ≤ counted (plain ws) →
    (opts.mainnet = true →
      2 ≤ counted (plain ws) ∧ hasStrong (plain ws) = true) →
    min ≤ (countedIds ws).card
  strong : min ≤ counted (plain ws) → 2 ≤ counted (plain ws) →
    hasStrong (plain ws) = true →
    2 ≤ (countedIds ws).card ∧ ∃ w ∈ countedWrappers ws, w.IsStrong

/-- Ids of wrappers are the ids of as many wrappers. -/
theorem exists_wrappers {ws : List VaultWrapper} (ids : List String)
    (h : ∀ id ∈ ids, id ∈ ws.map (·.id)) :
    ∃ es ⊆ ws, es.map (·.id) = ids := by
  induction ids with
  | nil => exact ⟨[], List.nil_subset _, rfl⟩
  | cons id ids ih =>
      obtain ⟨w, hw, hid⟩ := List.mem_map.mp (h id List.mem_cons_self)
      obtain ⟨es, hes, hids⟩ := ih fun id' hid' =>
        h id' (List.mem_cons_of_mem _ hid')
      refine ⟨w :: es, List.cons_subset.mpr ⟨hw, hes⟩, ?_⟩
      rw [List.map_cons, hid, hids]

/-- Enough of them with ids of their own are enough ids. -/
theorem distinct_iff (ws : List VaultWrapper) (min : ℕ) :
    (∃ es ⊆ countedWrappers ws, (es.map (·.id)).Nodup ∧ min ≤ es.length)
      ↔ min ≤ (countedIds ws).card := by
  constructor
  · rintro ⟨es, hes, hnodup, hlength⟩
    have hsub : (es.map (·.id)).toFinset ⊆ countedIds ws := by
      intro id hid
      rw [List.mem_toFinset, List.mem_map] at hid
      obtain ⟨w, hw, rfl⟩ := hid
      exact List.mem_toFinset.mpr (List.mem_map_of_mem (hes hw))
    have hcard := Finset.card_le_card hsub
    rw [List.toFinset_card_of_nodup hnodup, List.length_map] at hcard
    omega
  · intro hmin
    obtain ⟨es, hes, hids⟩ := exists_wrappers (countedIds ws).toList
      fun id hid => List.mem_toFinset.mp (Finset.mem_toList.mp hid)
    refine ⟨es, hes, hids ▸ Finset.nodup_toList _, ?_⟩
    have hlength := congrArg List.length hids
    rw [List.length_map, Finset.length_toList] at hlength
    omega

/-- Two with different ids, one of them strong, are two ids and a strong
one. -/
theorem two_ids_iff (ws : List VaultWrapper) :
    (∃ a ∈ countedWrappers ws, ∃ b ∈ countedWrappers ws,
        b.id ≠ a.id ∧ a.IsStrong)
      ↔ 2 ≤ (countedIds ws).card ∧ ∃ w ∈ countedWrappers ws, w.IsStrong := by
  constructor
  · rintro ⟨a, ha, b, hb, hne, hstrong⟩
    have htwo : 1 < (countedIds ws).card := Finset.one_lt_card.mpr
      ⟨b.id, List.mem_toFinset.mpr (List.mem_map_of_mem hb), a.id,
        List.mem_toFinset.mpr (List.mem_map_of_mem ha), hne⟩
    exact ⟨htwo, a, ha, hstrong⟩
  · rintro ⟨htwo, a, ha, hstrong⟩
    obtain ⟨id, hid, hne⟩ := Finset.exists_mem_ne htwo a.id
    obtain ⟨b, hb, rfl⟩ := List.mem_map.mp (List.mem_toFinset.mp hid)
    exact ⟨a, ha, b, hb, hne, hstrong⟩

/-- A status is earned and monotone exactly when it is undisputed. -/
theorem status_earned :
    ∀ (ws : List VaultWrapper) (opts : PolicyOpts) (min : ℕ),
    opts.min = some min → 1 ≤ min →
    (Earned ws opts min ↔ Undisputed ws opts min) := by
  intro ws opts min hmin hpos
  constructor
  · intro h
    refine ⟨?_, ?_⟩
    · intro henough hmainnet
      rw [← distinct_iff]
      exact h.enough
        ((policyOf_ne_insufficient hmin hpos).mpr ⟨henough, hmainnet⟩)
    · intro henough htwo hstrong
      rw [← two_ids_iff]
      exact h.strong
        ((policyOf_strong hmin).mpr ⟨henough, htwo, hstrong⟩)
  · intro h
    refine ⟨?_, ?_, ?_⟩
    · intro hne
      obtain ⟨henough, hmainnet⟩ :=
        (policyOf_ne_insufficient hmin hpos).mp hne
      rw [distinct_iff]
      exact h.ids henough hmainnet
    · intro hstatus
      obtain ⟨henough, htwo, hstrong⟩ :=
        (policyOf_strong hmin).mp hstatus
      rw [two_ids_iff]
      exact h.strong henough htwo hstrong
    · rintro front back w rfl -
      exact rank_le_insert opts front back w

-- ===================================================================== runs

section Wrappers

/-- An active wrapper. -/
def wrapper (id : String) (type : WrapperType)
    (diagnostic_only : Option Bool) : VaultWrapper where
  type
  status := .active
  diagnostic_only
  id
  metadata := "{}"
  rest := ""

/-- A recovery kit, -/
def kit : VaultWrapper := wrapper "kit" .recovery_kit_password none

/-- a recovery file, -/
def file : VaultWrapper := wrapper "file" .recovery_file_secret none

/-- a passkey -/
def passkey : VaultWrapper := wrapper "passkey" .passkey_prf none

/-- and one for diagnosis only. -/
def diagnosticPasskey : VaultWrapper :=
  wrapper "diagnostic" .passkey_prf (some true)

/-- The minimum is two, and EVM wrappers alone do not do. -/
def twoOf (mainnet : Bool) : PolicyOpts where
  mainnet
  min := some 2
  allowEvmOnly := false

/-- A recovery kit and a passkey earn their status. -/
theorem status_earned_strong :
    policyOf [kit, passkey] (twoOf true) = .strong
      ∧ Earned [kit, passkey] (twoOf true) 2 := by
  refine ⟨by decide, (status_earned _ _ _ rfl (by decide)).mpr ⟨?_, ?_⟩⟩
  · exact fun _ _ => by decide
  · exact fun _ _ _ => by decide

/-- One recovery kit that is listed twice is enough for two, and a
diagnostic passkey makes two weak wrappers strong. -/
theorem status_unearned :
    (policyOf [kit, kit] (twoOf false) = .sufficient
        ∧ ¬Earned [kit, kit] (twoOf false) 2)
      ∧ policyOf [kit, file, diagnosticPasskey] (twoOf true) = .strong
        ∧ ¬Earned [kit, file, diagnosticPasskey] (twoOf true) 2 := by
  refine ⟨⟨by decide, fun h => ?_⟩, by decide, fun h => ?_⟩
  · have hids := h.enough (by decide)
    rw [distinct_iff] at hids
    exact absurd hids (by decide)
  · have hstrong := h.strong (by decide)
    rw [two_ids_iff] at hstrong
    exact absurd hstrong (by decide)

end Wrappers

end Lumix.Services.Vaults
