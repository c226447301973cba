/-
Logging out.

A session that was logged out stays revoked, and no session comes with
its hash again. So its token never authenticates again, whatever follows
(`logout_final`).
-/
import Lumix.Services.SigningIn

namespace Lumix.Services.WalletAuth

open Text Vaults

variable {lib : SignatureLib} {sha256Hex : String → String} {w w' : World}
  {i : ℕ} {users : Table String (· = ·)}
  {wallets : Table WalletRow WalletRow.Clash} {es : List ServiceEvent}

variable {hash : String}

/-- Some session in the table has this hash. -/
def Known (hash : String) (w : World) : Prop :=
  ∃ s ∈ w.tables.sessions.rows, s.session_hash = hash

/-- There is a session with the hash, and it was revoked. -/
def Revoked (hash : String) (w : World) : Prop :=
  Known hash w ∧ ∀ s ∈ w.tables.sessions.rows, s.session_hash = hash →
    s.revoked_at ≠ none

/-- Everything a statement does to the sessions. -/
inductive SessionsMoved (rows : List SessionRow) : List SessionRow → Prop
  | same : SessionsMoved rows rows
  | opened (row : SessionRow) (h : ∀ r ∈ rows, ¬r.Clash row) :
      SessionsMoved rows (rows ++ [row])
  | revoked (hash : String) (now : ℕ) :
      SessionsMoved rows (rows.map (·.revoke hash now))

/-- What a statement does to the session table. -/
theorem sessions_moved (draw : Draw) (t : Tables) (q : Query) :
    SessionsMoved t.sessions.rows
      (performTables draw t q).1.sessions.rows := by
  cases q with
  | createSession userId sessionHash expiresAt =>
      cases hinsert : t.sessions.insert
          (newSession userId sessionHash expiresAt draw) with
      | none =>
          simp only [performTables, inserted, hinsert]
          exact .same
      | some rows =>
          obtain ⟨hnew, hrows⟩ := Table.insert_eq_some hinsert
          simp only [performTables, inserted, hinsert]
          rw [hrows]
          exact .opened _ hnew
  | revokeSession sessionHash => exact .revoked sessionHash draw.now
  | createNonce walletType address nonce message expiresAt =>
      simp only [performTables, inserted]
      split <;> exact .same
  | consumeNonce walletType address nonce =>
      simp only [performTables]
      split <;> exact .same
  | insertUser =>
      simp only [performTables]
      split <;> exact .same
  | insertWallet userId walletType chain address =>
      simp only [performTables, inserted]
      split <;> exact .same
  | addWallet userId walletType chain address =>
      simp only [performTables]
      split
      · exact .same
      · split <;> exact .same
  | _ => exact .same

/-- A session's row stays, revoked or not. -/
theorem Known.perform (h : Known hash w) (draw : Draw) (q : Call) :
    Known hash (perform i draw w q).1 := by
  obtain ⟨s, hs, hhash⟩ := h
  have hmoved := sessions_moved draw w.tables q.query
  show ∃ s ∈ (performTables draw w.tables q.query).1.sessions.rows, _
  generalize (performTables draw w.tables q.query).1.sessions.rows = rows
    at hmoved
  cases hmoved with
  | same => exact ⟨s, hs, hhash⟩
  | opened row hnew => exact ⟨s, List.mem_append_left _ hs, hhash⟩
  | revoked hash' now =>
      exact ⟨_, List.mem_map_of_mem hs, (s.revoke_hash hash' now).trans hhash⟩

/-- No second session has the hash, and none is restored. -/
theorem Revoked.perform (h : Revoked hash w) (draw : Draw) (q : Call) :
    Revoked hash (perform i draw w q).1 := by
  refine ⟨h.1.perform draw q, ?_⟩
  obtain ⟨⟨s₀, hs₀, hhash₀⟩, hall⟩ := h
  have hmoved := sessions_moved draw w.tables q.query
  show ∀ s ∈ (performTables draw w.tables q.query).1.sessions.rows, _
  generalize (performTables draw w.tables q.query).1.sessions.rows = rows
    at hmoved
  cases hmoved with
  | same => exact hall
  | opened row hnew =>
      refine List.forall_mem_append.mpr
        ⟨hall, List.forall_mem_singleton.mpr fun hhash => ?_⟩
      exact absurd (.inr (hhash₀.trans hhash.symm)) (hnew s₀ hs₀)
  | revoked hash' now =>
      intro s hs hhash
      obtain ⟨s', hs', rfl⟩ := List.mem_map.mp hs
      rw [SessionRow.revoke_hash] at hhash
      unfold SessionRow.revoke
      split
      · exact Option.some_ne_none now
      · exact hall s' hs' hhash

/-- Once the revocation has run, no session of the hash is live. -/
theorem revoked_revokeSession (h : Known hash w) (draw : Draw) :
    Revoked hash (perform i draw w ⟨request, .revokeSession hash⟩).1 := by
  refine ⟨h.perform draw _, fun s hs hhash => ?_⟩
  obtain ⟨s', -, rfl⟩ := List.mem_map.mp hs
  rw [SessionRow.revoke_hash] at hhash
  rw [SessionRow.revoke, if_pos hhash]
  exact Option.some_ne_none draw.now

/-- A revoked session authenticates nobody. -/
theorem Revoked.userIdForSession (h : Revoked hash w) (now : ℕ) :
    userIdForSession w.tables hash now = none := by
  rw [WalletAuth.userIdForSession, Option.map_eq_none_iff,
    List.find?_eq_none]
  intro s hs hlive
  obtain ⟨hhash, hfree, -⟩ := of_decide_eq_true hlive
  exact h.2 s hs hhash hfree

/-- The session of the token is there, and stays revoked once it is. -/
def revoking (hash : String) : Discipline Call World Choice where
  Inv := Known hash
  Rely _ w w' := Revoked hash w → Revoked hash w'
  Pre _ _ _ := True
  Allow _ _ _ _ := True

/-- Every statement keeps a known hash known. -/
theorem revoking_lawful :
    (revoking hash).Lawful (walletAuth lib sha256Hex).exec where
  refl _ _ h := h
  trans _ _ _ _ h h' := h' ∘ h
  keeps _ q c _ hw _ _ :=
    ⟨Statement.exec_keeps (R := Known hash) (executed c) hw
        fun draw _ => hw.perform draw q,
      fun _ _ hrevoked => Statement.exec_keeps (R := Revoked hash)
        (executed c) hrevoked fun draw _ => hrevoked.perform draw q⟩

/-- Who logs out leaves the session revoked. -/
theorem logout_revokes {token : String} (htoken : token ≠ "") :
    (revoking (sha256Hex token)).Safe (walletAuth lib sha256Hex).exec i
      (fun r w' => ∀ a, r = .ok a → Revoked (sha256Hex token) w')
      (WalletAuth.logout sha256Hex request (some token)) w := by
  have hfilter : (some token).filter (· ≠ "") = some token :=
    Option.filter_eq_some_iff.mpr ⟨rfl, decide_eq_true htoken⟩
  unfold WalletAuth.logout
  rw [hfilter]
  refine .query_then fun w₁ hw₁ => ⟨trivial, fun c _ a ha => ?_⟩
  obtain ⟨draw, rfl, -⟩ := Statement.exec_answered ha
  exact fun w₂ hw₂ _ _ => hw₂.1 (revoked_revokeSession hw₁.2 draw)

/-- Nothing restores a session that was revoked. -/
def barring (hash : String) : Discipline Call World Choice where
  Inv := Revoked hash
  Rely _ _ _ := True
  Pre _ _ _ := True
  Allow _ _ _ _ := True

/-- Every statement keeps a revoked hash revoked. -/
theorem barring_lawful :
    (barring hash).Lawful (walletAuth lib sha256Hex).exec where
  refl _ _ := trivial
  trans _ _ _ _ _ _ := trivial
  keeps _ q c _ hw _ _ :=
    ⟨Statement.exec_keeps (R := Revoked hash) (executed c) hw
        fun draw _ => hw.perform draw q,
      fun _ _ => trivial⟩

/-- Who comes with the token is nobody. -/
theorem optionalUser_bars {token : String} (htoken : token ≠ "") :
    (barring (sha256Hex token)).Safe (walletAuth lib sha256Hex).exec i
      (fun r _ => ∀ a, r = .ok a → a = .authenticated none)
      (optionalUser sha256Hex request (some token)) w := by
  have hfilter : (some token).filter (· ≠ "") = some token :=
    Option.filter_eq_some_iff.mpr ⟨rfl, decide_eq_true htoken⟩
  unfold optionalUser
  rw [hfilter]
  refine .query_then fun w₁ hw₁ => ⟨trivial, fun c _ a ha => ?_⟩
  obtain ⟨draw, rfl, hperform⟩ := Statement.exec_answered ha
  have hnone := congrArg Prod.snd hperform
  injection hnone with hnone
  rw [hw₁.2.userIdForSession draw.now] at hnone
  intro w₂ _ reply hreply
  injection hreply with hreply
  rw [← hreply, ← hnone]

/-- A logout that is asked for when the session is there. -/
theorem revoked_of_logout {m : Service} {token : String}
    (htoken : token ≠ "") (hthere : Known (sha256Hex token) m.shared)
    (fs : List ServiceEvent) (hasked : m.procs.length ≤ i)
    (hreturned : (Run.run (walletAuth lib sha256Hex).step m fs).procs[i]?
      = some ⟨.logout (some token), some (.pure .loggedOut)⟩) :
    Revoked (sha256Hex token)
      (Run.run (walletAuth lib sha256Hex).step m fs).shared := by
  have hstart : ∀ (t : Request) i w, Known (sha256Hex token) w →
      (revoking (sha256Hex token)).Safe (walletAuth lib sha256Hex).exec i
        (fun r w' => ∀ a : Reply, r = .ok a → t = .logout (some token) →
          Revoked (sha256Hex token) w') (t.code lib sha256Hex) w := by
    intro t i w _
    by_cases ht : t = .logout (some token)
    · subst ht
      exact (logout_revokes htoken).mono fun _ _ _ h a ha _ => h a ha
    · exact (Discipline.Safe.of_uses (fun _ _ _ _ => trivial)
        (Prog.uses_any _)).mono fun _ _ _ _ _ _ h => absurd h ht
  obtain ⟨-, hlate⟩ := System.late_run revoking_lawful
    (fun _ _ _ _ => trivial) (fun _ _ _ => trivial) hstart
    (fun e w w' ts hw he => by
      injection he with he
      injection he with he
      subst he
      exact ⟨hw, fun _ h => h⟩) hthere fs
  exact hlate i _ _ hasked hreturned _ rfl rfl

/-- After a token is revoked, it stays so in every continuation, and a
request that starts later is told that nobody is signed in. -/
theorem barred_run {m : Service} {token : String} (htoken : token ≠ "")
    (hrevoked : Revoked (sha256Hex token) m.shared)
    (gs : List ServiceEvent) :
    Revoked (sha256Hex token)
        (Run.run (walletAuth lib sha256Hex).step m gs).shared
      ∧ ∀ (j : ℕ) reply, m.procs.length ≤ j →
        (Run.run (walletAuth lib sha256Hex).step m gs).procs[j]?
          = some ⟨.session (some token), some (.pure reply)⟩ →
        reply = .authenticated none := by
  have hstart : ∀ (t : Request) i w, Revoked (sha256Hex token) w →
      (barring (sha256Hex token)).Safe (walletAuth lib sha256Hex).exec i
        (fun r _ => ∀ a : Reply, r = .ok a → t = .session (some token) →
          a = .authenticated none) (t.code lib sha256Hex) w := by
    intro t i w _
    by_cases ht : t = .session (some token)
    · subst ht
      exact (optionalUser_bars htoken).mono fun _ _ _ h a ha _ => h a ha
    · exact (Discipline.Safe.of_uses (fun _ _ _ _ => trivial)
        (Prog.uses_any _)).mono fun _ _ _ _ _ _ h => absurd h ht
  obtain ⟨hlast, hlate⟩ := System.late_run barring_lawful
    (fun _ _ _ _ => trivial) (fun _ _ _ => trivial) hstart
    (fun e w w' ts hw he => by
      injection he with he
      injection he with he
      subst he
      exact ⟨hw, fun _ => trivial⟩) hrevoked gs
  exact ⟨hlast, fun j reply hle hj => hlate j _ _ hle hj _ rfl rfl⟩

/-- A logout that was asked for when the session was there, and that has
returned, ends it: from then on the token finds no session, whatever else
happens, and every request with it that is made later is answered as one
of nobody. -/
theorem logout_final (lib : SignatureLib) (sha256Hex : String → String)
    (users : Table String (· = ·)) (wallets : Table WalletRow WalletRow.Clash)
    (es fs gs : List ServiceEvent) {token : String} {i : ℕ}
    (htoken : token ≠ "")
    (hthere : ∃ s ∈ sessionsAfter lib sha256Hex users wallets es,
      s.session_hash = sha256Hex token)
    (hasked : (after lib sha256Hex users wallets es).procs.length ≤ i)
    (hreturned : (after lib sha256Hex users wallets (es ++ fs)).procs[i]?
      = some ⟨.logout (some token), some (.pure .loggedOut)⟩) :
    (∀ now, userIdForSession (after lib sha256Hex users wallets
        (es ++ fs ++ gs)).shared.tables (sha256Hex token) now = none)
      ∧ ∀ (j : ℕ) reply,
        (after lib sha256Hex users wallets (es ++ fs)).procs.length ≤ j →
        (after lib sha256Hex users wallets (es ++ fs ++ gs)).procs[j]?
          = some ⟨.session (some token), some (.pure reply)⟩ →
        reply = .authenticated none := by
  have hrevoked : Revoked (sha256Hex token)
      (after lib sha256Hex users wallets (es ++ fs)).shared := by
    rw [after_append] at hreturned ⊢
    exact revoked_of_logout htoken hthere fs hasked hreturned
  rw [after_append lib sha256Hex users wallets (es ++ fs) gs]
  obtain ⟨hlast, hlate⟩ := barred_run htoken hrevoked gs
  exact ⟨hlast.userIdForSession, hlate⟩

-- ================================================================= a run

namespace Demo

/-- The wallet that signs in. -/
def wallet₀ : String := "0x7E5F4552091A69125d5DfCb7b8C2659029395Bdf"

/-- The nonce that thirty-two zero bytes are formatted as. -/
def nonce₀ : String := "00000000000040008000000000000000"

/-- The wallet's signature of the message with the nonce. -/
def signature₀ : String :=
  "0x92ea087fc35109066dc06f4f541ab6da9099d0d9fcc2d60cdbb1468a31b60093"
    ++ "6e3a27c53e879b7ae52eea9304805890584931b1b42c701999a372d4e424262f1c"

/-- The token that thirty-two zero bytes are. -/
def token : String :=
  "0000000000000000000000000000000000000000000000000000000000000000"

/-- There is one wallet, and it signed once. -/
def signatures : SignatureLib where
  getAddress := .ok
  verifyMessage message signature :=
    if message = authMessage .EVM wallet₀ nonce₀ ∧ signature = signature₀ then
      .ok wallet₀
    else .error lost
  keypairVerify _ _ _ := .error lost
  bufferFromBase64 _ := []

/-- `sha256` of the token, and of nothing else. -/
def digests (s : String) : String :=
  if s = token then
    "60e05bd1b195af2f94112fa7197a5c88289058840ce7c6df9693756bc6250f55"
  else ""

/-- The id every row is given. -/
def uuid : String := "00000000-0000-4000-8000-000000000000"

/-- The request goes on, and draws zeros. -/
def go (i : ℕ) : ServiceEvent :=
  .run i (.go ⟨0, uuid, List.replicate 32 0, 0⟩)

/-- The wallet signs in. -/
def signIn : List ServiceEvent :=
  [.start (.nonce .EVM wallet₀), go 0, go 0, go 0,
   .start (.verify .EVM ⟨wallet₀, signature₀, nonce₀⟩),
   go 1, go 1, go 1, go 1, go 1, go 1, go 1, go 1, go 1]

/-- A third request logs the token out. -/
def signOut : List ServiceEvent :=
  [.start (.logout (some token)), go 2]

/-- The token is tried again. -/
def tryAgain : List ServiceEvent :=
  [.start (.session (some token)), go 3]

/-- The request has logged the token out. -/
def hasLoggedOut :
    Option (Proc Call.Answer Failure Reply Request) → Bool
  | some ⟨.logout (some t), some (.pure .loggedOut)⟩ => t = token
  | _ => false

/-- A log-out that was answered is recognised by its text. -/
theorem hasLoggedOut_iff
    {p : Option (Proc Call.Answer Failure Reply Request)}
    (h : hasLoggedOut p = true) :
    p = some ⟨.logout (some token), some (.pure .loggedOut)⟩ := by
  unfold hasLoggedOut at h
  split at h
  · rw [of_decide_eq_true h]
  · cases h

/-- After the run the session is stored, and the log-out has been
answered. -/
theorem signed_out :
    (∃ s ∈ sessionsAfter signatures digests .empty .empty signIn,
      s.session_hash = digests token)
      ∧ (after signatures digests .empty .empty signIn).procs.length ≤ 2
      ∧ hasLoggedOut (after signatures digests .empty .empty
        (signIn ++ signOut)).procs[2]? = true := by
  decide +kernel

end Demo

/-- The token that was logged out is tried again, in vain. -/
theorem logout_final_once :
    (∀ now, userIdForSession (after Demo.signatures Demo.digests .empty
        .empty (Demo.signIn ++ Demo.signOut ++ Demo.tryAgain)).shared.tables
        (Demo.digests Demo.token) now = none)
      ∧ ∀ (j : ℕ) reply,
        (after Demo.signatures Demo.digests .empty .empty
          (Demo.signIn ++ Demo.signOut)).procs.length ≤ j →
        (after Demo.signatures Demo.digests .empty .empty
          (Demo.signIn ++ Demo.signOut ++ Demo.tryAgain)).procs[j]?
          = some ⟨.session (some Demo.token), some (.pure reply)⟩ →
        reply = .authenticated none := by
  obtain ⟨hthere, hasked, hreturned⟩ := Demo.signed_out
  exact logout_final Demo.signatures Demo.digests .empty .empty Demo.signIn
    Demo.signOut Demo.tryAgain (by decide) hthere hasked
    (Demo.hasLoggedOut_iff hreturned)

end Lumix.Services.WalletAuth
