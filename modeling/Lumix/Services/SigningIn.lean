/-
Signing in.

However the requests interleave, statements fail and processes die: a
nonce is spent by one process and by no other, and whoever opened a
session, or had a wallet added, spent a nonce that the server had issued
for the wallet and whose message the wallet had signed. A session is of
the user its wallet belonged to, and a token authenticates as that user
only (`sessions_signed`).
-/
import Lumix.Lib.Traces
import Lumix.Services.Nonces

namespace Lumix.Services.WalletAuth

open Text Vaults

variable {lib : SignatureLib} {sha256Hex : String → String} {w w' : World}
  {i : ℕ}

-- ============================================================== requests

/-- Any draw may be executed. -/
theorem executed (c : Choice) :
    Statement.Executed (fun _ : Draw => True) c := by
  cases c <;> exact trivial

/-- The statements keep the discipline, whichever of them is run and
whatever is drawn. -/
theorem discipline_lawful :
    (discipline lib sha256Hex).Lawful (walletAuth lib sha256Hex).exec where
  refl := Rely.refl
  trans _ _ _ _ := Rely.trans
  keeps _ q c w hw hpre _ :=
    ⟨Statement.exec_keeps (R := Inv lib sha256Hex) (executed c) hw
        fun draw _ => inv_perform hw draw q hpre,
      fun j hj => Statement.exec_keeps (R := Rely j w) (executed c)
        (Rely.refl j w) fun draw _ => rely_perform hj draw w q⟩

variable (lib sha256Hex) in
/-- What a reply stands for. -/
def Returned (i : ℕ) (request : Request) (reply : Reply) (w : World) :
    Prop :=
  match reply with
  | .session userId token _ _ => ∃ g ∈ w.gained, g.proc = i
      ∧ g.request = request ∧ ∃ row, g.gain = .session row
      ∧ row.user_id = userId ∧ row.session_hash = sha256Hex token
  | .wallet _ => ∃ g ∈ w.gained, g.proc = i ∧ g.request = request
  | .authenticated (some userId) => ∃ token,
      request = .session (some token) ∧ ∃ g ∈ w.gained, ∃ row,
        g.gain = .session row ∧ row.user_id = userId
          ∧ row.session_hash = sha256Hex token
  | _ => True

variable {request : Request} {walletType : WalletType}
  {address nonce signature : String}

variable (lib) in
/-- The process has spent a nonce and has nothing for it yet; it knows of
some owners. -/
structure Held (i : ℕ) (request : Request) (walletType : WalletType)
    (address nonce signature wallet : String) (known : List Owner)
    (w : World) : Prop where
  spent : ∃ p ∈ w.spent, p.proc = i ∧ p.request = request
    ∧ p.row.address = wallet
    ∧ SignedFor lib walletType address nonce signature p.row
  gained : ∀ g ∈ w.gained, g.proc ≠ i
  owners : known ⊆ w.owners

variable {wallet : String} {known : List Owner}

/-- What a request holds, it still holds after the others went on. -/
theorem Held.later (h : Held lib i request walletType address nonce
    signature wallet known w) (hrely : Rely i w w') :
    Held lib i request walletType address nonce signature wallet known
      w' where
  spent := by
    obtain ⟨p, hp, hrest⟩ := h.spent
    exact ⟨p, hrely.spent hp, hrest⟩
  gained g hg hi := h.gained g (hrely.gainedBy g hg hi) hi
  owners _ ho := hrely.owners (h.owners ho)

/-- A statement of its own that gains nothing. -/
theorem Held.own (h : Held lib i request walletType address nonce
    signature wallet known w) {q : Call} {draw : Draw}
    (hq : gains i draw w.tables q = []) :
    Held lib i request walletType address nonce signature wallet known
      (perform i draw w q).1 where
  spent := by
    obtain ⟨p, hp, hrest⟩ := h.spent
    exact ⟨p, List.mem_append_left _ hp, hrest⟩
  gained := by
    show ∀ g ∈ w.gained ++ gains i draw w.tables q, _
    rw [hq, List.append_nil]
    exact h.gained
  owners _ ho := List.mem_append_left _ (h.owners ho)

/-- An owner who is in the book may be added to the known. -/
theorem Held.know (h : Held lib i request walletType address nonce
    signature wallet known w) {o : Owner} (ho : o ∈ w.owners) :
    Held lib i request walletType address nonce signature wallet
      (o :: known) w where
  spent := h.spent
  gained := h.gained
  owners := List.cons_subset.mpr ⟨ho, h.owners⟩

/-- Safe, with what it returns. -/
abbrev Gives {α : Type} (lib : SignatureLib) (sha256Hex : String → String)
    (i : ℕ) (P : α → World → Prop) (code : Route α) (w : World) : Prop :=
  (discipline lib sha256Hex).Safe (walletAuth lib sha256Hex).exec i
    (fun r w' => ∀ a, r = .ok a → P a w') code w

/-- A statement, and what follows its answer. -/
theorem gives_ask {α : Type} {P : α → World → Prop} {q : Query}
    {f : q.Answer → Route α}
    (h : ∀ w₁, Rely i w w₁ → Inv lib sha256Hex w₁ →
      Pre lib sha256Hex i ⟨request, q⟩ w₁
        ∧ ∀ draw a, (performTables draw w₁.tables q).2 = .ok a →
          Inv lib sha256Hex (perform i draw w₁ ⟨request, q⟩).1 →
          Gives lib sha256Hex i P (f a)
            (perform i draw w₁ ⟨request, q⟩).1) :
    Gives lib sha256Hex i P (ask request q >>= f) w := by
  refine Statement.answer_then fun w₁ hw₁ => ?_
  obtain ⟨hpre, hrest⟩ := h w₁ hw₁.1 hw₁.2
  exact ⟨hpre, fun draw a ha _ =>
    hrest draw a ha (inv_perform hw₁.2 draw _ hpre)⟩

/-- A statement that needs nothing and gains nothing. -/
theorem gives_aside {α : Type} {P : α → World → Prop} {q : Query}
    {f : q.Answer → Route α}
    (h : Held lib i request walletType address nonce signature wallet known
      w)
    (hpre : ∀ w₁, Pre lib sha256Hex i ⟨request, q⟩ w₁)
    (hgains : ∀ draw t, gains i draw t ⟨request, q⟩ = [])
    (hf : ∀ w₁ draw a, Inv lib sha256Hex w₁ →
      (performTables draw w₁.tables q).2 = .ok a →
      Held lib i request walletType address nonce signature wallet known
        (perform i draw w₁ ⟨request, q⟩).1 →
      Gives lib sha256Hex i P (f a) (perform i draw w₁ ⟨request, q⟩).1) :
    Gives lib sha256Hex i P (ask request q >>= f) w :=
  gives_ask fun w₁ hrely hinv => ⟨hpre w₁, fun draw a ha _ =>
    hf w₁ draw a hinv ha ((h.later hrely).own (hgains draw _))⟩

/-- The nonce is spent, and its message comes back. -/
theorem held_of_consumed {message : String} {draw : Draw}
    (hfresh : ∀ g ∈ w.gained, g.proc ≠ i)
    (haddress : normalizeAddress lib.walletLib walletType address
      = .ok wallet)
    (ha : (performTables draw w.tables
      (.consumeNonce walletType wallet nonce)).2 = .ok (some message))
    (hsigned : verifyWalletSignature lib walletType wallet message signature
      = true) :
    Held lib i request walletType address nonce signature wallet []
      (perform i draw w
        ⟨request, .consumeNonce walletType wallet nonce⟩).1 := by
  cases hfound : usableNonce w.tables draw walletType wallet nonce with
  | none =>
      simp only [performTables, hfound] at ha
      cases ha
  | some r =>
      simp only [performTables, hfound] at ha
      injection ha with ha
      injection ha with ha
      obtain ⟨-, htype, haddr, hnonce, -, -⟩ := usableNonce_some hfound
      refine ⟨⟨⟨i, request, r, draw.now⟩, List.mem_append_right _ ?_, rfl,
        rfl, haddr, htype, haddr ▸ haddress, hnonce, ?_⟩, ?_,
        List.nil_subset _⟩
      · show _ ∈ spends i draw w.tables _
        simp only [spends, hfound, Option.toList_some, List.map_cons,
          List.map_nil, List.mem_singleton]
      · rw [haddr, ha]
        exact hsigned
      · exact List.forall_mem_append.mpr ⟨hfresh, List.forall_mem_nil _⟩

/-- A row in the wallet table is among the owners. -/
theorem mem_ownersOf {t : Tables} {r : WalletRow} (h : r ∈ t.wallets.rows)
    (his : r.is walletType address = true) :
    (walletType, address, r.user_id) ∈ ownersOf t := by
  obtain ⟨htype, haddress⟩ := of_decide_eq_true his
  exact List.mem_map.mpr ⟨r, h, by rw [htype, haddress]⟩

/-- Whoever is found or created owned the wallet at that time. -/
theorem gives_upsertUserByWallet {chain : String}
    (hheld : Held lib i request walletType address nonce signature wallet []
      w) :
    Gives lib sha256Hex i (fun userId =>
        Held lib i request walletType address nonce signature wallet
          [(walletType, wallet, userId)])
      (upsertUserByWallet request walletType chain wallet) w := by
  refine gives_aside hheld (fun _ => trivial) (fun _ _ => rfl) ?_
  intro w₁ draw existing hinv ha hheld
  injection ha with ha
  cases existing with
  | some userId =>
      obtain ⟨r, hr, rfl⟩ := Option.map_eq_some_iff.mp ha
      have hmem := mem_ownersOf (List.mem_of_find?_eq_some hr)
        (List.find?_some hr)
      refine gives_aside (hheld.know (List.mem_append_left _
        (hinv.owners hmem))) (fun _ => trivial) (fun _ _ => rfl) ?_
      intro w₂ draw₂ _ _ _ hheld w₃ hw₃ a ha
      injection ha with ha
      exact ha ▸ hheld.later hw₃.1
  | none =>
      refine gives_aside hheld (fun _ => trivial) (fun _ _ => rfl) ?_
      intro w₂ draw₂ userId _ _ hheld
      refine gives_aside hheld (fun _ => trivial) (fun _ _ => rfl) ?_
      intro w₃ draw₃ _ _ _ hheld
      refine gives_aside hheld (fun _ => trivial) (fun _ _ => rfl) ?_
      intro w₄ draw₄ _ _ ha hheld w₅ hw₅ a ha'
      injection ha' with ha'
      subst ha'
      refine (hheld.know ?_).later hw₅.1
      refine List.mem_append_right _ ?_
      cases hinsert : w₄.tables.wallets.insert
          (primaryWallet userId walletType chain wallet draw₄) with
      | none =>
          simp only [performTables, inserted, hinsert] at ha
          cases ha
      | some rows =>
          obtain ⟨-, hrows⟩ := Table.insert_eq_some hinsert
          have hlast : primaryWallet userId walletType chain wallet draw₄
              ∈ rows.rows := by
            rw [hrows]
            exact List.mem_append_right _ (List.mem_singleton_self _)
          exact List.mem_map_of_mem hlast

/-- The session is opened for the nonce. -/
theorem gives_createSession {α : Type} {P : α → World → Prop}
    {body : VerifyBody} {bytes : List UInt8} {expiresAt : ℕ}
    {f : Unit → Route α}
    (h : Held lib i (.verify walletType body) walletType body.address
      body.nonce body.signature wallet [(walletType, wallet, userId)] w)
    (hf : ∀ w₁, (∃ g ∈ w₁.gained, g.proc = i
        ∧ g.request = .verify walletType body ∧ ∃ row, g.gain = .session row
        ∧ row.user_id = userId
        ∧ row.session_hash = sha256Hex (bytesHex bytes)) →
      Gives lib sha256Hex i P (f ()) w₁) :
    Gives lib sha256Hex i P (ask (.verify walletType body)
      (.createSession userId (sha256Hex (bytesHex bytes)) expiresAt)
        >>= f) w := by
  refine gives_ask fun w₁ hrely _ => ?_
  have hheld := h.later hrely
  refine ⟨⟨hheld.gained, fun draw => ?_⟩, fun draw _ ha _ => hf _ ?_⟩
  · obtain ⟨p, hp, hproc, hrequest, haddress, hsigned⟩ := hheld.spent
    refine ⟨p, hp, hproc, hrequest, walletType, body, rfl, hsigned, ?_,
      bytes, rfl⟩
    rw [haddress]
    exact hheld.owners (List.mem_singleton_self _)
  · cases hinsert : w₁.tables.sessions.insert (newSession userId
        (sha256Hex (bytesHex bytes)) expiresAt draw) with
    | none =>
        simp only [performTables, inserted, hinsert] at ha
        cases ha
    | some rows =>
        refine ⟨⟨i, _, .session (newSession userId
          (sha256Hex (bytesHex bytes)) expiresAt draw)⟩,
          List.mem_append_right _ ?_, rfl, rfl, _, rfl, rfl, rfl⟩
        show _ ∈ gains i draw w₁.tables _
        simp only [gains, hinsert, Option.isSome_some, if_true]
        exact List.mem_singleton_self _

/-- A verify request that returns a session paid for it. -/
theorem gives_verifyHandler {body : VerifyBody} (hfresh : Fresh i w) :
    Gives lib sha256Hex i (Returned sha256Hex i (.verify walletType body))
      (verifyHandler lib sha256Hex (.verify walletType body) walletType body)
      w := by
  refine .ofExcept_then fun wallet haddress => ?_
  refine gives_ask fun w₁ hrely _ => ⟨?_, fun draw message ha hinv => ?_⟩
  · exact fun p hp hi => hfresh.1 p (hrely.spentBy p hp hi) hi
  refine .ofExcept_then fun m hm => ?_
  rw [Exec.orPanic_eq_ok, Option.filter_eq_some_iff] at hm
  obtain ⟨rfl, -⟩ := hm
  refine .ofExcept_then fun _ hsigned => ?_
  have hsigned : verifyWalletSignature lib walletType wallet m
      body.signature = true := by
    simpa [reject, Exec.panicIf] using hsigned
  have hheld : Held lib i (.verify walletType body) walletType body.address
      body.nonce body.signature wallet [] _ :=
    held_of_consumed (fun g hg hi => hfresh.2 g (hrely.gainedBy g hg hi) hi)
      haddress ha hsigned
  refine (gives_upsertUserByWallet hheld).bind_then discipline_lawful hinv
    fun userId w₂ _ hheld => ?_
  refine gives_aside hheld (fun _ => trivial) (fun _ _ => rfl)
    fun w₃ draw₃ bytes _ _ hheld => ?_
  refine gives_aside hheld (fun _ => trivial) (fun _ _ => rfl)
    fun w₄ draw₄ now _ _ hheld => ?_
  refine gives_createSession hheld fun w₅ hgained => ?_
  refine gives_ask fun w₆ hrely₆ _ => ⟨trivial, fun draw₆ _ _ _ => ?_⟩
  obtain ⟨g, hg, hrest⟩ := hgained
  intro w₇ hw₇ reply hreply
  injection hreply with hreply
  subst hreply
  exact ⟨g, hw₇.1.gained (List.mem_append_left _ (hrely₆.gained hg)), hrest⟩

/-- A request that returns an added wallet paid for it. -/
theorem gives_addWallet {auth : Option Auth} {body : AddWalletBody}
    (hfresh : Fresh i w) :
    Gives lib sha256Hex i (Returned sha256Hex i (.addWallet auth body))
      (addWallet lib (.addWallet auth body) auth body) w := by
  refine .ofExcept_then fun userId huser => ?_
  refine .ofExcept_then fun wallet haddress => ?_
  refine gives_ask fun w₁ hrely _ => ⟨?_, fun draw message ha hinv => ?_⟩
  · exact fun p hp hi => hfresh.1 p (hrely.spentBy p hp hi) hi
  refine .ofExcept_then fun m hm => ?_
  rw [Exec.orPanic_eq_ok, Option.filter_eq_some_iff] at hm
  obtain ⟨rfl, -⟩ := hm
  refine .ofExcept_then fun _ hsigned => ?_
  have hsigned : verifyWalletSignature lib body.wallet_type wallet m
      body.signature = true := by
    simpa [reject, Exec.panicIf] using hsigned
  have hheld : Held lib i (.addWallet auth body) body.wallet_type
      body.address body.nonce body.signature wallet [] _ :=
    held_of_consumed (fun g hg hi => hfresh.2 g (hrely.gainedBy g hg hi) hi)
      haddress ha hsigned
  refine gives_ask fun w₂ hrely₂ _ => ?_
  have hheld₂ := hheld.later hrely₂
  refine ⟨⟨hheld₂.gained, ?_⟩, fun draw₂ walletId _ _ => ?_⟩
  · obtain ⟨p, hp, hproc, hrequest, haddr, hfor⟩ := hheld₂.spent
    exact ⟨p, hp, hproc, hrequest, auth, body, rfl, huser, rfl, haddr.symm,
      hfor⟩
  refine gives_ask fun w₃ hrely₃ _ => ⟨trivial, fun draw₃ _ _ _ => ?_⟩
  intro w₄ hw₄ reply hreply
  injection hreply with hreply
  subst hreply
  refine ⟨⟨i, .addWallet auth body, .wallet userId body.wallet_type wallet⟩,
    hw₄.1.gained (List.mem_append_left _ (hrely₃.gained ?_)), rfl, rfl⟩
  exact List.mem_append_right _ (List.mem_singleton_self _)

/-- A token finds the session it was made for. -/
theorem gives_optionalUser {token : Option String} :
    Gives lib sha256Hex i (Returned sha256Hex i (.session token))
      (optionalUser sha256Hex (.session token) token) w := by
  unfold optionalUser
  cases htoken : token.filter (· ≠ "") with
  | none =>
      intro w₁ hw₁ reply hreply
      injection hreply with hreply
      subst hreply
      trivial
  | some t =>
      rw [Option.filter_eq_some_iff] at htoken
      obtain ⟨rfl, -⟩ := htoken
      refine gives_ask fun w₁ hrely hinv => ⟨trivial,
        fun draw userId ha _ => ?_⟩
      intro w₂ hw₂ reply hreply
      injection hreply with hreply
      subst hreply
      cases userId with
      | none => trivial
      | some userId =>
          injection ha with ha
          obtain ⟨s, hs, rfl⟩ := Option.map_eq_some_iff.mp ha
          have hlive : s.Live (sha256Hex t) draw.now := by
            simpa using List.find?_some hs
          have hhash := hlive.1
          obtain ⟨row, ⟨g, hg, hgain⟩, hrow⟩ :=
            hinv.opened s (List.mem_of_find?_eq_some hs)
          refine ⟨t, rfl, g, hw₂.1.gained (List.mem_append_left _ hg), row,
            hgain, ?_⟩
          rw [hrow] at hhash
          rw [hrow]
          exact ⟨rfl, hhash⟩

/-- So with every request. -/
theorem gives_code (request : Request) (hfresh : Fresh i w) :
    Gives lib sha256Hex i (Returned sha256Hex i request)
      (request.code lib sha256Hex) w := by
  cases request with
  | nonce walletType address =>
      refine .ofExcept_then fun wallet _ => ?_
      refine gives_ask fun w₁ _ _ => ⟨trivial, fun _ uuid _ _ => ?_⟩
      refine gives_ask fun w₂ _ _ => ⟨trivial, fun _ now _ _ => ?_⟩
      refine gives_ask fun w₃ _ _ => ⟨rfl, fun _ _ _ _ => ?_⟩
      intro w₄ hw₄ reply hreply
      injection hreply with hreply
      subst hreply
      trivial
  | verify walletType body => exact gives_verifyHandler hfresh
  | addWallet auth body => exact gives_addWallet hfresh
  | session token => exact gives_optionalUser
  | logout token =>
      show Gives lib sha256Hex i _ (WalletAuth.logout sha256Hex _ token) w
      unfold WalletAuth.logout
      cases token.filter (· ≠ "") with
      | none =>
          intro w₁ hw₁ reply hreply
          injection hreply with hreply
          subst hreply
          trivial
      | some t =>
          refine gives_ask fun w₁ _ _ => ⟨trivial, fun _ _ _ _ => ?_⟩
          intro w₂ hw₂ reply hreply
          injection hreply with hreply
          subst hreply
          trivial

-- ================================================================ runs

/-- A request makes its statements in its own name. -/
theorem uses_code (request : Request) :
    (request.code lib sha256Hex).Uses fun q => q.request = request := by
  have hask : ∀ q : Query, Prog.Uses (fun q' : Call => q'.request = request)
      (ask request q) := fun q => Prog.uses_query rfl
  cases request with
  | nonce walletType address =>
      refine (Prog.uses_ofExcept _).bind fun _ => ?_
      refine (hask _).bind fun _ => (hask _).bind fun _ => ?_
      exact (hask _).bind fun _ => trivial
  | verify walletType body =>
      refine (Prog.uses_ofExcept _).bind fun _ => ?_
      refine (hask _).bind fun _ => (Prog.uses_ofExcept _).bind fun _ => ?_
      refine (Prog.uses_ofExcept _).bind fun _ => Prog.Uses.bind ?_ fun _ => ?_
      · refine (hask _).bind fun existing => ?_
        cases existing with
        | some userId => exact (hask _).bind fun _ => trivial
        | none =>
            refine (hask _).bind fun _ => (hask _).bind fun _ => ?_
            exact (hask _).bind fun _ => trivial
      · refine (hask _).bind fun _ => (hask _).bind fun _ => ?_
        exact (hask _).bind fun _ => (hask _).bind fun _ => trivial
  | addWallet auth body =>
      refine (Prog.uses_ofExcept _).bind fun _ => ?_
      refine (Prog.uses_ofExcept _).bind fun _ => (hask _).bind fun _ => ?_
      refine (Prog.uses_ofExcept _).bind fun _ => ?_
      refine (Prog.uses_ofExcept _).bind fun _ => ?_
      exact (hask _).bind fun _ => (hask _).bind fun _ => trivial
  | session token =>
      show Prog.Uses _ (optionalUser sha256Hex _ token)
      unfold optionalUser
      split
      · trivial
      · exact (hask _).bind fun _ => trivial
  | logout token =>
      show Prog.Uses _ (WalletAuth.logout sha256Hex _ token)
      unfold WalletAuth.logout
      split
      · trivial
      · exact (hask _).bind fun _ => trivial

/-- The service after the events. -/
abbrev after (lib : SignatureLib) (sha256Hex : String → String)
    (users : Table String (· = ·)) (wallets : Table WalletRow WalletRow.Clash)
    (es : List ServiceEvent) : Service :=
  Run.run (walletAuth lib sha256Hex).step (opening users wallets) es

/-- Further events go on from where the first left it. -/
theorem after_append (lib : SignatureLib) (sha256Hex : String → String)
    (users : Table String (· = ·)) (wallets : Table WalletRow WalletRow.Clash)
    (es fs : List ServiceEvent) :
    after lib sha256Hex users wallets (es ++ fs)
      = Run.run (walletAuth lib sha256Hex).step
        (after lib sha256Hex users wallets es) fs :=
  Run.run_append ..

/-- Every process that has returned has what its reply stands for. -/
theorem numbered (lib : SignatureLib) (sha256Hex : String → String)
    (users : Table String (· = ·)) (wallets : Table WalletRow WalletRow.Clash)
    (es : List ServiceEvent) :
    System.Numbered (walletAuth lib sha256Hex) (discipline lib sha256Hex)
      Fresh (fun i t r w => ∀ a, r = .ok a → Returned sha256Hex i t a w)
      (after lib sha256Hex users wallets es) := by
  refine System.numbered_run discipline_lawful (fun _ _ _ _ => trivial)
    (fun t i w _ hfresh => gives_code t hfresh) ?_ ?_ ?_ es
  · intro i j q c w hji _ hfresh
    exact Statement.exec_keeps (R := Fresh j) (executed c) hfresh
      fun draw _ => fresh_perform hji draw q hfresh
  · intro e w w' ts hinv hout
    injection hout with hout
    injection hout with hw hts
    subst hw
    obtain ⟨rows⟩ := e
    refine ⟨hinv.keep (hinv.frame hinv.messages (fun _ hr _ => hr) rfl rfl
      (List.subset_append_left ..) (List.subset_append_right ..))
      (.of_eq rfl) fun _ _ _ => Iff.rfl, fun i => ?_, fun i hi => hi⟩
    exact ⟨List.Subset.refl _, List.Subset.refl _,
      List.subset_append_left .., fun _ h _ => h, fun _ h _ => h⟩
  · refine ⟨⟨⟨nofun, nofun, List.nodup_nil, List.nodup_nil, List.nodup_nil,
      nofun, List.Subset.refl _⟩, nofun, ?_, nofun⟩,
      fun i _ => ⟨nofun, nofun⟩, ?_⟩
    · rintro row ⟨g, hg, -⟩
      cases hg
    · intro i t c hi
      cases hi

/-- Who gained something, and for which request. -/
def World.gainers (w : World) : List (ℕ × Request) :=
  w.gained.map fun g => (g.proc, g.request)

/-- A gain is entered with the request that made it. -/
theorem gains_request {draw : Draw} {t : Tables} {q : Call} {g : Gained}
    (hg : g ∈ gains i draw t q) : g.request = q.request := by
  unfold gains at hg
  split at hg
  · dsimp only at hg
    split at hg
    · rw [List.mem_singleton.mp hg]
    · cases hg
  · rw [List.mem_singleton.mp hg]
  · cases hg

/-- A statement adds at most its own request to the gainers. -/
theorem gainers_exec (i : ℕ) (q : Call) (c : Choice) (w : World) :
    ∀ x ∈ ((walletAuth lib sha256Hex).exec i q c w).1.gainers,
      x ∈ w.gainers ∨ x = (i, q.request) := by
  refine Statement.exec_keeps (R := fun w' : World =>
    ∀ x ∈ w'.gainers, x ∈ w.gainers ∨ x = (i, q.request)) (executed c)
    (fun x hx => .inl hx) fun draw _ x hx => ?_
  obtain ⟨g, hg, rfl⟩ := List.mem_map.mp hx
  rcases List.mem_append.mp hg with hg | hg
  · exact .inl (List.mem_map_of_mem hg)
  · exact .inr (Prod.ext (gains_proc hg) (gains_request hg))

/-- Who is in the trace is a process that is there. -/
theorem gainer_run {users : Table String (· = ·)}
    {wallets : Table WalletRow WalletRow.Clash} {es : List ServiceEvent}
    {g : Gained}
    (hg : g ∈ (after lib sha256Hex users wallets es).shared.gained) :
    ∃ code, (after lib sha256Hex users wallets es).procs[g.proc]?
      = some ⟨g.request, code⟩ := by
  have hrecorded : System.Recorded Call.request World.gainers
      (after lib sha256Hex users wallets es) :=
    System.recorded_run Call.request World.gainers
    (uses_code : ∀ t, ((walletAuth lib sha256Hex).code t).Uses _)
    gainers_exec (fun e w w' ts he => by
      injection he with he
      injection he with he
      subst he
      rfl) (by rfl) es
  exact hrecorded.2 (g.proc, g.request) (List.mem_map_of_mem hg)

/-- The run executed the upsert of a wallet, in the name of process
`i`, whatever became of the process afterwards. -/
def Upserted (lib : SignatureLib) (sha256Hex : String → String)
    (users : Table String (· = ·)) (wallets : Table WalletRow WalletRow.Clash)
    (es : List ServiceEvent) (i : ℕ) (userId : String)
    (walletType : WalletType) (address : String) : Prop :=
  ∃ t ∈ Run.accepted (walletAuth lib sha256Hex).step (opening users wallets)
      es,
    ∃ c request chain, t.event = .run i c ∧ c ≠ .fail
      ∧ t.before.next i
        = some ⟨request, .addWallet userId walletType chain address⟩

/-- No statement takes a gain out of the book. -/
theorem gained_exec (i : ℕ) (q : Call) (c : Choice) (w : World) :
    w.gained ⊆ ((walletAuth lib sha256Hex).exec i q c w).1.gained :=
  Statement.exec_keeps (R := fun w' : World => w.gained ⊆ w'.gained)
    (executed c) (List.Subset.refl _)
    fun _ _ => List.subset_append_left ..

/-- What was gained stays in the trace. -/
theorem gained_step {m m' : Service} {e : ServiceEvent}
    (h : (walletAuth lib sha256Hex).step m e = .ok m') :
    m.shared.gained ⊆ m'.shared.gained := by
  cases System.step_cases h with
  | started t => exact List.Subset.refl _
  | ran hi => exact gained_exec ..
  | killed hi => exact List.Subset.refl _
  | @happened e' _ _ he =>
      injection he with he
      injection he with hw hts
      subst hw hts
      exact List.Subset.refl _

/-- An upsert that is executed goes into the trace. -/
theorem gained_upsert {m m' : Service} {c : Choice} {request : Request}
    {userId chain address : String} {walletType : WalletType}
    (h : (walletAuth lib sha256Hex).step m (.run i c) = .ok m')
    (hc : c ≠ .fail)
    (hi : m.next i
      = some ⟨request, .addWallet userId walletType chain address⟩) :
    ⟨i, request, .wallet userId walletType address⟩ ∈ m'.shared.gained := by
  cases System.step_cases h with
  | ran hi' =>
      have hq := (Machine.next_pending hi').symm.trans hi
      injection hq with hq
      subst hq
      cases c with
      | fail => exact absurd rfl hc
      | go draw => exact List.mem_concat_self
      | lose draw => exact List.mem_concat_self

/-- An upsert that was executed has its wallet in the book. -/
theorem gained_of_upserted {users : Table String (· = ·)}
    {wallets : Table WalletRow WalletRow.Clash} {es : List ServiceEvent}
    {userId address : String} {walletType : WalletType}
    (h : Upserted lib sha256Hex users wallets es i userId walletType
      address) :
    ∃ request, ⟨i, request, .wallet userId walletType address⟩
      ∈ (after lib sha256Hex users wallets es).shared.gained := by
  obtain ⟨⟨m, e, m'⟩, ht, c, request, chain, rfl, hc, hnext⟩ := h
  have hkept := Run.after_accepted
    (fun m m' : Service => m.shared.gained ⊆ m'.shared.gained)
    (fun _ => List.Subset.refl _) (fun _ _ _ => List.Subset.trans)
    (fun t ht => gained_step (Run.step_of_mem_accepted ht)) _ ht
  exact ⟨request,
    hkept (gained_upsert (Run.step_of_mem_accepted ht) hc hnext)⟩

/-- What a choice adds to the owners are owners. -/
theorem owners_exec (i : ℕ) (q : Call) (c : Choice) (w : World) :
    ∀ o ∈ ((walletAuth lib sha256Hex).exec i q c w).1.owners,
      o ∈ w.owners ∨ o ∈ ownersOf
        ((walletAuth lib sha256Hex).exec i q c w).1.tables := by
  refine Statement.exec_keeps (R := fun w' : World => ∀ o ∈ w'.owners,
    o ∈ w.owners ∨ o ∈ ownersOf w'.tables) (executed c)
    (fun o ho => .inl ho) fun draw _ o ho => ?_
  exact List.mem_append.mp ho

/-- Who is in the trace was an owner at some time of the run. -/
theorem owners_run {users : Table String (· = ·)}
    {wallets : Table WalletRow WalletRow.Clash} {es : List ServiceEvent}
    {o : Owner}
    (ho : o ∈ (after lib sha256Hex users wallets es).shared.owners) :
    ∃ fs, fs <+: es
      ∧ o ∈ ownersOf (after lib sha256Hex users wallets fs).shared.tables := by
  refine Run.seen_run (fun m : Service => m.shared.owners)
    (fun o m => o ∈ ownersOf m.shared.tables) (fun _ ho => ho)
    (fun m e m' hs o ho => ?_) ho
  cases System.step_cases hs with
  | started t => exact .inl ho
  | ran hi => exact owners_exec _ _ _ _ o ho
  | killed hi => exact .inl ho
  | @happened e' _ _ he =>
      obtain ⟨rows⟩ := e'
      injection he with he
      injection he with hw hts
      subst hw hts
      exact List.mem_append.mp ho

-- ======================================================= what is signed

variable {users : Table String (· = ·)}
  {wallets : Table WalletRow WalletRow.Clash} {es : List ServiceEvent}

/-- The nonce was issued for the wallet, the wallet signed its message,
and it was spent in time. -/
def PaidWith (lib : SignatureLib) (t : Tables) (walletType : WalletType)
    (address nonce signature wallet nonceId : String) : Prop :=
  ∃ r spentAt, r ∈ t.nonces.rows ∧ r.id = nonceId ∧ r.address = wallet
    ∧ SignedFor lib walletType address nonce signature r
    ∧ r.message = authMessage walletType wallet nonce
    ∧ r.consumed_at = some spentAt ∧ spentAt < r.expires_at

/-- Process `i` opened the session for the nonce, and the wallet that
signed belonged to the user at some time of the run. -/
def OpenedBy (lib : SignatureLib) (sha256Hex : String → String)
    (users : Table String (· = ·)) (wallets : Table WalletRow WalletRow.Clash)
    (es : List ServiceEvent) (s : SessionRow) (i : ℕ) (nonceId : String) :
    Prop :=
  ∃ walletType body code wallet,
    (after lib sha256Hex users wallets es).procs[i]?
        = some ⟨.verify walletType body, code⟩
      ∧ PaidWith lib (after lib sha256Hex users wallets es).shared.tables
        walletType body.address body.nonce body.signature wallet nonceId
      ∧ (∃ bytes, s.session_hash = sha256Hex (bytesHex bytes))
      ∧ ∃ fs, fs <+: es ∧ (walletType, wallet, s.user_id)
          ∈ ownersOf (after lib sha256Hex users wallets fs).shared.tables

/-- The rows of the session table after the events. -/
abbrev sessionsAfter (lib : SignatureLib) (sha256Hex : String → String)
    (users : Table String (· = ·)) (wallets : Table WalletRow WalletRow.Clash)
    (es : List ServiceEvent) : List SessionRow :=
  (after lib sha256Hex users wallets es).shared.tables.sessions.rows

/-- A session of the user that the token finds. -/
def SessionRow.Of (sha256Hex : String → String) (userId token : String)
    (s : SessionRow) : Prop :=
  s.user_id = userId ∧ s.session_hash = sha256Hex token

/-- The nonce that the process spent. -/
def World.nonceOf (w : World) (i : ℕ) : String :=
  ((w.spent.find? (·.proc = i)).map (·.row.id)).getD ""

/-- A request spends one nonce, so the nonce of the request that spent
it is that one. -/
theorem Book.nonceOf_proc (h : Book lib sha256Hex w) {p : Spent}
    (hp : p ∈ w.spent) : w.nonceOf p.proc = p.row.id := by
  have hfound : (w.spent.find? (·.proc = p.proc)).isSome = true :=
    List.find?_isSome.mpr ⟨p, hp, decide_eq_true rfl⟩
  obtain ⟨p', hp'⟩ := Option.isSome_iff_exists.mp hfound
  have hproc : p'.proc = p.proc :=
    of_decide_eq_true (List.find?_some hp' :)
  have hsame := List.inj_on_of_nodup_map h.spenders
    (List.mem_of_find?_eq_some hp') hp hproc
  rw [World.nonceOf, hp', hsame]
  rfl

/-- A nonce is spent by one process. -/
theorem Book.nonceOf_inj (h : Book lib sha256Hex w) :
    Set.InjOn w.nonceOf {i | ∃ p ∈ w.spent, p.proc = i} := by
  rintro i ⟨p, hp, rfl⟩ j ⟨p', hp', rfl⟩ heq
  rw [h.nonceOf_proc hp, h.nonceOf_proc hp'] at heq
  rw [List.inj_on_of_nodup_map h.once hp hp' heq]

/-- A spent nonce and a signature of its message are a payment. -/
theorem Book.paidWith (h : Book lib sha256Hex w) {p : Spent}
    (hp : p ∈ w.spent)
    (hsigned : SignedFor lib walletType address nonce signature p.row) :
    PaidWith lib w.tables walletType address nonce signature p.row.address
      (w.nonceOf p.proc) := by
  obtain ⟨-, hlt, hmem⟩ := h.consumed p hp
  have hmessage := h.messages _ hmem
  rw [hsigned.type, hsigned.nonce] at hmessage
  exact ⟨_, p.spentAt, hmem, (h.nonceOf_proc hp).symm, rfl,
    ⟨hsigned.type, hsigned.address, hsigned.nonce, hsigned.signature⟩,
    hmessage, rfl, hlt⟩

/-- What a gained session was paid with, in the terms of the run. -/
theorem openedBy_of_gained
    (hbook : Book lib sha256Hex (after lib sha256Hex users wallets es).shared)
    {g : Gained} {row s : SessionRow}
    (hg : g ∈ (after lib sha256Hex users wallets es).shared.gained)
    (hgain : g.gain = .session row) (has : row.OpenedAs s) :
    OpenedBy lib sha256Hex users wallets es s g.proc
      ((after lib sha256Hex users wallets es).shared.nonceOf g.proc) := by
  obtain ⟨p, hp, hproc, -, hearned⟩ := hbook.bought g hg
  rw [hgain] at hearned
  obtain ⟨walletType, body, hrequest, hsigned, howner, bytes, hbytes⟩ :=
    hearned
  obtain ⟨code, hcode⟩ := gainer_run hg
  obtain ⟨fs, hfs, hfrom⟩ := owners_run howner
  have huser : s.user_id = row.user_id := by rw [has]
  have hhash : s.session_hash = row.session_hash := by rw [has]
  exact ⟨walletType, body, code, p.row.address, hrequest ▸ hcode,
    hproc ▸ hbook.paidWith hp hsigned, ⟨bytes, hhash.trans hbytes⟩, fs, hfs,
    huser ▸ hfrom⟩

/-- A gain is of one session. -/
theorem Inv.session_inj (h : Inv lib sha256Hex w) {g g' : Gained}
    (hg : g ∈ w.gained) (hg' : g' ∈ w.gained) (hproc : g.proc = g'.proc)
    {row row' s s' : SessionRow} (hrow : g.gain = .session row)
    (hrow' : g'.gain = .session row') (has : row.OpenedAs s)
    (has' : row'.OpenedAs s') (hs : s ∈ w.tables.sessions.rows)
    (hs' : s' ∈ w.tables.sessions.rows) : s = s' := by
  have hsame := List.inj_on_of_nodup_map h.gainers hg hg' hproc
  rw [hsame, hrow'] at hrow
  injection hrow with hrow
  refine w.tables.sessions.eq_of_clash hs hs' (.inl ?_)
  rw [has, has', hrow]

/-- A gained wallet was paid with a nonce that it had signed. -/
theorem wallet_of_gained
    (hbook : Book lib sha256Hex (after lib sha256Hex users wallets es).shared)
    {request : Request} {userId : String}
    (hg : ⟨i, request, .wallet userId walletType address⟩
      ∈ (after lib sha256Hex users wallets es).shared.gained) :
    ∃ auth body code,
      (after lib sha256Hex users wallets es).procs[i]?
          = some ⟨.addWallet auth body, code⟩
        ∧ authedUser auth = .ok userId ∧ walletType = body.wallet_type
        ∧ PaidWith lib (after lib sha256Hex users wallets es).shared.tables
          body.wallet_type body.address body.nonce body.signature address
          ((after lib sha256Hex users wallets es).shared.nonceOf i) := by
  obtain ⟨code, hcode⟩ := gainer_run hg
  obtain ⟨p, hp, hproc, -, hearned⟩ := hbook.bought _ hg
  obtain ⟨auth, body, hrequest, huser, htype, haddress, hsigned⟩ := hearned
  have hrequest : request = .addWallet auth body := hrequest
  subst hrequest htype haddress
  have hproc : p.proc = i := hproc
  subst hproc
  exact ⟨auth, body, code, hcode, huser, rfl, hbook.paidWith hp hsigned⟩

/-- A gain was bought with a nonce. -/
theorem Book.spent_of_gained (h : Book lib sha256Hex w) {g : Gained}
    (hg : g ∈ w.gained) : ∃ p ∈ w.spent, p.proc = g.proc := by
  obtain ⟨p, hp, hproc, -⟩ := h.bought g hg
  exact ⟨p, hp, hproc⟩

/-- Whoever was told of a wallet is signed in, and paid with a nonce. -/
theorem Book.wallet_of_returned (h : Book lib sha256Hex w)
    {auth : Option Auth} {body : AddWalletBody} {walletId : String}
    (hi : Returned sha256Hex i (.addWallet auth body) (.wallet walletId) w) :
    ∃ userId wallet, authedUser auth = .ok userId
      ∧ PaidWith lib w.tables body.wallet_type body.address body.nonce
        body.signature wallet (w.nonceOf i) := by
  obtain ⟨g, hg, hproc, hrequest⟩ := hi
  obtain ⟨p, hp, hpaid, -, hearned⟩ := h.bought g hg
  rw [hrequest] at hearned
  cases hkind : g.gain with
  | session row =>
      rw [hkind] at hearned
      obtain ⟨walletType, body', hverify, -⟩ := hearned
      cases hverify
  | wallet userId walletType address =>
      rw [hkind] at hearned
      obtain ⟨auth', body', hadd, huser, htype, -, hsigned⟩ := hearned
      injection hadd with hauth hbody
      subst hauth hbody htype
      exact ⟨userId, p.row.address, huser,
        hproc ▸ hpaid ▸ h.paidWith hp hsigned⟩

/-- Every session of the table has the gain that opened it. -/
theorem Inv.gainOf (h : Inv lib sha256Hex w) :
    ∃ gainOf : SessionRow → Gained, ∀ s ∈ w.tables.sessions.rows,
      gainOf s ∈ w.gained
        ∧ ∃ row, (gainOf s).gain = .session row ∧ row.OpenedAs s := by
  have hgain : ∀ s, ∃ g : Gained, s ∈ w.tables.sessions.rows →
      g ∈ w.gained ∧ ∃ row, g.gain = .session row ∧ row.OpenedAs s := by
    intro s
    by_cases hs : s ∈ w.tables.sessions.rows
    · obtain ⟨row, ⟨g, hg, hrow⟩, has⟩ := h.opened s hs
      exact ⟨g, fun _ => ⟨hg, row, hrow, has⟩⟩
    · exact ⟨⟨0, .session none, .session s⟩, fun hs' => absurd hs' hs⟩
  choose gainOf hof using hgain
  exact ⟨gainOf, hof⟩

/-- A gained session is in the table, and its token finds it. -/
theorem Inv.session_of_gained (h : Inv lib sha256Hex w) {g : Gained}
    {row : SessionRow} {userId token : String} (hg : g ∈ w.gained)
    (hrow : g.gain = .session row) (huser : row.user_id = userId)
    (hhash : row.session_hash = sha256Hex token) :
    ∃ s ∈ w.tables.sessions.rows,
      row.OpenedAs s ∧ s.Of sha256Hex userId token := by
  obtain ⟨s, hs, has⟩ := h.stored row ⟨g, hg, hrow⟩
  refine ⟨s, hs, has, ?_, ?_⟩
  · rw [has]
    exact huser
  · rw [has]
    exact hhash

/-- A session has one gain. -/
theorem Inv.gain_inj (h : Inv lib sha256Hex w) {g g' : Gained}
    (hg : g ∈ w.gained) (hg' : g' ∈ w.gained) {row row' s : SessionRow}
    (hrow : g.gain = .session row) (hrow' : g'.gain = .session row')
    (has : row.OpenedAs s) (has' : row'.OpenedAs s) : g = g' := by
  have hid : row.id = row'.id := by
    have hid' : s.id = row'.id := by rw [has']
    rw [← hid', has]
  exact h.apart _ hg _ hg' row row' hrow hrow' hid

/-- In every run each session was opened by a request of its own, and
each request that opened a session, or whose upsert of a wallet was
executed, spent a nonce of its own that its wallet had signed. Who signed
in has the session of the token, and a token authenticates as the user of
its session. -/
theorem sessions_signed (lib : SignatureLib) (sha256Hex : String → String)
    (users : Table String (· = ·)) (wallets : Table WalletRow WalletRow.Clash)
    (es : List ServiceEvent) :
    ∃ (opener : SessionRow → ℕ) (nonceOf : ℕ → String),
      Set.InjOn opener
        {s | s ∈ sessionsAfter lib sha256Hex users wallets es}
      ∧ Set.InjOn nonceOf
        {i | (∃ s ∈ sessionsAfter lib sha256Hex users wallets es,
            opener s = i)
          ∨ (∃ auth body walletId,
            (after lib sha256Hex users wallets es).procs[i]?
              = some ⟨.addWallet auth body, some (.pure (.wallet walletId))⟩)
          ∨ ∃ userId walletType address,
            Upserted lib sha256Hex users wallets es i userId walletType
              address}
      ∧ (∀ s ∈ sessionsAfter lib sha256Hex users wallets es,
        OpenedBy lib sha256Hex users wallets es s (opener s)
          (nonceOf (opener s)))
      ∧ (∀ (i : ℕ) auth body walletId,
        (after lib sha256Hex users wallets es).procs[i]?
          = some ⟨.addWallet auth body, some (.pure (.wallet walletId))⟩ →
        ∃ userId wallet, authedUser auth = .ok userId
          ∧ PaidWith lib (after lib sha256Hex users wallets es).shared.tables
            body.wallet_type body.address body.nonce body.signature wallet
            (nonceOf i))
      ∧ (∀ (i : ℕ) userId walletType address,
        Upserted lib sha256Hex users wallets es i userId walletType address →
        ∃ auth body code,
          (after lib sha256Hex users wallets es).procs[i]?
              = some ⟨.addWallet auth body, code⟩
            ∧ authedUser auth = .ok userId ∧ walletType = body.wallet_type
            ∧ PaidWith lib
              (after lib sha256Hex users wallets es).shared.tables
              body.wallet_type body.address body.nonce body.signature address
              (nonceOf i))
      ∧ (∀ (i : ℕ) walletType body userId token walletType' address,
        (after lib sha256Hex users wallets es).procs[i]?
          = some ⟨.verify walletType body,
            some (.pure (.session userId token walletType' address))⟩ →
        ∃ s ∈ sessionsAfter lib sha256Hex users wallets es,
          opener s = i ∧ s.Of sha256Hex userId token)
      ∧ ∀ (i : ℕ) token userId,
        (after lib sha256Hex users wallets es).procs[i]?
          = some ⟨.session (some token),
            some (.pure (.authenticated (some userId)))⟩ →
        ∃ s ∈ sessionsAfter lib sha256Hex users wallets es,
          s.Of sha256Hex userId token := by
  have hnum := numbered lib sha256Hex users wallets es
  have hinv : Inv lib sha256Hex (after lib sha256Hex users wallets es).shared
    := hnum.inv
  obtain ⟨gainOf, hof⟩ := hinv.gainOf
  refine ⟨fun s => (gainOf s).proc,
    (after lib sha256Hex users wallets es).shared.nonceOf, ?_, ?_, ?_, ?_, ?_,
    ?_, ?_⟩
  · intro s hs s' hs' hproc
    obtain ⟨hg, row, hrow, has⟩ := hof s hs
    obtain ⟨hg', row', hrow', has'⟩ := hof s' hs'
    exact hinv.session_inj hg hg' hproc hrow hrow' has has' hs hs'
  · -- who gained something had bought it
    refine hinv.nonceOf_inj.mono ?_
    rintro i (⟨s, hs, rfl⟩ | ⟨auth, body, walletId, hi⟩
      | ⟨userId, walletType, address, hi⟩)
    · exact hinv.spent_of_gained (hof s hs).1
    · have hreturned := hnum.finished discipline_lawful hi _ rfl
      obtain ⟨g, hg, rfl, -⟩ := hreturned
      exact hinv.spent_of_gained hg
    · obtain ⟨request, hg⟩ := gained_of_upserted hi
      exact hinv.spent_of_gained hg
  · intro s hs
    obtain ⟨hg, row, hrow, has⟩ := hof s hs
    exact openedBy_of_gained hinv.toBook hg hrow has
  · intro i auth body walletId hi
    exact hinv.wallet_of_returned (hnum.finished discipline_lawful hi _ rfl)
  · intro i userId walletType address hi
    obtain ⟨request, hg⟩ := gained_of_upserted hi
    exact wallet_of_gained hinv.toBook hg
  · intro i walletType body userId token walletType' address hi
    have hreturned := hnum.finished discipline_lawful hi _ rfl
    obtain ⟨g, hg, hproc, -, row, hrow, huser, hhash⟩ := hreturned
    obtain ⟨s, hs, has, htoken⟩ := hinv.session_of_gained hg hrow huser hhash
    obtain ⟨hg', row', hrow', has'⟩ := hof s hs
    have hsame : gainOf s = g := hinv.gain_inj hg' hg hrow' hrow has' has
    exact ⟨s, hs, (congrArg Gained.proc hsame).trans hproc, htoken⟩
  · intro i token userId hi
    have hreturned := hnum.finished discipline_lawful hi _ rfl
    obtain ⟨token', htoken, g, hg, row, hrow, huser, hhash⟩ := hreturned
    injection htoken with htoken
    injection htoken with htoken
    obtain ⟨s, hs, -, hof'⟩ := hinv.session_of_gained hg hrow huser hhash
    exact ⟨s, hs, htoken ▸ hof'⟩

end Lumix.Services.WalletAuth
