/-
Nonces, spent once each.

The state keeps a trace of who spent which nonce and of what was had for
it. `Book` says that no nonce is spent twice and that whatever was had,
a session or a wallet, was paid with a nonce the server had issued for
the wallet and the wallet had signed; `Inv` adds that the sessions there
are the ones that were had. Every statement keeps both (`inv_perform`),
made by a process that knows what it has to (`Pre`).
-/
import Mathlib.Data.List.Nodup
import Lumix.Lib.Numbered
import Lumix.Services.WalletAuth

namespace Lumix.Services.WalletAuth

open Text Vaults

-- ======================================================= what was paid

variable (lib : SignatureLib) (sha256Hex : String → String)

/-- The nonce is for the wallet, and the signature is of its message. -/
structure SignedFor (walletType : WalletType) (address nonce signature : String)
    (r : NonceRow) : Prop where
  type : r.wallet_type = walletType
  address : normalizeAddress lib.walletLib walletType address
    = .ok r.address
  nonce : r.nonce = nonce
  signature : verifyWalletSignature lib walletType r.address r.message
    signature = true

/-- What the request had to show for what it had. -/
def Gain.Earned (request : Request) (r : NonceRow) (owners : List Owner) :
    Gain → Prop
  | .session row => ∃ walletType body,
      request = .verify walletType body
        ∧ SignedFor lib walletType body.address body.nonce body.signature r
        ∧ (walletType, r.address, row.user_id) ∈ owners
        ∧ ∃ bytes, row.session_hash = sha256Hex (bytesHex bytes)
  | .wallet userId walletType address => ∃ auth body,
      request = .addWallet auth body ∧ authedUser auth = .ok userId
        ∧ walletType = body.wallet_type ∧ address = r.address
        ∧ SignedFor lib walletType body.address body.nonce body.signature r

/-- The process spent a nonce that the gain is worth. -/
def Bought (w : World) (i : ℕ) (request : Request) (gain : Gain) : Prop :=
  ∃ p ∈ w.spent, p.proc = i ∧ p.request = request
    ∧ gain.Earned lib sha256Hex request p.row w.owners

/-- The row as it was opened, revoked or not. -/
def SessionRow.OpenedAs (row s : SessionRow) : Prop :=
  s = { row with revoked_at := s.revoked_at }

/-- The nonce as it was found, and spent in time. -/
def Spent.Consumed (p : Spent) (t : Tables) : Prop :=
  p.row.consumed_at = none ∧ p.spentAt < p.row.expires_at
    ∧ { p.row with consumed_at := some p.spentAt } ∈ t.nonces.rows

/-- The nonces are spent once each, and what was had for them was
paid. -/
structure Book (w : World) : Prop where
  messages : ∀ r ∈ w.tables.nonces.rows,
    r.message = authMessage r.wallet_type r.address r.nonce
  consumed : ∀ p ∈ w.spent, p.Consumed w.tables
  once : (w.spent.map (·.row.id)).Nodup
  spenders : (w.spent.map (·.proc)).Nodup
  gainers : (w.gained.map (·.proc)).Nodup
  bought : ∀ g ∈ w.gained,
    Bought lib sha256Hex w g.proc g.request g.gain
  owners : ownersOf w.tables ⊆ w.owners

/-- The session was had for a nonce. -/
def World.Opened (w : World) (row : SessionRow) : Prop :=
  ∃ g ∈ w.gained, g.gain = .session row

/-- The book is kept, and the sessions in the table are those the
gains opened: each one by one, none of them twice, and none of the
rows lost. -/
structure Inv (w : World) : Prop extends Book lib sha256Hex w where
  opened : ∀ s ∈ w.tables.sessions.rows, ∃ row, w.Opened row
    ∧ row.OpenedAs s
  stored : ∀ row, w.Opened row → ∃ s ∈ w.tables.sessions.rows,
    row.OpenedAs s
  apart : ∀ g ∈ w.gained, ∀ g' ∈ w.gained, ∀ row row',
    g.gain = .session row → g'.gain = .session row' → row.id = row'.id →
      g = g'

-- ============================================================ discipline

/-- Request `i` has spent no nonce yet and gained nothing. -/
def Fresh (i : ℕ) (w : World) : Prop :=
  (∀ p ∈ w.spent, p.proc ≠ i) ∧ ∀ g ∈ w.gained, g.proc ≠ i

/-- The traces grow, and not in the name of `i`. -/
structure Rely (i : ℕ) (w w' : World) : Prop where
  spent : w.spent ⊆ w'.spent
  gained : w.gained ⊆ w'.gained
  owners : w.owners ⊆ w'.owners
  spentBy : ∀ p ∈ w'.spent, p.proc = i → p ∈ w.spent
  gainedBy : ∀ g ∈ w'.gained, g.proc = i → g ∈ w.gained

/-- What a process knows before a statement. -/
def Pre (i : ℕ) (q : Call) (w : World) : Prop :=
  match q.query with
  | .createNonce walletType address nonce message _ =>
      message = authMessage walletType address nonce
  | .consumeNonce _ _ _ => ∀ p ∈ w.spent, p.proc ≠ i
  | .createSession userId sessionHash expiresAt =>
      (∀ g ∈ w.gained, g.proc ≠ i)
        ∧ ∀ draw, Bought lib sha256Hex w i q.request
          (.session (newSession userId sessionHash expiresAt draw))
  | .addWallet userId walletType _ address =>
      (∀ g ∈ w.gained, g.proc ≠ i)
        ∧ Bought lib sha256Hex w i q.request
          (.wallet userId walletType address)
  | _ => True

/-- What the requests promise each other: each keeps `Inv`, only adds to
the book, and adds under its own number. -/
def discipline : Discipline Call World Choice where
  Inv := Inv lib sha256Hex
  Rely := Rely
  Pre := Pre lib sha256Hex
  Allow _ _ _ _ := True

variable {lib sha256Hex} {w w' : World} {i : ℕ}

/-- A world in which nothing happened. -/
theorem Rely.refl (i : ℕ) (w : World) : Rely i w w :=
  ⟨List.Subset.refl _, List.Subset.refl _, List.Subset.refl _,
    fun _ h _ => h, fun _ h _ => h⟩

/-- What two stretches add, they add one after the other. -/
theorem Rely.trans {w₁ w₂ w₃ : World} (h : Rely i w₁ w₂)
    (h' : Rely i w₂ w₃) : Rely i w₁ w₃ where
  spent _ hp := h'.spent (h.spent hp)
  gained _ hg := h'.gained (h.gained hg)
  owners _ ho := h'.owners (h.owners ho)
  spentBy p hp hi := h.spentBy p (h'.spentBy p hp hi) hi
  gainedBy g hg hi := h.gainedBy g (h'.gainedBy g hg hi) hi

/-- What was earned stays earned when more owners are known. -/
theorem Gain.Earned.mono {request : Request} {r : NonceRow}
    {owners owners' : List Owner} {gain : Gain}
    (h : gain.Earned lib sha256Hex request r owners)
    (ho : owners ⊆ owners') :
    gain.Earned lib sha256Hex request r owners' := by
  cases gain with
  | session row =>
      obtain ⟨walletType, body, hrequest, hsigned, howner, hhash⟩ := h
      exact ⟨walletType, body, hrequest, hsigned, ho howner, hhash⟩
  | wallet userId walletType address => exact h

/-- What was paid for stays paid for in a longer book. -/
theorem Bought.mono {request : Request} {gain : Gain}
    (h : Bought lib sha256Hex w i request gain)
    (hspent : w.spent ⊆ w'.spent) (howners : w.owners ⊆ w'.owners) :
    Bought lib sha256Hex w' i request gain := by
  obtain ⟨p, hp, hproc, hrequest, hearned⟩ := h
  exact ⟨p, hspent hp, hproc, hrequest, hearned.mono howners⟩

-- ========================================================= one statement

/-- What is kept where the traces stay as they were. -/
theorem Book.frame (h : Book lib sha256Hex w)
    (hmessages : ∀ r ∈ w'.tables.nonces.rows,
      r.message = authMessage r.wallet_type r.address r.nonce)
    (hkept : ∀ r ∈ w.tables.nonces.rows, r.consumed_at ≠ none →
      r ∈ w'.tables.nonces.rows)
    (hspent : w'.spent = w.spent) (hgained : w'.gained = w.gained)
    (hmore : w.owners ⊆ w'.owners)
    (howners : ownersOf w'.tables ⊆ w'.owners) :
    Book lib sha256Hex w' where
  messages := hmessages
  consumed := by
    rw [hspent]
    intro p hp
    obtain ⟨hfound, hlt, hmem⟩ := h.consumed p hp
    exact ⟨hfound, hlt, hkept _ hmem nofun⟩
  once := by rw [hspent]; exact h.once
  spenders := by rw [hspent]; exact h.spenders
  gainers := by rw [hgained]; exact h.gainers
  bought := by
    rw [hgained]
    intro g hg
    exact (h.bought g hg).mono (by rw [hspent]; exact List.Subset.refl _)
      hmore
  owners := howners

/-- No key comes twice. -/
theorem nodup_concat {α β : Type} {f : α → β} {xs : List α} {x : α}
    (h : (xs.map f).Nodup) (hx : ∀ y ∈ xs, f y ≠ f x) :
    ((xs ++ [x]).map f).Nodup := by
  rw [List.map_append]
  refine List.Nodup.append h (List.nodup_singleton _)
    (List.disjoint_singleton.mpr fun hmem => ?_)
  obtain ⟨y, hy, hyx⟩ := List.mem_map.mp hmem
  exact hx y hy hyx

/-- A nonce is entered as spent when it was consumed in the table, for
the first time, by a request that spent none before. -/
theorem Book.spend (h : Book lib sha256Hex w) {p : Spent}
    (hp : p.Consumed w.tables) (hnew : ∀ p' ∈ w.spent, p'.row.id ≠ p.row.id)
    (hproc : ∀ p' ∈ w.spent, p'.proc ≠ p.proc) :
    Book lib sha256Hex { w with spent := w.spent ++ [p] } where
  messages := h.messages
  consumed :=
    List.forall_mem_append.mpr ⟨h.consumed, List.forall_mem_singleton.mpr hp⟩
  once := nodup_concat h.once hnew
  spenders := nodup_concat h.spenders hproc
  gainers := h.gainers
  bought g hg := (h.bought g hg).mono (List.subset_append_left ..)
    (List.Subset.refl _)
  owners := h.owners

/-- A gain is entered when it was paid for, by a request that gained
nothing before. -/
theorem Book.gain (h : Book lib sha256Hex w) {g : Gained}
    (hg : Bought lib sha256Hex w g.proc g.request g.gain)
    (hproc : ∀ g' ∈ w.gained, g'.proc ≠ g.proc) :
    Book lib sha256Hex { w with gained := w.gained ++ [g] } where
  messages := h.messages
  consumed := h.consumed
  once := h.once
  spenders := h.spenders
  gainers := nodup_concat h.gainers hproc
  bought :=
    List.forall_mem_append.mpr ⟨h.bought, List.forall_mem_singleton.mpr hg⟩
  owners := h.owners

/-- Each session is one that was there, and none is lost. -/
structure Kept (t t' : Tables) : Prop where
  old : ∀ s ∈ t'.sessions.rows, ∃ s₀ ∈ t.sessions.rows, s₀.OpenedAs s
  remain : ∀ s₀ ∈ t.sessions.rows, ∃ s ∈ t'.sessions.rows, s₀.OpenedAs s

/-- Sessions nobody touched are kept. -/
theorem Kept.of_eq {t t' : Tables} (h : t'.sessions = t.sessions) :
    Kept t t' :=
  ⟨fun s hs => ⟨s, h ▸ hs, rfl⟩, fun s hs => ⟨s, h ▸ hs, rfl⟩⟩

/-- Opened as a row that was opened as another, opened as that. -/
theorem SessionRow.OpenedAs.trans {a b c : SessionRow} (h : a.OpenedAs b)
    (h' : b.OpenedAs c) : a.OpenedAs c := by
  unfold SessionRow.OpenedAs at h h' ⊢
  rw [h', h]

/-- A step that keeps the session rows and enters no session keeps the
invariant. -/
theorem Inv.keep (h : Inv lib sha256Hex w) (hbook : Book lib sha256Hex w')
    (hkept : Kept w.tables w'.tables)
    (hsessions : ∀ g row, g.gain = .session row →
      (g ∈ w'.gained ↔ g ∈ w.gained)) :
    Inv lib sha256Hex w' where
  __ := hbook
  opened s hs := by
    obtain ⟨s₀, hs₀, hsame⟩ := hkept.old s hs
    obtain ⟨row, ⟨g, hg, hrow⟩, has⟩ := h.opened s₀ hs₀
    exact ⟨row, ⟨g, (hsessions g row hrow).mpr hg, hrow⟩, has.trans hsame⟩
  stored row hrow := by
    obtain ⟨g, hg, hrow⟩ := hrow
    obtain ⟨s₀, hs₀, has⟩ :=
      h.stored row ⟨g, (hsessions g row hrow).mp hg, hrow⟩
    obtain ⟨s, hs, hsame⟩ := hkept.remain s₀ hs₀
    exact ⟨s, hs, has.trans hsame⟩
  apart g hg g' hg' row row' hrow hrow' hid :=
    h.apart g ((hsessions g row hrow).mp hg) g'
      ((hsessions g' row' hrow').mp hg') row row' hrow hrow' hid

/-- A nonce is spent under the number of the request. -/
theorem spends_proc {draw : Draw} {t : Tables} {q : Call} {p : Spent}
    (hp : p ∈ spends i draw t q) : p.proc = i := by
  unfold spends at hp
  split at hp
  · obtain ⟨r, -, rfl⟩ := List.mem_map.mp hp
    rfl
  · cases hp

/-- A gain is entered under the number of the request. -/
theorem gains_proc {draw : Draw} {t : Tables} {q : Call} {g : Gained}
    (hg : g ∈ gains i draw t q) : g.proc = i := by
  unfold gains at hg
  split at hg
  · dsimp only at hg
    split at hg
    · rw [List.mem_singleton.mp hg]
    · cases hg
  · rw [List.mem_singleton.mp hg]
  · cases hg

/-- A statement of another process. -/
theorem rely_perform {j : ℕ} (hij : i ≠ j) (draw : Draw) (w : World)
    (q : Call) : Rely i w (perform j draw w q).1 where
  spent := List.subset_append_left ..
  gained := List.subset_append_left ..
  owners := List.subset_append_left ..
  spentBy p hp hproc := by
    rcases List.mem_append.mp hp with hp | hp
    · exact hp
    · exact absurd (hproc.symm.trans (spends_proc hp)) hij
  gainedBy g hg hproc := by
    rcases List.mem_append.mp hg with hg | hg
    · exact hg
    · exact absurd (hproc.symm.trans (gains_proc hg)) hij

/-- Another request's statement leaves a fresh request fresh. -/
theorem fresh_perform {j : ℕ} (hij : i ≠ j) (draw : Draw) (q : Call)
    (h : Fresh i w) : Fresh i (perform j draw w q).1 := by
  constructor
  · refine List.forall_mem_append.mpr ⟨h.1, fun p hp => ?_⟩
    rw [spends_proc hp]
    exact hij.symm
  · refine List.forall_mem_append.mpr ⟨h.2, fun g hg => ?_⟩
    rw [gains_proc hg]
    exact hij.symm

/-- A statement that spends and gains nothing. -/
theorem Inv.idle (h : Inv lib sha256Hex w) {draw : Draw} {q : Call}
    (hspends : spends i draw w.tables q = [])
    (hgains : gains i draw w.tables q = [])
    (hnonces : (performTables draw w.tables q.query).1.nonces
      = w.tables.nonces)
    (hkept : Kept w.tables (performTables draw w.tables q.query).1) :
    Inv lib sha256Hex (perform i draw w q).1 := by
  have hspent : (perform i draw w q).1.spent = w.spent := by
    show w.spent ++ spends i draw w.tables q = _
    rw [hspends, List.append_nil]
  have hgained : (perform i draw w q).1.gained = w.gained := by
    show w.gained ++ gains i draw w.tables q = _
    rw [hgains, List.append_nil]
  have htables : (perform i draw w q).1.tables.nonces = w.tables.nonces :=
    hnonces
  refine h.keep (h.frame ?_ ?_ hspent hgained (List.subset_append_left ..)
    (List.subset_append_right ..)) hkept fun g row _ => ?_
  · rw [htables]
    exact h.messages
  · rw [htables]
    exact fun _ hr _ => hr
  · rw [hgained]

/-- A nonce is created with the message that its wallet signs. -/
theorem inv_createNonce (h : Inv lib sha256Hex w) {draw : Draw}
    {request : Request} {walletType : WalletType}
    {address nonce message : String} {expiresAt : ℕ}
    (hmessage : message = authMessage walletType address nonce) :
    Inv lib sha256Hex (perform i draw w ⟨request,
      .createNonce walletType address nonce message expiresAt⟩).1 := by
  cases hinsert : w.tables.nonces.insert
      (newNonce walletType address nonce message expiresAt draw) with
  | none =>
      refine h.idle rfl rfl ?_ (.of_eq ?_)
      · simp only [performTables, inserted, hinsert]
      · simp only [performTables, inserted, hinsert]
  | some rows =>
      obtain ⟨-, hrows⟩ := Table.insert_eq_some hinsert
      have htables : (perform i draw w ⟨request, .createNonce walletType
          address nonce message expiresAt⟩).1.tables
          = { w.tables with nonces := rows } := by
        simp only [perform, performTables, inserted, hinsert]
      have hgained : (perform i draw w ⟨request, .createNonce walletType
          address nonce message expiresAt⟩).1.gained = w.gained :=
        List.append_nil _
      refine h.keep (h.frame ?_ ?_ (List.append_nil _) hgained
        (List.subset_append_left ..) (List.subset_append_right ..))
        (.of_eq (by rw [htables])) fun g row _ => ?_
      · rw [htables]
        show ∀ r ∈ rows.rows, _
        rw [hrows]
        exact List.forall_mem_append.mpr
          ⟨h.messages, List.forall_mem_singleton.mpr hmessage⟩
      · rw [htables]
        intro r hr _
        show r ∈ rows.rows
        rw [hrows]
        exact List.mem_append_left _ hr
      · rw [hgained]

/-- The row that is found can be used. -/
theorem usableNonce_some {t : Tables} {draw : Draw}
    {walletType : WalletType} {address nonce : String} {r : NonceRow}
    (h : usableNonce t draw walletType address nonce = some r) :
    r ∈ t.nonces.rows
      ∧ NonceRow.Usable walletType address nonce draw.now r := by
  have hmem := List.mem_of_mem_filter (List.mem_of_getElem? h)
  obtain ⟨hr, husable⟩ := List.mem_filter.mp hmem
  exact ⟨hr, of_decide_eq_true husable⟩

/-- Consuming a nonce enters it as spent: it was not consumed before,
and the request has spent none. -/
theorem inv_consumeNonce (h : Inv lib sha256Hex w) {draw : Draw}
    {request : Request} {walletType : WalletType} {address nonce : String}
    (hpre : ∀ p ∈ w.spent, p.proc ≠ i) :
    Inv lib sha256Hex (perform i draw w ⟨request,
      .consumeNonce walletType address nonce⟩).1 := by
  cases hfound : usableNonce w.tables draw walletType address nonce with
  | none =>
      refine h.idle ?_ rfl ?_ (.of_eq ?_)
      · simp only [spends, hfound, Option.toList_none, List.map_nil]
      · simp only [performTables, hfound]
      · simp only [performTables, hfound]
  | some r =>
      obtain ⟨hr, -, -, -, hfree, hlt⟩ := usableNonce_some hfound
      -- first the row is marked, then the trace is written
      have hmarked : Book lib sha256Hex { w with
          tables := w.tables.consumeNonce r.id draw.now
          owners := w.owners
            ++ ownersOf (w.tables.consumeNonce r.id draw.now) } := by
        refine h.frame ?_ ?_ rfl rfl (List.subset_append_left ..)
          (List.subset_append_right ..)
        · intro r' hr'
          obtain ⟨r₀, hr₀, rfl⟩ := List.mem_map.mp hr'
          unfold NonceRow.consume
          split <;> exact h.messages r₀ hr₀
        · intro r' hr' hused
          refine List.mem_map.mpr ⟨r', hr', if_neg fun hid => ?_⟩
          have heq := w.tables.nonces.eq_of_clash hr' hr hid
          exact hused (heq ▸ hfree)
      have hconsumed : (⟨i, request, r, draw.now⟩ : Spent).Consumed
          (w.tables.consumeNonce r.id draw.now) :=
        ⟨hfree, hlt, List.mem_map.mpr ⟨r, hr, if_pos rfl⟩⟩
      have hspent := hmarked.spend hconsumed (fun p hp hid => ?_) hpre
      · have hinv := h.keep hspent (.of_eq rfl) fun _ _ _ => Iff.rfl
        simpa only [perform, performTables, spends, gains, hfound,
          Option.toList_some, List.map_cons, List.map_nil,
          List.append_nil] using hinv
      · obtain ⟨-, -, hmem⟩ := h.consumed p hp
        have heq := w.tables.nonces.eq_of_clash hmem hr hid
        rw [← heq] at hfree
        cases hfree

/-- A session is created by a request that paid for it. -/
theorem inv_createSession (h : Inv lib sha256Hex w) {draw : Draw}
    {request : Request} {userId sessionHash : String} {expiresAt : ℕ}
    (hpre : Pre lib sha256Hex i
      ⟨request, .createSession userId sessionHash expiresAt⟩ w) :
    Inv lib sha256Hex (perform i draw w ⟨request,
      .createSession userId sessionHash expiresAt⟩).1 := by
  obtain ⟨hproc, hbought⟩ := hpre
  cases hinsert : w.tables.sessions.insert
      (newSession userId sessionHash expiresAt draw) with
  | none =>
      refine h.idle rfl ?_ ?_ (.of_eq ?_)
      · simp only [gains, hinsert]
        rfl
      · simp only [performTables, inserted, hinsert]
      · simp only [performTables, inserted, hinsert]
  | some rows =>
      obtain ⟨hnew, hrows⟩ := Table.insert_eq_some hinsert
      let row := newSession userId sessionHash expiresAt draw
      have hother : ∀ row', w.Opened row' → row'.id ≠ row.id := by
        intro row' hrow' hid
        obtain ⟨s, hs, has⟩ := h.stored row' hrow'
        exact hnew s hs (.inl (by rw [has]; exact hid))
      have hgain := h.gain (g := ⟨i, request, .session row⟩) (hbought draw)
        hproc
      have hopened : ∀ row', (∃ g ∈ w.gained ++ [⟨i, request, .session row⟩],
          g.gain = .session row') ↔ w.Opened row' ∨ row' = row := by
        intro row'
        simp [World.Opened, or_and_right, exists_or, eq_comm]
      have hinv : Inv lib sha256Hex { w with
          tables := { w.tables with sessions := rows }
          gained := w.gained ++ [⟨i, request, .session row⟩]
          owners := w.owners
            ++ ownersOf { w.tables with sessions := rows } } := by
        refine ⟨hgain.frame h.messages (fun _ hr _ => hr) rfl rfl
          (List.subset_append_left ..) (List.subset_append_right ..),
          ?_, fun row' hrow' => ?_, fun g hg g' hg' r r' hr hr' hid => ?_⟩
        · show ∀ s ∈ rows.rows, ∃ row', (∃ g ∈ _, _) ∧ _
          rw [hrows]
          refine List.forall_mem_append.mpr
            ⟨fun s hs => ?_, List.forall_mem_singleton.mpr ?_⟩
          · obtain ⟨row', hrow', has⟩ := h.opened s hs
            exact ⟨row', (hopened row').mpr (.inl hrow'), has⟩
          · exact ⟨row, (hopened row).mpr (.inr rfl), rfl⟩
        · show ∃ s ∈ rows.rows, _
          rw [hrows]
          rcases (hopened row').mp hrow' with hold | rfl
          · obtain ⟨s, hs, has⟩ := h.stored row' hold
            exact ⟨s, List.mem_append_left _ hs, has⟩
          · exact ⟨row, List.mem_append_right _
              (List.mem_singleton_self _), rfl⟩
        · rcases List.mem_append.mp hg with hg | hg <;>
            rcases List.mem_append.mp hg' with hg' | hg'
          · exact h.apart g hg g' hg' r r' hr hr' hid
          · obtain rfl := List.mem_singleton.mp hg'
            injection hr' with hr'
            subst hr'
            exact absurd hid (hother r ⟨g, hg, hr⟩)
          · obtain rfl := List.mem_singleton.mp hg
            injection hr with hr
            subst hr
            exact absurd hid.symm (hother r' ⟨g', hg', hr'⟩)
          · rw [List.mem_singleton.mp hg, List.mem_singleton.mp hg']
      simpa [perform, performTables, spends, gains, inserted, hinsert]
        using hinv

/-- A wallet is added by a request that paid for it. -/
theorem inv_addWallet (h : Inv lib sha256Hex w) {draw : Draw}
    {request : Request} {userId chain address : String}
    {walletType : WalletType}
    (hpre : Pre lib sha256Hex i
      ⟨request, .addWallet userId walletType chain address⟩ w) :
    Inv lib sha256Hex (perform i draw w ⟨request,
      .addWallet userId walletType chain address⟩).1 := by
  obtain ⟨hproc, hbought⟩ := hpre
  have hgain := h.gain (g := ⟨i, request, .wallet userId walletType
    address⟩) hbought hproc
  have hnonces : (performTables draw w.tables
      (.addWallet userId walletType chain address)).1.nonces
      = w.tables.nonces := by
    simp only [performTables]
    split
    · rfl
    · split <;> rfl
  have hsessions : (performTables draw w.tables
      (.addWallet userId walletType chain address)).1.sessions
      = w.tables.sessions := by
    simp only [performTables]
    split
    · rfl
    · split <;> rfl
  refine h.keep (hgain.frame ?_ ?_ (List.append_nil _) rfl
    (List.subset_append_left ..) (List.subset_append_right ..))
    (.of_eq hsessions) fun g row hg => ?_
  · show ∀ r ∈ (performTables draw w.tables
      (.addWallet userId walletType chain address)).1.nonces.rows, _
    rw [hnonces]
    exact h.messages
  · intro r hr _
    show r ∈ (performTables draw w.tables
      (.addWallet userId walletType chain address)).1.nonces.rows
    rw [hnonces]
    exact hr
  · show g ∈ w.gained ++ [_] ↔ _
    rw [List.mem_append, List.mem_singleton, or_iff_left]
    rintro rfl
    cases hg

/-- What one statement keeps. -/
theorem inv_perform (h : Inv lib sha256Hex w) (draw : Draw) (q : Call)
    (hpre : Pre lib sha256Hex i q w) :
    Inv lib sha256Hex (perform i draw w q).1 := by
  obtain ⟨request, query⟩ := q
  cases query with
  | createNonce walletType address nonce message expiresAt =>
      exact inv_createNonce h hpre
  | consumeNonce walletType address nonce =>
      exact inv_consumeNonce h hpre
  | createSession userId sessionHash expiresAt =>
      exact inv_createSession h hpre
  | addWallet userId walletType chain address =>
      exact inv_addWallet h hpre
  | revokeSession sessionHash =>
      have hrevoke : ∀ s : SessionRow,
          s.OpenedAs (s.revoke sessionHash draw.now) := by
        intro s
        unfold SessionRow.OpenedAs SessionRow.revoke
        split <;> rfl
      refine h.idle rfl rfl rfl ⟨fun s hs => ?_, fun s hs => ?_⟩
      · obtain ⟨s₀, hs₀, rfl⟩ := List.mem_map.mp hs
        exact ⟨s₀, hs₀, hrevoke s₀⟩
      · exact ⟨_, List.mem_map_of_mem hs, hrevoke s⟩
  | insertUser =>
      refine h.idle rfl rfl ?_ (.of_eq ?_)
      · simp only [performTables]
        split <;> rfl
      · simp only [performTables]
        split <;> rfl
  | insertWallet userId walletType chain address =>
      refine h.idle rfl rfl ?_ (.of_eq ?_)
      · simp only [performTables, inserted]
        split <;> rfl
      · simp only [performTables, inserted]
        split <;> rfl
  | _ => exact h.idle rfl rfl rfl (.of_eq rfl)

end Lumix.Services.WalletAuth
