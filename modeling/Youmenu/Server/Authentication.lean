import Youmenu.Server.Bookings
import Youmenu.Server.Expiry
import Youmenu.Server.Refusals

/-!
# Where a session comes from

In a run of the server every event is kept with the database that it found. A session
of a connection then goes back to a login on this connection, by the password of its user
or by a token that the server had issued to a login by password, and no logout and no
disconnect came in between. Nothing is changed in the database without such a session.

A quote in a string of a request makes other statements of it, which can change any table.
The runs are those in which no request has one.

## Main definitions

* `Request.Plain`, `PlainStep` — no string that goes into a statement has a quote.
* `Entry`, `serverReport` — the server, with a trace of what it did.
* `Authenticated` — the trace has a login of the user on the connection.
* `Within` — how far a handler has come with the sessions that it may add.
* `Modest` — the calls that add no session and no booking.
-/

namespace Youmenu.Server

open Eventpack Transition Program

/-! ## Plain requests -/

/-- The comment that `res_dish_book` passes to the database. -/
def Request.comment (r : Request) : CString :=
  bookComment r.junk (bookParam r.junk r.pack).comment

/-- The strings that go into statements have no quotes, and neither `inf` nor `nan` is printed
into one. -/
def Request.Plain (encryptPwd : CString → CString) (r : Request) : Prop :=
  match r.kind with
  | .accountLogin =>
    let p := loginParam r.junk r.pack
    QuoteFree p.uid ∧ QuoteFree (encryptPwd p.pwd)
  | .accountCreate =>
    let a := createParam r.junk r.pack
    QuoteFree a.uid ∧ QuoteFree (encryptPwd a.pwd) ∧ QuoteFree a.nick ∧ QuoteFree a.comment
  | .accountModifyPwd =>
    let p := modifyPwdParam r.junk r.pack
    QuoteFree p.oldPwd ∧ QuoteFree (encryptPwd p.oldPwd) ∧ QuoteFree (encryptPwd p.newPwd)
  | .accountModifyBasic =>
    let p := modifyBasicParam r.junk r.pack
    QuoteFree p.nick ∧ QuoteFree p.comment
  | .accountDelete =>
    let p := deleteParam r.junk r.pack
    QuoteFree p.uid ∧ QuoteFree (encryptPwd p.oldPwd)
  | .dishBook => QuoteFree r.comment ∧ (bookParam r.junk r.pack).jinOrPlate.finite
  | _ => True

instance (encryptPwd : CString → CString) : (r : Request) → Decidable (r.Plain encryptPwd)
  | ⟨.accountLogin, _, _, _⟩ => inferInstanceAs (Decidable (_ ∧ _))
  | ⟨.accountCreate, _, _, _⟩ => inferInstanceAs (Decidable (_ ∧ _ ∧ _ ∧ _))
  | ⟨.accountModifyPwd, _, _, _⟩ => inferInstanceAs (Decidable (_ ∧ _ ∧ _))
  | ⟨.accountModifyBasic, _, _, _⟩ => inferInstanceAs (Decidable (_ ∧ _))
  | ⟨.accountDelete, _, _, _⟩ => inferInstanceAs (Decidable (_ ∧ _))
  | ⟨.dishBook, _, _, _⟩ => inferInstanceAs (Decidable (_ ∧ _))
  | ⟨.heartbeat, _, _, _⟩ | ⟨.accountLogout, _, _, _⟩ | ⟨.accountList, _, _, _⟩
  | ⟨.dishFetch, _, _, _⟩ | ⟨.dishCancel, _, _, _⟩ | ⟨.dishList, _, _, _⟩ | ⟨.seatList, _, _, _⟩
  | ⟨.cookAccept, _, _, _⟩ => inferInstanceAs (Decidable True)

/-- The event is a plain request or closes a connection. -/
def PlainStep (encryptPwd : CString → CString) {σ : Type} (_ : σ) : ServerEvent → Prop
  | .request r => r.Plain encryptPwd
  | .disconnect _ => True

instance (encryptPwd : CString → CString) {σ : Type} (s : σ) :
    (e : ServerEvent) → Decidable (PlainStep encryptPwd s e)
  | .request r => inferInstanceAs (Decidable (r.Plain encryptPwd))
  | .disconnect _ => inferInstanceAs (Decidable True)

/-! ## Traces -/

/-- An event, and the database that it found. -/
structure Entry (δ : Type) where
  event : ServerEvent
  data : δ

def serverReport {δ : Type} (db : Db δ) (s : SessionMod × δ) (e : ServerEvent) :
    Option ((SessionMod × δ) × List (Entry δ)) :=
  (serverStep db s e).map fun s' => (s', [⟨e, s.2⟩])

/-- After the event the connection is closed or logged out. -/
def Entry.Ends {δ : Type} (fd : ℤ) (e : Entry δ) : Prop :=
  match e.event with
  | .request r => r.kind = .accountLogout ∧ r.fd = fd
  | .disconnect fd' => fd' = fd

section Traces

variable {ρ : Type} (encryptPwd : CString → CString)

/-- A request to log in with the password of the user, whose account is of the type: the first
one of that name, which is the only one where the name is the key. -/
structure PwdLogin (e : Entry (List Account × ρ)) (r : Request) (uid : CString) (type : ℤ) :
    Prop where
  event : e.event = .request r
  kind : r.kind = .accountLogin
  user : (loginParam r.junk r.pack).uid = uid
  password : ∃ a ∈ e.data.1, a.uid = uid ∧ a.pwd = encryptPwd (loginParam r.junk r.pack).pwd
  account : ∃ a, e.data.1.find? (·.uid = uid) = some a ∧ a.type = type

/-- The token was made for a login by password. -/
def Issued (w : List (Entry (List Account × ρ))) (token uid : CString) (type : ℤ) : Prop :=
  ∃ e ∈ w, ∃ r, PwdLogin encryptPwd e r uid type ∧ asksToken (loginParam r.junk r.pack) ∧
    r.junk.guid = token

/-- The event is a login of the user on the connection, by password or by a token that was
issued before. -/
inductive LogsOn (w : List (Entry (List Account × ρ))) (e : Entry (List Account × ρ)) (fd : ℤ)
    (uid : CString) (type : ℤ) : Prop
  | pwd (r : Request) (hlogin : PwdLogin encryptPwd e r uid type) (hfd : r.fd = fd)
  | token (r : Request) (hevent : e.event = .request r) (hkind : r.kind = .accountLogin)
      (hfd : r.fd = fd) {token : CString} (htoken : TokenLogin (loginParam r.junk r.pack) token)
      (hissued : Issued encryptPwd w token uid type)

/-- A login on the connection that neither a logout nor a disconnect has ended. -/
def Authenticated (w : List (Entry (List Account × ρ))) (fd : ℤ) (uid : CString) (type : ℤ) :
    Prop :=
  ∃ w₁ e w₂, w = w₁ ++ e :: w₂ ∧ LogsOn encryptPwd w₁ e fd uid type ∧ ∀ e' ∈ w₂, ¬ e'.Ends fd

/-- Where a session has to come from. -/
def Accounted (w : List (Entry (List Account × ρ))) (s : Session) : Prop :=
  match s.sType with
  | .fd => Authenticated encryptPwd w s.fd s.uid s.aType
  | .token => Issued encryptPwd w s.token s.uid s.aType

variable {encryptPwd} {w : List (Entry (List Account × ρ))} {fd : ℤ} {uid token : CString}
  {type : ℤ}

theorem Issued.append (h : Issued encryptPwd w token uid type) (w' : List (Entry (List Account × ρ))) :
    Issued encryptPwd (w ++ w') token uid type := by
  obtain ⟨e, he, r, hlogin, hasks, hguid⟩ := h
  exact ⟨e, List.mem_append_left _ he, r, hlogin, hasks, hguid⟩

theorem Authenticated.append (h : Authenticated encryptPwd w fd uid type) {e : Entry (List Account × ρ)}
    (hends : ¬ e.Ends fd) : Authenticated encryptPwd (w ++ [e]) fd uid type := by
  obtain ⟨w₁, e₁, w₂, rfl, hlogs, hkept⟩ := h
  refine ⟨w₁, e₁, w₂ ++ [e], by simp, hlogs, ?_⟩
  exact List.forall_mem_append.mpr ⟨hkept, List.forall_mem_singleton.mpr hends⟩

theorem LogsOn.authenticated {e : Entry (List Account × ρ)} (h : LogsOn encryptPwd w e fd uid type) :
    Authenticated encryptPwd (w ++ [e]) fd uid type :=
  ⟨w, e, [], rfl, h, nofun⟩

/-- A session that was there before the event and outlives it. -/
theorem Accounted.append {s : Session} (h : Accounted encryptPwd w s) {e : Entry (List Account × ρ)}
    (hends : s.sType = .fd → ¬ e.Ends s.fd) : Accounted encryptPwd (w ++ [e]) s := by
  unfold Accounted at h ⊢
  split at h
  · next htype => exact h.append (hends htype)
  · next htype => exact h.append _

end Traces

/-! ## The sessions that a login adds -/

theorem wordToLower_idem (s : CString) : wordToLower (wordToLower s) = wordToLower s := by
  have htolower : ∀ b, tolower (tolower b) = tolower b := by
    intro b
    unfold tolower
    split_ifs with hb hb'
    · rw [UInt8.le_iff_toNat_le, UInt8.le_iff_toNat_le] at hb hb'
      simp at hb hb'
      omega
    · rfl
    · rfl
  refine CString.ext ?_
  simp [wordToLower, htolower]

section Logins

variable {δ : Type} {db : Db δ} {m m₀ : SessionMod} {d : δ} {A : Session → Prop} {α : Type}
  {Q : α → SessionMod × δ → Prop}

/-- The module is settled, and every session was there before or may be added. -/
def Within (A : Session → Prop) (m₀ m : SessionMod) : Prop :=
  Settled (fun _ _ _ => True) m ∧ ∀ n ∈ m.sessionList, n ∈ m₀.sessionList ∨ A n.session

theorem Within.refl (hm : Settled (fun _ _ _ => True) m) : Within A m m :=
  ⟨hm, fun _ hn => .inl hn⟩

theorem Within.remove (h : Within A m₀ m) (hit : SessionNode → Bool) :
    Within A m₀ (m.remove hit) :=
  ⟨h.1.remove hit, fun n hn => h.2 n (SessionMod.mem_remove.mp hn).1⟩

theorem Within.add (h : Within A m₀ m) {s : Session} (hs : s.sType = .fd ∨ s.fd = -1) (hA : A s) :
    ∃ b m', m.add s = some (b, m') ∧ Within A m₀ m' := by
  obtain ⟨b, m', hadd, hm', -⟩ := h.1.add hs (P := fun _ _ _ => True) trivial
  refine ⟨b, m', hadd, hm', fun n hn => ?_⟩
  rcases (SessionMod.add_table hadd).2 n hn with hn | ⟨rfl, -⟩
  · exact h.2 n hn
  · exact .inr hA

theorem Within.wp_checkSessionExist (h : Within A m₀ m) {uid : CString} {fd : ℕ}
    {k : Bool → Handler α} (hk : ∀ b m', Within A m₀ m' → (k b).wp (interp db) Q (m', d)) :
    (resAccountCheckSessionExist uid fd >>= k).wp (interp db) Q (m, d) :=
  wp_checkSessionExist_cases h.1 (fun b _ => hk b m h)
    fun b hit _ _ _ => hk b (m.remove hit) (h.remove hit)

theorem Within.wp_addFd (h : Within A m₀ m) {s : Session} (hA : A (sessionForFd s))
    {k : Bool → Handler α} (hk : ∀ b m', Within A m₀ m' → (k b).wp (interp db) Q (m', d)) :
    (sessionAddFd s >>= k).wp (interp db) Q (m, d) := by
  obtain ⟨b, m', hadd, hm'⟩ := h.add (s := sessionForFd s) (.inl rfl) hA
  refine (wp_call ?_).mpr (hk b m' hm')
  rw [interp, hadd, Option.map_some]

theorem Within.wp_addToken (h : Within A m₀ m) {s : Session} (hA : A (sessionForToken s))
    {k : Bool → Handler α} (hk : ∀ b m', Within A m₀ m' → (k b).wp (interp db) Q (m', d)) :
    (sessionAddToken s >>= k).wp (interp db) Q (m, d) := by
  obtain ⟨b, m', hadd, hm'⟩ := h.add (s := sessionForToken s) (.inr rfl) hA
  refine (wp_call ?_).mpr (hk b m' hm')
  rw [interp, hadd, Option.map_some]

theorem Within.wp_loginToken (h : Within A m₀ m) {s : Session} {guid : CString}
    (hA : A { s with sType := .token, token := guid, fd := -1 })
    {k : Reply → Handler α}
    (hk : ∀ reply m', Within A m₀ m' → (k reply).wp (interp db) Q (m', d)) :
    (loginToken s guid >>= k).wp (interp db) Q (m, d) := by
  have hadd : ∀ m', Within A m₀ m' →
      (sessionAddToken { s with sType := .token, token := guid, fd := -1 } >>= fun _ =>
        ret [appendString "token" guid]).wp (interp db)
          (fun token s => (k token).wp (interp db) Q s) (m', d) := by
    intro m' hm'
    refine hm'.wp_addToken ?_ fun b m'' hm'' => ?_
    · exact hA
    · exact hk _ m'' hm''
  rw [wp_bind]
  refine wp_refUid h.1 (fun _ => hadd m h) fun n hn _ => ?_
  rw [dropToken, wp_bind, wp_read h.1 hn, wp_dref h.1 hn, wp_delToken_eq h.1]
  exact hadd _ (h.remove _)

/-- What a login may add to the sessions that it found: a session of the user whose
password it gave, or a session of the user of the token that it gave. -/
inductive Adds (db : Db δ) (m : SessionMod) (d : δ) (junk : Junk) (fd : ℕ) (p : LoginParam)
    (s : Session) : Prop
  | fd {a : Account} (hlogin : loginAccount db d p = some a) (huid : s.uid = p.uid)
      (haType : s.aType = a.type) (hsType : s.sType = .fd) (hfd : s.fd = fd)
  | token {a : Account} (hlogin : loginAccount db d p = some a) (huid : s.uid = p.uid)
      (haType : s.aType = a.type) (hsType : s.sType = .token) (hasks : asksToken p)
      (htoken : s.token = junk.guid)
  | byToken {n : SessionNode} (hn : n ∈ m.sessionList) (hlogin : TokenLogin p n.session.token)
      (hnType : n.session.sType = .token) (huid : s.uid = n.session.uid)
      (haType : s.aType = n.session.aType) (hsType : s.sType = .fd) (hfd : s.fd = fd)

theorem within_loginByPwd (hm : Settled (fun _ _ _ => True) m) (junk : Junk) (fd : ℕ)
    {p : LoginParam} (hvalid : validUid p.uid && validPwd p.pwd) :
    (loginByPwd junk fd p).wp (interp db)
      (fun _ s => Within (Adds db m d junk fd p) m s.1) (m, d) := by
  have hinit : Within (Adds db m d junk fd p) m m := .refl hm
  refine wp_db.mpr ?_
  split
  · exact hinit
  next user huser =>
  refine wp_db.mpr ?_
  split
  · next hpwd =>
    refine hinit.wp_checkSessionExist fun conflict m₁ hm₁ => ?_
    refine wp_db.mpr ?_
    split
    · exact hm₁
    · next a ha =>
      have hlogin : loginAccount db d p = some a := by
        simp only [loginAccount, hvalid, huser, hpwd, Option.isSome_some, Bool.and_self, if_true]
        exact ha
      refine hm₁.wp_addFd (.fd hlogin rfl rfl rfl rfl) fun b m₂ hm₂ => ?_
      split
      · next hexpire =>
        refine hm₂.wp_loginToken ?_ fun reply m₃ hm₃ => hm₃
        exact .token hlogin rfl rfl rfl (by simpa [asksToken, hvalid] using hexpire) rfl
      · exact hm₂
  · exact hinit

theorem within_loginByToken (hm : Settled (fun _ _ _ => True) m) (junk : Junk) (fd : ℕ)
    {p : LoginParam} (hpwd : ¬ (validUid p.uid && validPwd p.pwd)) :
    (loginByToken fd p.token).wp (interp db)
      (fun _ s => Within (Adds db m d junk fd p) m s.1) (m, d) := by
  have hinit : Within (Adds db m d junk fd p) m m := .refl hm
  refine wp_refToken hm (fun _ => hinit) fun n hn hfind => ?_
  have hhit := List.find?_some hfind
  simp only [SessionNode.hasToken, Bool.and_eq_true, decide_eq_true_eq] at hhit
  rw [wp_read hm hn, wp_dref hm hn]
  refine hinit.wp_checkSessionExist fun conflict m₁ hm₁ => ?_
  refine hm₁.wp_addFd ?_ fun b m₂ hm₂ => ?_
  · exact .byToken hn ⟨hpwd, hhit.2.symm⟩ hhit.1 rfl rfl rfl rfl
  refine wp_db.mpr ?_
  split
  · exact hm₂
  · exact hm₂

theorem within_resAccountLogin (hm : Settled (fun _ _ _ => True) m) (junk : Junk) (fd : ℕ)
    (pack : Pack) :
    (resAccountLogin junk fd pack).wp (interp db)
      (fun _ s => Within (Adds db m d junk fd (loginParam junk pack)) m s.1) (m, d) := by
  simp only [resAccountLogin]
  split_ifs with hvalid
  · exact within_loginByPwd hm junk fd hvalid
  · exact within_loginByToken hm junk fd hvalid
  · exact .refl hm

end Logins

/-! ## The other requests -/

/-- Calls that add no session and change no booking. -/
def Modest : Effect → Prop
  | .addFd _ | .addToken _ | .db (.bookAdd _ _ _ _) | .db (.bookDel _) => False
  | _ => True

/-- Calls that add no session. -/
def AddsNone : Effect → Prop
  | .addFd _ | .addToken _ => False
  | _ => True

theorem Modest.addsNone (e : Effect) (h : Modest e) : AddsNone e := by
  cases e with
  | addFd s => exact h
  | addToken s => exact h
  | _ => trivial

theorem IsDb.addsNone (e : Effect) (h : IsDb e) : AddsNone e := by
  obtain ⟨op, rfl⟩ := h
  trivial

section Modest

theorem modest_resHeartbeat (fd : ℕ) : (resHeartbeat fd).Only Modest := by
  refine only_perform trivial fun session => ?_
  split
  · trivial
  · exact only_perform trivial fun _ => only_perform trivial fun _ => trivial

theorem modest_resAccountLogout (fd : ℕ) : (resAccountLogout fd).Only Modest := by
  refine only_perform trivial fun session => ?_
  split
  · trivial
  · exact only_perform trivial fun _ => only_perform trivial fun _ => trivial

theorem modest_createAccount (a : Account) : (createAccount a).Only Modest := by
  refine only_perform trivial fun account => ?_
  split
  · trivial
  refine only_perform trivial fun added => ?_
  split
  · trivial
  · trivial

theorem modest_resAccountCreate (junk : Junk) (fd : ℕ) (pack : Pack) :
    (resAccountCreate junk fd pack).Only Modest := by
  simp only [resAccountCreate]
  split
  · refine only_perform trivial fun session => ?_
    split
    · trivial
    refine only_perform trivial fun _ => only_perform trivial fun _ => ?_
    refine only_perform trivial fun s => ?_
    split
    · trivial
    · exact modest_createAccount _
  · trivial

theorem modest_resAccountModifyPwd (junk : Junk) (fd : ℕ) (pack : Pack) :
    (resAccountModifyPwd junk fd pack).Only Modest := by
  simp only [resAccountModifyPwd]
  split_ifs
  · trivial
  · trivial
  refine only_perform trivial fun session => ?_
  split
  · trivial
  refine only_perform trivial fun known => ?_
  split
  · refine only_perform trivial fun s => only_perform trivial fun updated => ?_
    refine only_perform trivial fun _ => ?_
    split
    · trivial
    · trivial
  · exact only_perform trivial fun _ => trivial

theorem modest_resAccountModifyBasic (junk : Junk) (fd : ℕ) (pack : Pack) :
    (resAccountModifyBasic junk fd pack).Only Modest := by
  refine only_perform trivial fun session => ?_
  split
  · trivial
  refine only_perform trivial fun s => only_perform trivial fun updated => ?_
  split
  · refine only_perform trivial fun s => only_perform trivial fun updated => ?_
    split
    · trivial
    · trivial
  · trivial

theorem modest_deleteOwn (fd : ℕ) (uid : CString) (session : ℕ) :
    (deleteOwn fd uid session).Only Modest := by
  have hlast : ∀ s, (lastAdmin s).Only Modest := by
    intro s
    unfold lastAdmin
    split
    · exact only_perform trivial fun accounts => trivial
    · trivial
  refine only_perform trivial fun s => (hlast s).bind fun last => ?_
  split
  · exact only_perform trivial fun _ => trivial
  · refine only_perform trivial fun _ => only_perform trivial fun _ => ?_
    exact only_perform trivial fun _ => only_perform trivial fun _ => trivial

theorem modest_deleteOther (uid : CString) (session : ℕ) :
    (deleteOther uid session).Only Modest := by
  refine only_perform trivial fun s => ?_
  split
  · exact only_perform trivial fun _ => trivial
  · exact only_perform trivial fun _ => only_perform trivial fun _ => trivial

theorem modest_resAccountDelete (junk : Junk) (fd : ℕ) (pack : Pack) :
    (resAccountDelete junk fd pack).Only Modest := by
  simp only [resAccountDelete]
  split
  · refine only_perform trivial fun session => ?_
    split
    · trivial
    refine only_perform trivial fun s => only_perform trivial fun known => ?_
    split
    · refine only_perform trivial fun s => ?_
      split
      · exact modest_deleteOwn fd _ _
      · exact modest_deleteOther _ _
    · trivial
  · trivial

theorem modest_checkPermission (fd : ℕ) (allowed : ℤ → Bool) (expired denied : PackOp) :
    (checkPermission fd allowed expired denied).Only Modest := by
  refine only_perform trivial fun session => ?_
  split
  · trivial
  · exact only_perform trivial fun _ => only_perform trivial fun _ => trivial

theorem modest_resAccountList (fd : ℕ) : (resAccountList fd).Only Modest := by
  refine (modest_checkPermission fd _ _ _).bind fun refusal => ?_
  split
  · trivial
  refine only_perform trivial fun accounts => ?_
  split
  · trivial
  · trivial

theorem modest_resDishFetch (fd : ℕ) (pack : Pack) : (resDishFetch fd pack).Only Modest := by
  refine (modest_checkPermission fd _ _ _).bind fun refusal => ?_
  split
  · trivial
  refine only_perform trivial fun dishes => ?_
  split
  · trivial
  · trivial

theorem modest_resDishList (fd : ℕ) (pack : Pack) : (resDishList fd pack).Only Modest := by
  refine (modest_checkPermission fd _ _ _).bind fun refusal => ?_
  split
  · trivial
  simp only
  split
  · trivial
  refine only_perform trivial fun seat => ?_
  split
  · trivial
  refine only_perform trivial fun books => ?_
  split
  · trivial
  · trivial

theorem modest_resSeatList (fd : ℕ) : (resSeatList fd).Only Modest := by
  refine only_perform trivial fun session => ?_
  split
  · trivial
  refine only_perform trivial fun _ => only_perform trivial fun seats => ?_
  split
  · trivial
  · trivial

theorem modest_resCookAccept (fd : ℕ) (pack : Pack) : (resCookAccept fd pack).Only Modest := by
  refine (modest_checkPermission fd _ _ _).bind fun refusal => ?_
  split
  · trivial
  simp only
  split
  · trivial
  refine only_perform trivial fun dish => ?_
  split
  · trivial
  refine only_perform trivial fun seat => ?_
  split
  · trivial
  · trivial

/-- All requests but a login, an order and a cancellation. -/
theorem Request.modest (r : Request) (hlogin : r.kind ≠ .accountLogin) (hbook : r.kind ≠ .dishBook)
    (hcancel : r.kind ≠ .dishCancel) : r.handler.Only Modest := by
  obtain ⟨kind, fd, pack, junk⟩ := r
  cases kind with
  | heartbeat => exact modest_resHeartbeat fd
  | accountLogin => exact (hlogin rfl).elim
  | accountLogout => exact modest_resAccountLogout fd
  | accountCreate => exact modest_resAccountCreate junk fd pack
  | accountModifyPwd => exact modest_resAccountModifyPwd junk fd pack
  | accountModifyBasic => exact modest_resAccountModifyBasic junk fd pack
  | accountDelete => exact modest_resAccountDelete junk fd pack
  | accountList => exact modest_resAccountList fd
  | dishFetch => exact modest_resDishFetch fd pack
  | dishBook => exact (hbook rfl).elim
  | dishCancel => exact (hcancel rfl).elim
  | dishList => exact modest_resDishList fd pack
  | seatList => exact modest_resSeatList fd
  | cookAccept => exact modest_resCookAccept fd pack

theorem Guarded.addsNone {fd : ℕ} {p : Handler Reply} (hp : Guarded fd p) : p.Only AddsNone := by
  obtain ⟨allowed, expired, denied, k, rfl, hreply, hnone⟩ := hp
  refine ((modest_checkPermission fd allowed expired denied).mono Modest.addsNone).bind ?_
  rintro (_ | reply)
  · exact hnone.mono IsDb.addsNone
  · rw [hreply]
    trivial

theorem Request.addsNone (r : Request) (hlogin : r.kind ≠ .accountLogin) :
    r.handler.Only AddsNone := by
  by_cases hbook : r.kind = .dishBook
  · unfold Request.handler
    rw [hbook]
    exact (guarded_resDishBook r.junk r.fd r.pack).addsNone
  by_cases hcancel : r.kind = .dishCancel
  · unfold Request.handler
    rw [hcancel]
    exact (guarded_resDishCancel r.fd r.pack).addsNone
  exact (r.modest hlogin hbook hcancel).mono Modest.addsNone

end Modest

section Sessions

variable {δ : Type} {db : Db δ} {m m' : SessionMod} {d d' : δ}

theorem interp_addsNone {e : Effect} (he : AddsNone e) {r : e.Result}
    (h : interp db e (m, d) = some (r, m', d')) : ∀ n ∈ m'.sessionList, n ∈ m.sessionList := by
  cases e with
  | refFd fd =>
    obtain ⟨⟨r₁, m₁⟩, href, ⟨⟩⟩ := Option.map_eq_some_iff.mp h
    rw [(SessionMod.refAll_table href).1]
    exact fun _ hn => hn
  | refUid uid type =>
    obtain ⟨⟨r₁, m₁⟩, href, ⟨⟩⟩ := Option.map_eq_some_iff.mp h
    rw [(SessionMod.refAll_table href).1]
    exact fun _ hn => hn
  | refToken token =>
    obtain ⟨⟨r₁, m₁⟩, href, ⟨⟩⟩ := Option.map_eq_some_iff.mp h
    rw [(SessionMod.refToken_table href).1]
    exact fun _ hn => hn
  | dref session =>
    obtain ⟨⟩ := Option.some.inj h
    rw [(SessionMod.dref_table session).1]
    exact fun _ hn => hn
  | read session =>
    obtain ⟨⟩ := Option.some.inj h
    exact fun _ hn => hn
  | delFd fd =>
    obtain ⟨⟨b, m₁⟩, hdel, ⟨⟩⟩ := Option.map_eq_some_iff.mp h
    exact (SessionMod.delAll_sublist hdel).subset
  | delToken uid =>
    obtain ⟨⟨b, m₁⟩, hdel, ⟨⟩⟩ := Option.map_eq_some_iff.mp h
    exact (SessionMod.delAll_sublist hdel).subset
  | addFd s => exact he.elim
  | addToken s => exact he.elim
  | db op =>
    obtain ⟨⟩ := Option.some.inj h
    exact fun _ hn => hn

/-- Only a login adds sessions. -/
theorem Request.sessions_subset {r : Request} (hlogin : r.kind ≠ .accountLogin) {reply : Reply}
    (hexec : r.handler.exec (interp db) (m, d) = some (reply, m', d')) :
    ∀ n ∈ m'.sessionList, n ∈ m.sessionList := by
  refine (r.addsNone hlogin).exec (I := fun s => ∀ n ∈ s.1.sessionList, n ∈ m.sessionList) ?_
    (fun _ hn => hn) hexec
  intro e he s x s' hs hcall n hn
  exact hs n (interp_addsNone he hcall n hn)

/-- After a logout that returns, also while the lock is kept, the connection has no
session. -/
theorem logout_ends {fd : ℕ} {reply : Reply}
    (hexec : (resAccountLogout fd).exec (interp db) (m, d) = some (reply, m', d')) :
    ∀ n ∈ m'.sessionList, n.session.fd ≠ fd := by
  obtain ⟨⟨old, s⟩, hcall, hrest⟩ := Option.bind_eq_some_iff.mp hexec
  obtain ⟨⟨r, m₁⟩, href, ⟨⟩⟩ := Option.map_eq_some_iff.mp hcall
  cases r with
  | none =>
    obtain ⟨⟩ := Option.some.inj hrest
    -- nothing was found
    have hnone : m.sessionList.filter (SessionNode.hasFd fd) = [] := by
      simp only [SessionMod.refAll] at href
      split at href
      · next hlast => exact List.getLast?_eq_none_iff.mp hlast
      · obtain ⟨m₂, -, heq⟩ := Option.map_eq_some_iff.mp href
        cases heq
    intro n hn hfd
    rw [(SessionMod.refAll_table href).1] at hn
    have := List.filter_eq_nil_iff.mp hnone n hn
    simp [SessionNode.hasFd, hfd] at this
  | some session =>
    obtain ⟨⟨u, s⟩, hdref, hrest⟩ := Option.bind_eq_some_iff.mp hrest
    obtain ⟨⟨b, s'⟩, hcall', hrest⟩ := Option.bind_eq_some_iff.mp hrest
    obtain ⟨⟩ := Option.some.inj hrest
    obtain ⟨⟩ := Option.some.inj hdref
    obtain ⟨⟨b, m₂⟩, hdel, ⟨⟩⟩ := Option.map_eq_some_iff.mp hcall'
    intro n hn hfd
    have hmiss := ((SessionMod.delAll_table hdel).2 n hn).2
    simp [SessionNode.hasFd, hfd] at hmiss

end Sessions

/-! ## Sessions go back to logins -/

section Runs

variable {ρ : Type} {sql : BrokenSql} {encryptPwd : CString → CString} {other : Db ρ}
  {s s' : SessionMod × List Account × ρ} {w : List (Entry (List Account × ρ))}

/-- The sessions of a state that was reached with a trace. -/
structure Recorded (encryptPwd : CString → CString) (s : SessionMod × List Account × ρ)
    (w : List (Entry (List Account × ρ))) : Prop where
  settled : Settled (fun _ _ _ => True) s.1 ∨ s.1.locked = true
  unique : Unique s.1.sessionList
  accounted : ∀ n ∈ s.1.sessionList, Accounted encryptPwd w n.session

theorem Recorded.init (freed : Session) (d : List Account × ρ) :
    Recorded encryptPwd (.init freed, d) [] :=
  ⟨.inl (.init _ _), .nil, nofun⟩

/-- A login by password that succeeds has found the user with the password. -/
theorem loginAccount_row {d : List Account × ρ} {p : LoginParam} (huid : QuoteFree p.uid)
    (hpwd : QuoteFree (encryptPwd p.pwd)) {a : Account}
    (h : loginAccount (accountDb sql encryptPwd other) d p = some a) :
    (∃ b ∈ d.1, b.uid = p.uid ∧ b.pwd = encryptPwd p.pwd) ∧
      d.1.find? (·.uid = p.uid) = some a := by
  simp only [loginAccount, accountDb, dbAccountGetOne, dbAccountPwdCheck, huid, hpwd,
    Bool.and_true, if_true] at h
  split at h
  · next hfound =>
    refine ⟨?_, h⟩
    simpa using (Bool.and_eq_true_iff.mp hfound).2
  · cases h

/-- What a login adds is accounted for by this login. -/
theorem Adds.accounted {m : SessionMod} {d : List Account × ρ}
    (hw : ∀ n ∈ m.sessionList, Accounted encryptPwd w n.session) {r : Request}
    (hkind : r.kind = .accountLogin) (hplain : r.Plain encryptPwd) {t : Session}
    (h : Adds (accountDb sql encryptPwd other) m d r.junk r.fd (loginParam r.junk r.pack) t) :
    Accounted encryptPwd (w ++ [⟨.request r, d⟩]) t := by
  simp only [Request.Plain, hkind] at hplain
  obtain ⟨hquid, hqpwd⟩ := hplain
  have hpwdLogin : ∀ {a}, loginAccount (accountDb sql encryptPwd other) d
      (loginParam r.junk r.pack) = some a → t.uid = (loginParam r.junk r.pack).uid →
      t.aType = a.type → PwdLogin encryptPwd ⟨.request r, d⟩ r t.uid t.aType := by
    intro a hlogin huid haType
    obtain ⟨hpassword, haccount⟩ := loginAccount_row hquid hqpwd hlogin
    rw [← huid] at hpassword haccount
    exact ⟨rfl, hkind, huid.symm, hpassword, a, haccount, haType.symm⟩
  cases h with
  | @fd a hlogin huid haType hsType hfd =>
    have hlogs : LogsOn encryptPwd w ⟨.request r, d⟩ t.fd t.uid t.aType :=
      .pwd r (hpwdLogin hlogin huid haType) hfd.symm
    simpa only [Accounted, hsType] using hlogs.authenticated
  | @token a hlogin huid haType hsType hasks htoken =>
    have hissued : Issued encryptPwd (w ++ [⟨.request r, d⟩]) t.token t.uid t.aType :=
      ⟨_, List.mem_append_right _ (List.mem_singleton_self _), r,
        hpwdLogin hlogin huid haType, hasks, htoken.symm⟩
    simpa only [Accounted, hsType] using hissued
  | @byToken n hn hlogin hnType huid haType hsType hfd =>
    have hissued : Issued encryptPwd w n.session.token t.uid t.aType := by
      rw [huid, haType]
      simpa only [Accounted, hnType] using hw n hn
    have hlogs : LogsOn encryptPwd w ⟨.request r, d⟩ t.fd t.uid t.aType :=
      .token r rfl hkind hfd.symm hlogin hissued
    simpa only [Accounted, hsType] using hlogs.authenticated

theorem Recorded.step (h : Recorded encryptPwd s w) {e : ServerEvent}
    (hplain : PlainStep encryptPwd s e)
    (hstep : serverStep (accountDb sql encryptPwd other) s e = some s') :
    Recorded encryptPwd s' (w ++ [⟨e, s.2⟩]) := by
  obtain ⟨m, d⟩ := s
  refine ⟨serverStep_settled h.settled hstep, serverStep_unique hstep h.unique, fun n hn => ?_⟩
  cases e with
  | disconnect fd =>
    obtain ⟨⟨b, m'⟩, hdel, rfl⟩ := Option.map_eq_some_iff.mp hstep
    obtain ⟨hold, hmiss⟩ := (SessionMod.delAll_table hdel).2 n hn
    refine (h.accounted n hold).append fun _ hends => ?_
    simp [SessionNode.hasFd, show (fd : ℤ) = n.session.fd from hends] at hmiss
  | request r =>
    obtain ⟨⟨reply, s'⟩, hexec, rfl⟩ := Option.map_eq_some_iff.mp hstep
    by_cases hlogin : r.kind = .accountLogin
    · -- a session that was there is not ended by a login
      have hold : n ∈ m.sessionList →
          Accounted encryptPwd (w ++ [⟨.request r, d⟩]) n.session := by
        intro hn
        refine (h.accounted n hn).append fun _ hends => ?_
        exact absurd (hlogin.symm.trans hends.1) (by decide)
      rcases h.settled with hm | hlocked
      · have hhandler : r.handler = resAccountLogin r.junk r.fd r.pack := by
          simp only [Request.handler, hlogin]
        rw [hhandler] at hexec
        obtain ⟨-, hadds⟩ := (within_resAccountLogin hm r.junk r.fd r.pack).of_exec hexec
        rcases hadds n hn with hn | hadds
        · exact hold hn
        · exact hadds.accounted h.accounted hlogin hplain
      · obtain rfl := serverStep_locked hlocked hstep
        exact hold hn
    · have hn' := Request.sessions_subset hlogin hexec n hn
      refine (h.accounted n hn').append fun _ hends => ?_
      obtain ⟨hlogout, hfd⟩ := hends
      have hhandler : r.handler = resAccountLogout r.fd := by
        simp only [Request.handler, hlogout]
      rw [hhandler] at hexec
      exact logout_ends hexec n hn hfd.symm

theorem recorded_of_reaches {freed : Session} {d₀ : List Account × ρ}
    (h : Reaches (traced (serverReport (accountDb sql encryptPwd other))) (PlainStep encryptPwd)
      ((.init freed, d₀), []) (s, w)) : Recorded encryptPwd s w := by
  refine h.invariant (P := fun x => Recorded encryptPwd x.1 x.2) (.init _ _) ?_
  rintro ⟨s, w⟩ e ⟨s', w'⟩ hs hplain hstep
  obtain ⟨new, hreport, rfl⟩ := traced_eq_some.mp hstep
  obtain ⟨x, hserver, ⟨⟩⟩ := Option.map_eq_some_iff.mp hreport
  exact hs.step hplain hserver

end Runs

/-- In every run of plain requests and disconnects, also after a handler has kept the lock:
the session of a connection goes back to a login of its user on this connection with the
password of the user, or with a token that was made for such a login, and neither a logout
nor a disconnect came since. The session has the type that the account had at the login by
password. A session of a token is there only for a token that was made for a login by
password. -/
theorem sessions_authenticated {ρ : Type} {sql : BrokenSql} {encryptPwd : CString → CString}
    {other : Db ρ} {freed : Session} {d₀ : List Account × ρ} {s : SessionMod × List Account × ρ}
    {w : List (Entry (List Account × ρ))}
    (h : Reaches (traced (serverReport (accountDb sql encryptPwd other))) (PlainStep encryptPwd)
      ((.init freed, d₀), []) (s, w)) :
    ∀ n ∈ s.1.sessionList,
      (n.session.sType = .fd →
        Authenticated encryptPwd w n.session.fd n.session.uid n.session.aType) ∧
      (n.session.sType = .token →
        Issued encryptPwd w n.session.token n.session.uid n.session.aType) := by
  intro n hn
  have haccounted := (recorded_of_reaches h).accounted n hn
  constructor
  · intro htype
    simpa only [Accounted, htype] using haccounted
  · intro htype
    simpa only [Accounted, htype] using haccounted

/-- A login that asks for a token for one day. -/
def rememberedLogin (fd : ℕ) (uid pwd : String) : Request :=
  ⟨.accountLogin, fd, some [⟨lit "uid", .string (lit uid)⟩, ⟨lit "pwd", .string (lit pwd)⟩,
    ⟨lit "token_expire", .int 1⟩], { noJunk with guid := annToken }⟩

def tokenLogin (fd : ℕ) : Request :=
  ⟨.accountLogin, fd, some [⟨lit "token", .string annToken⟩], noJunk⟩

/-- `ann` logs in on connection 5, closes it, and comes back on connection 6 with her
token. -/
def annReturns : List ServerEvent :=
  [.request (rememberedLogin 5 "ann" "tea"), .disconnect 5, .request (tokenLogin 6)]

theorem sessions_authenticated_ann :
    ∃ s w, Reaches (traced (serverReport smallDb)) (PlainStep id)
        ((.init ⟨0, lit "", 0, .fd, lit "", 0⟩, [ann], ()), []) (s, w) ∧
      (∃ n ∈ s.1.sessionList, n.session.fd = 6) ∧
      Authenticated id w 6 (lit "ann") accountMenu := by
  obtain ⟨s, w, hrun, n, hn, hfd, htype, huid, haType⟩ :
      ∃ s w, Reaches (traced (serverReport smallDb)) (PlainStep id)
        ((.init ⟨0, lit "", 0, .fd, lit "", 0⟩, [ann], ()), []) (s, w) ∧
      ∃ n ∈ s.1.sessionList, n.session.fd = 6 ∧ n.session.sType = .fd ∧
        n.session.uid = lit "ann" ∧ n.session.aType = accountMenu :=
    ⟨_, _, reaches_of_exec annReturns rfl, _, List.mem_cons_of_mem _ List.mem_cons_self,
      rfl, rfl, rfl, rfl⟩
  have hauth := (sessions_authenticated hrun n hn).1 htype
  rw [hfd, huid, haType] at hauth
  exact ⟨s, w, hrun, ⟨n, hn, hfd⟩, hauth⟩

/-! ## Who changes the database -/

/-- The database of the server: the accounts, and the tables of the menu. -/
abbrev serverDb (sql : BrokenSql) (encryptPwd : CString → CString) (bookSql : BookSql) :
    Db (List Account × Menu × Unit) :=
  accountDb sql encryptPwd (menuDb bookSql emptyDb)

section Changes

variable {sql : BrokenSql} {encryptPwd : CString → CString} {bookSql : BookSql} {m m' : SessionMod}
  {d d' : List Account × Menu × Unit}

theorem interp_modest {e : Effect} (he : Modest e) {r : e.Result}
    (h : interp (serverDb sql encryptPwd bookSql) e (m, d) = some (r, m', d')) :
    d'.2 = d.2 := by
  cases e with
  | db op =>
    obtain ⟨⟩ := Option.some.inj h
    cases op with
    | bookAdd seatId dishId jinOrPlate comment => exact he.elim
    | bookDel bookId => exact he.elim
    | _ => rfl
  | dref session =>
    obtain ⟨⟩ := Option.some.inj h
    rfl
  | read session =>
    obtain ⟨⟩ := Option.some.inj h
    rfl
  | _ =>
    obtain ⟨x, -, ⟨⟩⟩ := Option.map_eq_some_iff.mp h
    rfl

/-- No call changes the dishes or the seats. -/
theorem interp_menu {e : Effect} {r : e.Result}
    (h : interp (serverDb sql encryptPwd bookSql) e (m, d) = some (r, m', d')) :
    d'.2.1.dishes = d.2.1.dishes ∧ d'.2.1.seats = d.2.1.seats := by
  by_cases he : Modest e
  · rw [interp_modest he h]
    exact ⟨rfl, rfl⟩
  cases e with
  | db op =>
    obtain ⟨⟩ := Option.some.inj h
    cases op with
    | bookAdd seatId dishId jinOrPlate comment => exact ⟨rfl, rfl⟩
    | bookDel bookId => exact ⟨rfl, rfl⟩
    | _ => exact (he trivial).elim
  | addFd session =>
    obtain ⟨x, -, ⟨⟩⟩ := Option.map_eq_some_iff.mp h
    exact ⟨rfl, rfl⟩
  | addToken session =>
    obtain ⟨x, -, ⟨⟩⟩ := Option.map_eq_some_iff.mp h
    exact ⟨rfl, rfl⟩
  | _ => exact (he trivial).elim

theorem Request.menu_kept {r : Request} {reply : Reply}
    (hexec : r.handler.exec (interp (serverDb sql encryptPwd bookSql)) (m, d) =
      some (reply, m', d')) : d'.2.1.dishes = d.2.1.dishes ∧ d'.2.1.seats = d.2.1.seats := by
  have honly : r.handler.Only fun _ => True :=
    (Task.only_handler ⟨⟨r.fd, 0⟩, .request r.kind r.pack r.junk⟩).mono fun _ _ => trivial
  refine honly.exec (I := fun s => s.2.2.1.dishes = d.2.1.dishes ∧ s.2.2.1.seats = d.2.1.seats) ?_
    ⟨rfl, rfl⟩ hexec
  rintro e - ⟨m₁, d₁⟩ x ⟨m₂, d₂⟩ ⟨hdishes, hseats⟩ hcall
  obtain ⟨hdishes', hseats'⟩ := interp_menu hcall
  exact ⟨hdishes'.trans hdishes, hseats'.trans hseats⟩

theorem Request.exec_modest {r : Request} (hr : r.handler.Only Modest) {reply : Reply}
    (hexec : r.handler.exec (interp (serverDb sql encryptPwd bookSql)) (m, d) =
      some (reply, m', d')) : d'.2 = d.2 := by
  refine hr.exec (I := fun s => s.2.2 = d.2) ?_ rfl hexec
  rintro e he ⟨m₁, d₁⟩ x ⟨m₂, d₂⟩ hs hcall
  exact (interp_modest he hcall).trans hs

/-- Without a session on its connection a request that is no login changes nothing in the
database. -/
theorem wp_without_session {δ : Type} {db : Db δ} {d : δ} (hm : Settled (fun _ _ _ => True) m)
    {r : Request} (hlogin : r.kind ≠ .accountLogin)
    (hno : ∀ n ∈ m.sessionList, n.session.fd ≠ r.fd) :
    r.handler.wp (interp db) (fun _ s => s.2 = d) (m, d) := by
  -- the handlers that check a permission refuse
  have hguard : ∀ {allowed code}, r.kind.guard = some (allowed, code) →
      r.handler.wp (interp db) (fun _ s => s.2 = d) (m, d) := by
    intro allowed code hguard
    refine (wp_refused hm hguard fun n hn hfd => (hno n hn hfd).elim).mono ?_
    rintro reply s ⟨rfl, -⟩
    rfl
  have hnone : ∀ {k : Option ℕ → Handler Reply},
      (k none).wp (interp db) (fun _ s => s.2 = d) (m, d) →
        (sessionRefFd r.fd >>= k).wp (interp db) (fun _ s => s.2 = d) (m, d) :=
    fun hk => wp_refFd hm (fun _ => hk) fun n hn hfd => (hno n hn hfd).elim
  obtain ⟨kind, fd, pack, junk⟩ := r
  cases kind with
  | heartbeat => exact hnone rfl
  | accountLogin => exact (hlogin rfl).elim
  | accountLogout => exact hnone rfl
  | accountCreate =>
    simp only [Request.handler, resAccountCreate]
    split
    · exact hnone rfl
    · rfl
  | accountModifyPwd =>
    simp only [Request.handler, resAccountModifyPwd]
    split_ifs
    · rfl
    · rfl
    · exact hnone rfl
  | accountModifyBasic => exact hnone rfl
  | accountDelete =>
    simp only [Request.handler, resAccountDelete]
    split
    · exact hnone rfl
    · rfl
  | _ => exact hguard rfl

/-- A request that changes the database is no login, and a session is on its connection. -/
theorem Request.changes {r : Request} (hm : Settled (fun _ _ _ => True) m) {reply : Reply}
    (hexec : r.handler.exec (interp (serverDb sql encryptPwd bookSql)) (m, d) =
      some (reply, m', d')) (hchanged : d' ≠ d) : ∃ n ∈ m.sessionList, n.session.fd = r.fd := by
  by_contra hno
  have hno : ∀ n ∈ m.sessionList, n.session.fd ≠ r.fd := fun n hn hfd => hno ⟨n, hn, hfd⟩
  by_cases hlogin : r.kind = .accountLogin
  · have hhandler : r.handler = resAccountLogin r.junk r.fd r.pack := by
      simp only [Request.handler, hlogin]
    rw [hhandler] at hexec
    exact hchanged (Reads.exec (reads_resAccountLogin r.junk r.fd r.pack) hexec)
  · exact hchanged ((wp_without_session hm hlogin hno).of_exec hexec)

/-- A request that is neither an order nor a cancellation leaves the tables of the menu
alone. -/
theorem Request.tables_kept {r : Request} (hbook : r.kind ≠ .dishBook)
    (hcancel : r.kind ≠ .dishCancel) {reply : Reply}
    (hexec : r.handler.exec (interp (serverDb sql encryptPwd bookSql)) (m, d) =
      some (reply, m', d')) : d'.2 = d.2 := by
  by_cases hlogin : r.kind = .accountLogin
  · have hhandler : r.handler = resAccountLogin r.junk r.fd r.pack := by
      simp only [Request.handler, hlogin]
    rw [hhandler] at hexec
    obtain rfl : d' = d := Reads.exec (reads_resAccountLogin r.junk r.fd r.pack) hexec
    rfl
  · exact Request.exec_modest (r.modest hlogin hbook hcancel) hexec

/-- A request that changes the bookings is an order or a cancellation, and a session of an
allowed role is on its connection. -/
theorem Request.changes_books {r : Request} (hm : Settled (fun _ _ _ => True) m) {reply : Reply}
    (hexec : r.handler.exec (interp (serverDb sql encryptPwd bookSql)) (m, d) =
      some (reply, m', d')) (hchanged : d'.2.1.books ≠ d.2.1.books) :
    (r.kind = .dishBook ∨ r.kind = .dishCancel) ∧ ∃ n ∈ m.sessionList, n.session.fd = r.fd ∧
      (n.session.aType = accountMenu ∨ n.session.aType = accountAdmin) := by
  have hkind : r.kind = .dishBook ∨ r.kind = .dishCancel := by
    by_contra hother
    obtain ⟨hbook, hcancel⟩ := not_or.mp hother
    exact hchanged (by rw [Request.tables_kept hbook hcancel hexec])
  refine ⟨hkind, ?_⟩
  by_contra hno
  have hrefused : Refused m r.fd fun t => t = accountMenu || t = accountAdmin := by
    intro n hn hfd
    by_contra hallowed
    have hrole : n.session.aType = accountMenu ∨ n.session.aType = accountAdmin := by
      simpa [or_iff_not_imp_left] using hallowed
    exact hno ⟨n, hn, hfd, hrole⟩
  have hguard : r.kind.guard =
      some (fun t => t = accountMenu || t = accountAdmin,
        (DishResult.noPermission.ctorIdx : ℤ)) := by
    rcases hkind with hkind | hkind
    · rw [hkind]
      rfl
    · rw [hkind]
      rfl
  obtain ⟨⟨⟩, -⟩ := (wp_refused hm hguard hrefused).of_exec hexec
  exact hchanged rfl

end Changes

/-- In every run of the server with its tables, of plain requests and disconnects: a step that
changes the database is a request on a connection whose user has logged in, with no logout
and no disconnect since. If it changes a booking, the request is an order or a
cancellation and the user's account was one of a menu or an administrator at its login by
password. The dishes and the seats never change. -/
theorem changes_authenticated {sql : BrokenSql} {encryptPwd : CString → CString} {bookSql : BookSql}
    {freed : Session} {d₀ : List Account × Menu × Unit}
    {s s' : SessionMod × List Account × Menu × Unit}
    {w : List (Entry (List Account × Menu × Unit))}
    (h : Reaches (traced (serverReport (serverDb sql encryptPwd bookSql))) (PlainStep encryptPwd)
      ((.init freed, d₀), []) (s, w)) {e : ServerEvent} (hplain : PlainStep encryptPwd s e)
    (hstep : serverStep (serverDb sql encryptPwd bookSql) s e = some s') :
    (s'.2 ≠ s.2 → ∃ r uid type, e = .request r ∧
      Authenticated encryptPwd w r.fd uid type) ∧
    (s'.2.2.1.books ≠ s.2.2.1.books → ∃ r uid type, e = .request r ∧
      (r.kind = .dishBook ∨ r.kind = .dishCancel) ∧
      Authenticated encryptPwd w r.fd uid type ∧
      (type = accountMenu ∨ type = accountAdmin)) ∧
    s'.2.2.1.dishes = s.2.2.1.dishes ∧ s'.2.2.1.seats = s.2.2.1.seats := by
  have hs := recorded_of_reaches h
  obtain ⟨m, d⟩ := s
  cases e with
  | disconnect fd =>
    obtain ⟨⟨b, m'⟩, -, rfl⟩ := Option.map_eq_some_iff.mp hstep
    exact ⟨fun hchanged => (hchanged rfl).elim, fun hchanged => (hchanged rfl).elim, rfl, rfl⟩
  | request r =>
    rcases hs.settled with hm | hlocked
    · obtain ⟨⟨reply, m', d'⟩, hexec, rfl⟩ := Option.map_eq_some_iff.mp hstep
      -- the session of a connection is one of its trace
      have hauth : ∀ n ∈ m.sessionList, n.session.fd = r.fd →
          Authenticated encryptPwd w r.fd n.session.uid n.session.aType := by
        intro n hn hfd
        have htype : n.session.sType = .fd := hs.unique.sType_of_fd hn (by omega) hfd
        have haccounted := hs.accounted n hn
        rw [← hfd]
        simpa only [Accounted, htype] using haccounted
      refine ⟨fun hchanged => ?_, fun hchanged => ?_, Request.menu_kept hexec⟩
      · obtain ⟨n, hn, hfd⟩ := Request.changes hm hexec hchanged
        exact ⟨r, _, _, rfl, hauth n hn hfd⟩
      · obtain ⟨hkind, n, hn, hfd, hrole⟩ := Request.changes_books hm hexec hchanged
        exact ⟨r, _, _, rfl, hkind, hauth n hn hfd, hrole⟩
    · obtain rfl := serverStep_locked hlocked hstep
      exact ⟨fun hchanged => (hchanged rfl).elim, fun hchanged => (hchanged rfl).elim, rfl, rfl⟩

/-- A database whose statements all parse. -/
abbrev plainDb : Db (List Account × Menu × Unit) :=
  serverDb ⟨fun _ _ => [], fun _ rows => (false, rows)⟩ id plainSql

/-- `ann` logs in and orders. -/
theorem changes_authenticated_ann :
    ∃ s s' w, Reaches (traced (serverReport plainDb)) (PlainStep id)
        ((.init ⟨0, lit "", 0, .fd, lit "", 0⟩, [ann], smallMenu 1 2, ()), []) (s, w) ∧
      serverStep plainDb s (.request ⟨.dishBook, 5, orderPack "hot", noJunk⟩) = some s' ∧
      s'.2.2.1.books.length = 2 ∧ ∃ uid type,
        Authenticated id w 5 uid type ∧ (type = accountMenu ∨ type = accountAdmin) := by
  obtain ⟨s, s', w, hrun, hstep, hlength, hlength'⟩ :
      ∃ s s' w, Reaches (traced (serverReport plainDb)) (PlainStep id)
        ((.init ⟨0, lit "", 0, .fd, lit "", 0⟩, [ann], smallMenu 1 2, ()), []) (s, w) ∧
      serverStep plainDb s (.request ⟨.dishBook, 5, orderPack "hot", noJunk⟩) = some s' ∧
      s.2.2.1.books.length = 1 ∧ s'.2.2.1.books.length = 2 :=
    ⟨_, _, _, reaches_of_exec [.request (loginRequest 5 "ann" "tea" noJunk)] rfl, rfl, rfl, rfl⟩
  have horder : Request.Plain id ⟨.dishBook, 5, orderPack "hot", noJunk⟩ := by decide
  have hplain : PlainStep id s (.request ⟨.dishBook, 5, orderPack "hot", noJunk⟩) := by
    rwa [PlainStep]
  obtain ⟨-, hbooks, -⟩ := changes_authenticated hrun hplain hstep
  have hchanged : s'.2.2.1.books ≠ s.2.2.1.books := by
    intro heq
    rw [heq, hlength] at hlength'
    cases hlength'
  obtain ⟨r, uid, type, ⟨⟩, -, hauth, hrole⟩ := hbooks hchanged
  exact ⟨s, s', w, hrun, hstep, hlength', uid, type, hauth, hrole⟩

end Youmenu.Server
