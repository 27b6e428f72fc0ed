import Youmenu.Client.Requests
import Youmenu.Server.Authentication

/-!
# Whom a client is logged in as: `req_account.c`

A client keeps a session of its own beside that of the server. It makes it from the answer to a
login, tests the type of the account in it before each request, and frees it before a logout is
sent. A login is sent, handled, answered and heard, and between these the client may give it up,
another client may log in as the same user, and the server may end a session without telling the
client. An answer is matched with a request by its category alone, so a login can be given the
answer to an earlier one.

## Main definitions

* `loginReply`, `login2Reply` — the sessions that the two logins read from an answer.
* `Line`, `World.step` — a connection with the logins and the answers under way on it, and what
  can happen on all of them and in the server.
* `PwdAnswer`, `TokenAnswer` — what the server answers to a login.
* `Asks` — what is known of a login that is under way.
* `World.Agreed` — what the two sides have in common.
-/

namespace Youmenu.Client

open Eventpack Server Program Transition

/-! ## The source -/

/-- `client_session_t`. -/
structure ClientSession where
  result : ℤ
  account : Account
  token : CString

/-- The session that a loop over an answer starts with, after `memset`. -/
def ClientSession.start : ClientSession :=
  ⟨AccountResult.illegalParameter.ctorIdx, ⟨0, lit "", lit "", lit "", lit ""⟩, lit ""⟩

/-- The loop of `client_account_login`; the name is the one that the caller gave. `behind` is
what stands behind an array that is full. -/
def loginReply (behind : String → CString) (uid : CString) (fields : List PackField) :
    ClientSession :=
  let session := fields.foldl (fun s f =>
    if f.key = lit "result" then { s with result := f.value.toInt }
    else if f.key = lit "type" then { s with account := { s.account with type := f.value.toInt } }
    else if f.key = lit "nick" then
      { s with account :=
        { s.account with nick := strncpy 65 f.value.toCString (behind "nick") } }
    else if f.key = lit "comment" then
      { s with account :=
        { s.account with comment := strncpy 257 f.value.toCString (behind "comment") } }
    else if f.key = lit "token" then
      { s with token := strncpy 39 f.value.toCString (behind "token") }
    else s) ClientSession.start
  { session with account := { session.account with uid := uid, pwd := lit "" } }

/-- The loop of `client_account_login2`; the token is the one that the caller gave. -/
def login2Reply (behind : String → CString) (token : CString) (fields : List PackField) :
    ClientSession :=
  let session := fields.foldl (fun s f =>
    if f.key = lit "result" then { s with result := f.value.toInt }
    else if f.key = lit "type" then { s with account := { s.account with type := f.value.toInt } }
    else if f.key = lit "uid" then
      { s with account := { s.account with uid := strncpy 17 f.value.toCString (behind "uid") } }
    else if f.key = lit "nick" then
      { s with account :=
        { s.account with nick := strncpy 65 f.value.toCString (behind "nick") } }
    else if f.key = lit "comment" then
      { s with account :=
        { s.account with comment := strncpy 257 f.value.toCString (behind "comment") } }
    else s) ClientSession.start
  { session with account := { session.account with pwd := lit "" }, token := token }

/-- The result with which `connect->session` is set. -/
def ClientSession.loggedOn (s : ClientSession) : Bool :=
  s.result = AccountResult.ok.ctorIdx ||
    s.result = AccountResult.loginOkConflictAnotherAddress.ctorIdx

/-- What the iterator of a client finds: the bytes of the answer are made a pack again, and the
client hears nothing if that fails. -/
def receivedReply (junk : List UInt8) (reply : Reply) : Option (List PackField) := do
  let sent ← epPackFinish junk reply
  let pack ← (epPackCreate (epPackData sent) (epPackSize sent)).join
  let elems ← packElems (pack.data.length + 1) (epPackIteratorGet pack)
  return elems.map elemField

/-- `client_heartbeat`, with the answer if one came. -/
def clientHeartbeat (answer : Option (List PackField)) : ℤ :=
  match answer with
  | none => 0
  | some fields => ((fields.find? (·.key = lit "result")).map (·.value.toInt)).getD 0

/-! ## The server and its clients -/

/-- A session that a client keeps, and the login that it comes from. -/
structure Login where
  session : ClientSession
  byToken : Bool

/-- A login under way to the server, or an answer to one under way back. It is late once the
client has given the login up. -/
structure Mail where
  fields : List PackField
  late : Bool

def Mail.givenUp (m : Mail) : Mail :=
  { m with late := true }

/-- A connection: the session of its client, `connect->session`, what a login that waits makes of
an answer, and the logins and the answers to logins that are under way. -/
structure Line where
  session : Option Login
  waiting : Option (List PackField → Login)
  requests : List Mail
  answers : List Mail

namespace Line

def init : Line :=
  ⟨none, none, [], []⟩

/-- A login is sent, as the server will read it, and waits. -/
def ask (c : Line) (request : Option (List PackField)) (read : List PackField → Login) : Line :=
  { c with
    waiting := some read
    requests := c.requests ++ (request.map (Mail.mk · false)).toList }

/-- No login waits any more, and what is under way is late. -/
def giveUp (c : Line) : Line :=
  { c with
    waiting := none
    requests := c.requests.map Mail.givenUp
    answers := c.answers.map Mail.givenUp }

/-- The end of a login: `connect->session` is set if the result says so. -/
def record (c : Line) (l : Login) : Line :=
  if l.session.loggedOn then { c with session := some l } else c

/-- The first answer comes. A login that waits takes it for its own, and is over; else the answer
is thrown away. -/
def hear (c : Line) : Line :=
  match c.answers with
  | [] => c
  | answer :: rest =>
    match c.waiting with
    | none => { c with answers := rest }
    | some read => ({ c with answers := rest }).giveUp.record (read answer.fields)

def withoutRequest (c : Line) (i : ℕ) : Line :=
  { c with requests := c.requests.eraseIdx i }

def withoutAnswer (c : Line) (i : ℕ) : Line :=
  { c with answers := c.answers.eraseIdx i }

/-- The server answers a login. -/
def answer (c : Line) (late : Bool) (fields : Option (List PackField)) : Line :=
  { c with answers := c.answers ++ (fields.map (Mail.mk · late)).toList }

/-- The session of the client is gone before the request of a logout is sent. -/
def logOff (c : Line) : Line :=
  { c with session := none }

/-- The connection is closed, and its number is free for another. The logins that were sent on it
stay in the queue of the server. -/
def close (c : Line) : Line :=
  { c.giveUp with session := none, answers := [] }

end Line

structure World (δ : Type) where
  server : SessionMod × δ
  line : ℕ → Line

/-- What happens, with what the memory holds where the source has not written: `memory` under a
pack, `behind` in the session of the client and `junk` on the stack of the handler. -/
inductive WorldEvent where
  | login (fd : ℕ) (uid pwd : CString) (tokenExpire : BitVec 32) (memory : List UInt8)
    (behind : String → CString)
  | login2 (fd : ℕ) (token : CString) (memory : List UInt8) (behind : String → CString)
  | giveUp (fd : ℕ)
  /-- The handler of a login that is under way runs, the `i`-th of its connection. -/
  | handle (fd i : ℕ) (junk : Junk) (memory : List UInt8)
  | loseRequest (fd i : ℕ)
  | loseAnswer (fd i : ℕ)
  | hear (fd : ℕ)
  | logout (fd : ℕ)
  /-- The handler of any other request runs, also of a login by a client that is not from this
  repository. -/
  | request (r : Server.Request) (memory : List UInt8)
  | disconnect (fd : ℕ)

namespace World

variable {δ : Type} (db : Db δ)

/-- The server has started, and no client has logged in. -/
def init (s : SessionMod × δ) : World δ :=
  ⟨s, fun _ => .init⟩

/-- What the functions of the client see of their connection. -/
def connect (w : World δ) (fd : ℕ) : Option Connect :=
  some ⟨(w.line fd).session.map (·.session.account.type)⟩

def setLine (w : World δ) (fd : ℕ) (c : Line) : World δ :=
  { w with line := Function.update w.line fd c }

/-- The handler of a request runs. -/
def serve (w : World δ) (r : Server.Request) : Option (Reply × World δ) :=
  (r.handler.exec (interp db) w.server).map fun x => (x.1, { w with server := x.2 })

/-- The handler of a login runs, and its answer is sent behind those that are under way. -/
def serveLogin (w : World δ) (r : Server.Request) (late : Bool) (memory : List UInt8) :
    Option (World δ) :=
  (w.serve db r).map fun x =>
    x.2.setLine r.fd ((w.line r.fd).answer late (receivedReply memory x.1))

def step (w : World δ) : WorldEvent → Option (World δ)
  | .login fd uid pwd tokenExpire memory behind =>
    match clientAccountLogin (w.connect fd) uid pwd tokenExpire with
    | .error _ => some w
    | .ok elems => some (w.setLine fd ((w.line fd).ask (received memory elems) fun answer =>
      ⟨loginReply behind uid answer, false⟩))
  | .login2 fd token memory behind =>
    match clientAccountLogin2 (w.connect fd) token with
    | .error _ => some w
    | .ok elems => some (w.setLine fd ((w.line fd).ask (received memory elems) fun answer =>
      ⟨login2Reply behind token answer, true⟩))
  | .giveUp fd => some (w.setLine fd (w.line fd).giveUp)
  | .handle fd i junk memory =>
    match ((w.line fd).requests.drop i).head? with
    | none => none
    | some mail => (w.setLine fd ((w.line fd).withoutRequest i)).serveLogin db
      ⟨.accountLogin, fd, some mail.fields, junk⟩ mail.late memory
  | .loseRequest fd i => some (w.setLine fd ((w.line fd).withoutRequest i))
  | .loseAnswer fd i => some (w.setLine fd ((w.line fd).withoutAnswer i))
  | .hear fd => some (w.setLine fd (w.line fd).hear)
  | .logout fd => some (w.setLine fd (w.line fd).logOff)
  | .request r memory =>
    if r.kind = .accountLogin then w.serveLogin db r true memory
    else (w.serve db r).map (·.2)
  | .disconnect fd => (serverStep db w.server (.disconnect fd)).map fun s =>
      { w with server := s }.setLine fd (w.line fd).close

end World

/-! ## Answers in bytes -/

/-- An answer that can be encoded is read as it was written, if it is read at all. -/
theorem receivedReply_flat {elems : List PackElem} (hflat : ∀ e ∈ elems, Flat e)
    (hsmall : 3 * packLength elems ≤ int32Max) {junk : List UInt8} (hj : junk.length = 4)
    {fields : List PackField} (h : receivedReply junk (elemsOps elems) = some fields) :
    fields = elems.map elemField := by
  have heq : received junk elems = _ := received_eq (ok_of_flat hflat) hsmall hj
  have h : received junk elems = some fields := h
  rw [heq] at h
  split_ifs at h
  exact (Option.some.inj h).symm

/-- The account can be sent: its strings are valid, and not longer than a packet. -/
structure Sendable (a : Account) : Prop where
  uid : ValidUtf8 a.uid.bytes
  nick : ValidUtf8 a.nick.bytes
  comment : ValidUtf8 a.comment.bytes
  small : a.uid.bytes.length + a.nick.bytes.length + a.comment.bytes.length ≤ 2 ^ 20

instance (a : Account) : Decidable (Sendable a) :=
  decidable_of_iff (ValidUtf8 a.uid.bytes ∧ ValidUtf8 a.nick.bytes ∧ ValidUtf8 a.comment.bytes ∧
    a.uid.bytes.length + a.nick.bytes.length + a.comment.bytes.length ≤ 2 ^ 20)
    ⟨fun h => ⟨h.1, h.2.1, h.2.2.1, h.2.2.2⟩, fun h => ⟨h.uid, h.nick, h.comment, h.small⟩⟩

/-- The result of an answer as an element. -/
def resultElem (r : AccountResult) : PackElem := intElem "result" r.ctorIdx

/-- The results of a login that is accepted. -/
def loginCode (conflict : Bool) : AccountResult :=
  if conflict then .loginOkConflictAnotherAddress else .ok

/-- The answer to a login by password that is accepted. -/
def pwdElems (token : Option CString) (a : Account) (conflict : Bool) : List PackElem :=
  (token.map (strElem "token")).toList ++ [intElem "type" a.type, strElem "nick" a.nick,
    strElem "comment" a.comment, resultElem (loginCode conflict)]

/-- The answer to a login by token that is accepted. -/
def tokenElems (a : Account) (conflict : Bool) : List PackElem :=
  [intElem "type" a.type, strElem "uid" a.uid, strElem "nick" a.nick,
    strElem "comment" a.comment, resultElem (loginCode conflict)]

theorem flat_intElem {key : String} (hkey : ValidUtf8 (lit key).bytes) (n : ℤ) :
    Flat (intElem key n) := .int hkey

section Read

variable {a : Account} {token : Option CString} {conflict : Bool} {junk : List UInt8}
  {fields : List PackField}

/-- An answer that is a result alone. -/
theorem receivedReply_result {n : ℤ} (hj : junk.length = 4)
    (h : receivedReply junk [appendInt "result" n] = some fields) :
    fields = [intElem "result" n].map elemField := by
  have hflat : ∀ e ∈ [intElem "result" n], Flat e :=
    forall_flat (flat_intElem (by decide) _) forall_flat_nil
  have hsmall : 3 * packLength [intElem "result" n] ≤ int32Max := by
    rw [intElem, packLength_int, packLength_nil]
    decide
  exact receivedReply_flat hflat hsmall hj h

theorem receivedReply_pwd (ha : Sendable a)
    (htoken : ∀ t ∈ token, ValidUtf8 t.bytes ∧ t.bytes.length = 38) (hj : junk.length = 4)
    (h : receivedReply junk (elemsOps (pwdElems token a conflict)) = some fields) :
    fields = (pwdElems token a conflict).map elemField := by
  have hrest : ∀ e ∈ [intElem "type" a.type, strElem "nick" a.nick, strElem "comment" a.comment,
      resultElem (loginCode conflict)], Flat e :=
    forall_flat (flat_intElem (by decide) _) <| forall_flat (.string (by decide) ha.nick) <|
      forall_flat (.string (by decide) ha.comment) <|
        forall_flat (flat_intElem (by decide) _) forall_flat_nil
  have hlength : packLength [intElem "type" a.type, strElem "nick" a.nick,
      strElem "comment" a.comment, resultElem (loginCode conflict)] =
        4 + 6 + (4 + a.nick.bytes.length + 7 + (7 + a.comment.bytes.length + 7 + (6 + 6 + 5))) := by
    rw [intElem, packLength_int, packLength_string, packLength_string, resultElem, intElem,
      packLength_int, packLength_nil]
    rfl
  have hsum := ha.small
  have hmax : int32Max = 2147483647 := rfl
  cases token with
  | none => exact receivedReply_flat hrest (by omega) hj h
  | some t =>
    obtain ⟨hvalid, hlen⟩ := htoken t rfl
    have hkey : (lit "token").bytes.length = 5 := rfl
    have htoken : Flat (strElem "token" t) := .string (by decide) hvalid
    refine receivedReply_flat (forall_flat htoken hrest) ?_ hj h
    rw [packLength_string]
    omega

theorem receivedReply_token (ha : Sendable a) (hj : junk.length = 4)
    (h : receivedReply junk (elemsOps (tokenElems a conflict)) = some fields) :
    fields = (tokenElems a conflict).map elemField := by
  have hflat : ∀ e ∈ tokenElems a conflict, Flat e :=
    forall_flat (flat_intElem (by decide) _) <| forall_flat (.string (by decide) ha.uid) <|
      forall_flat (.string (by decide) ha.nick) <| forall_flat (.string (by decide) ha.comment) <|
        forall_flat (flat_intElem (by decide) _) forall_flat_nil
  have hlength : packLength (tokenElems a conflict) =
      4 + 6 + (3 + a.uid.bytes.length + 7 + (4 + a.nick.bytes.length + 7 +
        (7 + a.comment.bytes.length + 7 + (6 + 6 + 5)))) := by
    rw [tokenElems, intElem, packLength_int, packLength_string, packLength_string,
      packLength_string, resultElem, intElem, packLength_int, packLength_nil]
    rfl
  have hsum := ha.small
  have hmax : int32Max = 2147483647 := rfl
  exact receivedReply_flat hflat (by omega) hj h

/-- The client does not take a refusal for a session. -/
theorem not_loggedOn_refused {r : AccountResult} (hok : r ≠ .ok)
    (hconflict : r ≠ .loginOkConflictAnotherAddress) (behind : String → CString) (s : CString) :
    (loginReply behind s ([intElem "result" r.ctorIdx].map elemField)).loggedOn = false ∧
      (login2Reply behind s ([intElem "result" r.ctorIdx].map elemField)).loggedOn = false := by
  cases r with
  | ok => exact absurd rfl hok
  | loginOkConflictAnotherAddress => exact absurd rfl hconflict
  | _ => exact ⟨rfl, rfl⟩

theorem loginReply_account (a : Account) (token : Option CString) (conflict : Bool)
    (behind : String → CString) (uid : CString) :
    let account := (loginReply behind uid ((pwdElems token a conflict).map elemField)).account
    account.uid = uid ∧ account.type = (BitVec.ofInt 32 a.type).toInt := by
  cases token with
  | none => exact ⟨rfl, rfl⟩
  | some t => exact ⟨rfl, rfl⟩

theorem login2Reply_uid (huid : a.uid.bytes.length < 17) (behind : String → CString)
    (token : CString) :
    (login2Reply behind token ((tokenElems a conflict).map elemField)).account.uid = a.uid := by
  have hread : (login2Reply behind token ((tokenElems a conflict).map elemField)).account.uid =
      strncpy 17 a.uid (behind "uid") := rfl
  rw [hread, strncpy_eq huid]

end Read

/-! ## What the server answers to a login -/

/-- The login was refused. -/
def Refusal (reply : Reply) : Prop :=
  ∃ r : AccountResult, r ≠ .ok ∧ r ≠ .loginOkConflictAnotherAddress ∧ reply = [r.append]

theorem refusal {r : AccountResult} (hok : r ≠ .ok)
    (hconflict : r ≠ .loginOkConflictAnotherAddress) : Refusal [r.append] :=
  ⟨r, hok, hconflict, rfl⟩

/-- The sessions on the connection are of the user, and of the type. -/
def Serves (m : SessionMod) (fd : ℕ) (uid : CString) (type : ℤ) : Prop :=
  ∀ n ∈ m.sessionList, n.session.fd = fd → n.session.uid = uid ∧ n.session.aType = type

/-- A login by password is refused, or the session on the connection has the name that was
given and the type that the answer tells. -/
def PwdAnswer (rows : List Account) (m : SessionMod) (fd : ℕ) (uid guid : CString)
    (reply : Reply) : Prop :=
  Refusal reply ∨ ∃ a ∈ rows, ∃ (token : Option CString) (conflict : Bool),
    (∀ t ∈ token, t = guid) ∧ reply = elemsOps (pwdElems token a conflict) ∧ Serves m fd uid a.type

/-- A login by token is refused, or the session on the connection has the name that the answer
tells. -/
def TokenAnswer (rows : List Account) (m : SessionMod) (fd : ℕ) (reply : Reply) : Prop :=
  Refusal reply ∨ ∃ a ∈ rows, ∃ (type : ℤ) (conflict : Bool),
    reply = elemsOps (tokenElems a conflict) ∧ Serves m fd a.uid type

section Answers

variable {ρ : Type} {sql : BrokenSql} {encryptPwd : CString → CString} {other : Db ρ}
  {m : SessionMod} {rows : List Account} {o : ρ} {fd : ℕ}

theorem loginResult_eq (conflict : Bool) : loginResult conflict = (loginCode conflict).append := by
  cases conflict <;> rfl

/-- After a login has dropped the sessions in its way, its own is the only one on the
connection. -/
theorem serves_insert (hm : Keyed m) (fd : ℕ) (s : Session) :
    Serves ((m.remove (endedBy s.uid fd)).insert (sessionForFd s)) fd s.uid s.aType := by
  intro n hn hfd
  rcases List.mem_append.mp hn with hn | hn
  · have hkept := hm.freeFor s.uid fd n hn
    exact absurd hfd hkept.2
  · obtain rfl := List.mem_singleton.mp hn
    exact ⟨rfl, rfl⟩

theorem returns_loginToken (s : Session) (guid : CString) :
    (loginToken s guid).Returns (· = [appendString "token" guid]) := by
  refine returns_perform fun old => (returns_true _).bind fun _ _ => ?_
  exact returns_perform fun _ => rfl

/-- The token of a login is in the answer, and adds nothing on a connection. -/
theorem wp_loginToken_within {δ : Type} {db : Db δ} {d : δ} (hm : Settled (fun _ _ _ => True) m)
    (s : Session) (guid : CString) :
    (loginToken s guid).wp (interp db) (fun reply s => reply = [appendString "token" guid] ∧
      Within (fun t => t.fd = -1) m s.1) (m, d) := by
  have hwithin : (loginToken s guid >>= ret).wp (interp db)
      (fun _ s => Within (fun t => t.fd = -1) m s.1) (m, d) :=
    (Within.refl hm).wp_loginToken (A := fun t => t.fd = -1) rfl fun _ m' hm' => hm'
  obtain ⟨reply, s', hexec, hm'⟩ := wp_iff_exec.mp (wp_bind.mp hwithin)
  exact wp_iff_exec.mpr ⟨reply, s', hexec, (returns_loginToken s guid).exec hexec, hm'⟩

theorem Serves.within {m' : SessionMod} {uid : CString} {type : ℤ} (h : Serves m fd uid type)
    (hm' : Within (fun t => t.fd = -1) m m') : Serves m' fd uid type := by
  intro n hn hfd
  rcases hm'.2 n hn with hn | hnone
  · exact h n hn hfd
  · omega

theorem wp_loginByPwd_answer (hm : Keyed m) (junk : Junk) {p : LoginParam}
    (hfree : QuoteFree p.uid) :
    (loginByPwd junk fd p).wp (interp (accountDb sql encryptPwd other))
      (fun reply s => PwdAnswer rows s.1 fd p.uid junk.guid reply) (m, rows, o) := by
  refine wp_db.mpr ?_
  split
  · exact .inl (refusal (by decide) (by decide))
  refine wp_db.mpr ?_
  split
  · refine wp_checkSessionExist_eq hm ?_
    refine wp_db.mpr ?_
    split
    · exact .inl (refusal (by decide) (by decide))
    next a ha =>
    obtain ⟨ha, -⟩ := dbAccountGetOne_some hfree ha
    let s : Session := ⟨a.type, p.uid, junk.admin, .fd, lit "", fd⟩
    have hadd := (hm.freeFor p.uid fd).conflict (s := s) rfl rfl
    have hadded := (hm.remove (endedBy p.uid fd)).insert_fd (s := s) (by simp [s]) hadd
    have hserves := serves_insert hm fd s
    refine (wp_addFd_free (hm.remove _).settled hadd).mpr ?_
    split
    · refine wp_bind.mpr ((wp_loginToken_within hadded.settled s junk.guid).mono ?_)
      rintro _ ⟨m', d⟩ ⟨rfl, hm'⟩
      refine .inr ⟨a, ha, some junk.guid, m.sessionList.any (endedBy p.uid fd), by simp, ?_,
        hserves.within hm'⟩
      rw [loginResult_eq]
      rfl
    · refine .inr ⟨a, ha, none, m.sessionList.any (endedBy p.uid fd), by simp, ?_, hserves⟩
      rw [loginResult_eq]
      rfl
  · exact .inl (refusal (by decide) (by decide))

theorem wp_loginByToken_answer (hm : Keyed m) (token : CString)
    (hfree : ∀ n ∈ m.sessionList, QuoteFree n.session.uid) :
    (loginByToken fd token).wp (interp (accountDb sql encryptPwd other))
      (fun reply s => TokenAnswer rows s.1 fd reply) (m, rows, o) := by
  refine wp_refToken hm.settled (fun _ => .inl (refusal (by decide) (by decide))) fun n hn _ => ?_
  rw [wp_read hm.settled hn, wp_dref hm.settled hn]
  refine wp_checkSessionExist_eq hm ?_
  let s : Session := { n.session with sType := .fd, fd := fd, token := lit "" }
  have hadd := (hm.freeFor n.session.uid fd).conflict (s := s) rfl rfl
  have hserves := serves_insert hm fd s
  refine (wp_addFd_free (hm.remove _).settled hadd).mpr ?_
  refine wp_db.mpr ?_
  split
  · exact .inl (refusal (by decide) (by decide))
  next a ha =>
  obtain ⟨ha, huid⟩ := dbAccountGetOne_some (hfree n hn) ha
  refine .inr ⟨a, ha, s.aType, m.sessionList.any (endedBy n.session.uid fd), ?_, huid ▸ hserves⟩
  rw [loginResult_eq]
  rfl

end Answers

section Locked

variable {δ α : Type} {db : Db δ} {m : SessionMod} {d : δ} {Q : α → SessionMod × δ → Prop}
  {k : Option ℕ → Handler α}

theorem wlp_db {op : DbOp} {k : op.Result → Handler α}
    (hk : (k (db op d).1).wlp (interp db) Q (m, (db op d).2)) :
    (Server.db op >>= k).wlp (interp db) Q (m, d) := by
  refine wlp_call fun r s' hcall => ?_
  obtain ⟨rfl, rfl⟩ := Prod.mk.inj (Option.some.inj hcall)
  exact hk

variable (hlocked : m.locked = true)

include hlocked

/-- While the lock is kept, a lookup that returns has found nothing. -/
theorem wlp_refFd_locked {fd : ℤ} (hk : (k none).wlp (interp db) Q (m, d)) :
    (sessionRefFd fd >>= k).wlp (interp db) Q (m, d) := by
  refine wlp_call fun r s' hcall => ?_
  obtain ⟨rfl, rfl⟩ := lookup_locked hlocked hcall
  exact hk

theorem wlp_refUid_locked {uid : CString} {type : SessionType}
    (hk : (k none).wlp (interp db) Q (m, d)) :
    (sessionRefUid uid type >>= k).wlp (interp db) Q (m, d) := by
  refine wlp_call fun r s' hcall => ?_
  obtain ⟨rfl, rfl⟩ := lookup_locked hlocked hcall
  exact hk

/-- Without the lock no session is added. -/
theorem wlp_addFd_locked {s : Session} {k : Bool → Handler α} :
    (sessionAddFd s >>= k).wlp (interp db) Q (m, d) := by
  refine wlp_call fun r s' hcall => ?_
  simp [interp, SessionMod.add, SessionMod.lock, hlocked] at hcall

theorem wlp_refToken_locked {token : CString} (hk : (k none).wlp (interp db) Q (m, d)) :
    (sessionRefToken token >>= k).wlp (interp db) Q (m, d) := by
  refine wlp_call fun r s' hcall => ?_
  obtain ⟨⟨r', m'⟩, href, ⟨⟩⟩ := Option.map_eq_some_iff.mp hcall
  unfold SessionMod.refToken at href
  split at href
  · obtain ⟨⟩ := Option.some.inj href
    exact hk
  · simp [SessionMod.lock, hlocked] at href

theorem wlp_resAccountLogin_locked (junk : Junk) (fd : ℕ) (pack : Pack) :
    (resAccountLogin junk fd pack).wlp (interp db) (fun reply _ => Refusal reply) (m, d) := by
  simp only [resAccountLogin]
  split_ifs
  · refine wlp_db ?_
    split
    · exact wlp_ret (refusal (by decide) (by decide))
    refine wlp_db ?_
    split
    · refine wlp_refUid_locked hlocked (wlp_refFd_locked hlocked (wlp_db ?_))
      split
      · exact wlp_ret (refusal (by decide) (by decide))
      · exact wlp_addFd_locked hlocked
    · exact wlp_ret (refusal (by decide) (by decide))
  · refine wlp_refToken_locked hlocked ?_
    exact wlp_ret (refusal (by decide) (by decide))
  · exact wlp_ret (refusal (by decide) (by decide))

end Locked

/-! ## What the two sides have in common -/

/-- The names that the sessions of the server have. -/
def UserName (uid : CString) : Prop :=
  QuoteFree uid ∧ uid.bytes.length ≤ 16 ∧ wordToLower uid = uid

/-- The client takes itself for the user of the session, in the spelling that it was given. After
a login by password it also knows the type that the session has. -/
def Login.Matches (l : Login) (s : Session) : Prop :=
  s.uid = wordToLower l.session.account.uid ∧
    (l.byToken = false → l.session.account.type = (BitVec.ofInt 32 s.aType).toInt)

theorem userName_loginParam {junk : Junk} {pack : Pack}
    (hfree : QuoteFree (loginParam junk pack).uid) (hvalid : validUid (loginParam junk pack).uid) :
    UserName (loginParam junk pack).uid := by
  refine ⟨hfree, (validUid_iff.mp hvalid).2, ?_⟩
  rw [(loginParam_strings junk pack).1]
  exact wordToLower_idem _

/-- What the client makes of an answer to a login by password is true. -/
theorem PwdAnswer.matches {rows : List Account} {m : SessionMod} {fd : ℕ} {uid guid : CString}
    {reply : Reply} (h : PwdAnswer rows m fd (wordToLower uid) guid reply)
    (hrows : ∀ a ∈ rows, Sendable a) (hguid : ValidUtf8 guid.bytes ∧ guid.bytes.length = 38)
    {junk : List UInt8} (hj : junk.length = 4) {answer : List PackField}
    (hanswer : receivedReply junk reply = some answer) {behind : String → CString}
    (hin : (loginReply behind uid answer).loggedOn) {n : SessionNode} (hn : n ∈ m.sessionList)
    (hfd : n.session.fd = fd) :
    (Login.mk (loginReply behind uid answer) false).Matches n.session := by
  rcases h with ⟨r, hok, hconflict, rfl⟩ | ⟨a, ha, token, conflict, htoken, rfl, hserves⟩
  · obtain rfl := receivedReply_result hj hanswer
    rw [(not_loggedOn_refused hok hconflict behind uid).1] at hin
    cases hin
  · obtain rfl := receivedReply_pwd (hrows a ha) (fun t ht => htoken t ht ▸ hguid) hj hanswer
    obtain ⟨huid, htype⟩ := hserves n hn hfd
    obtain ⟨hname, hread⟩ := loginReply_account a token conflict behind uid
    exact ⟨by rw [huid, hname], fun _ => by rw [hread, htype]⟩

/-- What the client makes of an answer to a login by token is true of the name. -/
theorem TokenAnswer.matches {rows : List Account} {m : SessionMod} {fd : ℕ} {reply : Reply}
    (h : TokenAnswer rows m fd reply) (hrows : ∀ a ∈ rows, Sendable a)
    (husers : ∀ n ∈ m.sessionList, UserName n.session.uid) {junk : List UInt8}
    (hj : junk.length = 4) {answer : List PackField}
    (hanswer : receivedReply junk reply = some answer) {behind : String → CString} {token : CString}
    (hin : (login2Reply behind token answer).loggedOn) {n : SessionNode} (hn : n ∈ m.sessionList)
    (hfd : n.session.fd = fd) :
    (Login.mk (login2Reply behind token answer) true).Matches n.session := by
  rcases h with ⟨r, hok, hconflict, rfl⟩ | ⟨a, ha, type, conflict, rfl, hserves⟩
  · obtain rfl := receivedReply_result hj hanswer
    rw [(not_loggedOn_refused hok hconflict behind token).2] at hin
    cases hin
  · obtain rfl := receivedReply_token (hrows a ha) hj hanswer
    obtain ⟨huid, -⟩ := hserves n hn hfd
    obtain ⟨-, hshort, hlower⟩ := husers n hn
    refine ⟨?_, nofun⟩
    rw [login2Reply_uid (by rw [← huid]; omega), ← huid, hlower]

/-- What a login adds has a proper name, and is on its own connection if on any. -/
theorem adds_proper {δ : Type} {db : Db δ} {m : SessionMod} {d : δ} {junk : Junk} {fd : ℕ}
    {pack : Pack} {t : Session} (h : Adds db m d junk fd (loginParam junk pack) t)
    (hfree : QuoteFree (loginParam junk pack).uid)
    (husers : ∀ n ∈ m.sessionList, UserName n.session.uid) :
    UserName t.uid ∧ (t.sType = .fd → t.fd = fd) := by
  have hname : ∀ {a}, loginAccount db d (loginParam junk pack) = some a →
      UserName (loginParam junk pack).uid := by
    intro a hlogin
    simp only [loginAccount] at hlogin
    split_ifs at hlogin with hvalid
    simp only [Bool.and_eq_true] at hvalid
    exact userName_loginParam hfree hvalid.1.1.1
  cases h with
  | fd hlogin huid haType hsType hfd => exact ⟨huid ▸ hname hlogin, fun _ => hfd⟩
  | token hlogin huid haType hsType => exact ⟨huid ▸ hname hlogin, by simp [hsType]⟩
  | byToken hn hlogin hnType huid haType hsType hfd => exact ⟨huid ▸ husers _ hn, fun _ => hfd⟩

/-- What holds of the sessions of the server, whether or not a handler has kept the lock. -/
structure ProperSessions (m : SessionMod) : Prop where
  settled : Settled (fun _ _ _ => True) m ∨ m.locked = true
  unique : Unique m.sessionList
  users : ∀ n ∈ m.sessionList, UserName n.session.uid

theorem ProperSessions.init (freed : Session) : ProperSessions (.init freed) :=
  ⟨.inl (.init _ _), .nil, nofun⟩

/-- What the allocator and `guid_generate` leave. -/
structure Generated (junk : Junk) (memory : List UInt8) : Prop where
  guid : ValidUtf8 junk.guid.bytes ∧ junk.guid.bytes.length = 38
  memory : memory.length = 4

section Server

variable {ρ : Type} {sql : BrokenSql} {encryptPwd : CString → CString} {other : Db ρ}
  {s s' : SessionMod × List Account × ρ}

/-- A step of the server that adds no session. -/
theorem ProperSessions.shrink (h : ProperSessions s.1) {e : ServerEvent}
    (hstep : serverStep (accountDb sql encryptPwd other) s e = some s')
    (hsubset : ∀ n ∈ s'.1.sessionList, n ∈ s.1.sessionList) : ProperSessions s'.1 where
  settled := serverStep_settled h.settled hstep
  unique := serverStep_unique hstep h.unique
  users n hn := h.users n (hsubset n hn)

/-- A login adds sessions on its own connection only, and what it adds has a proper name. -/
theorem ProperSessions.login (h : ProperSessions s.1) {r : Server.Request}
    (hkind : r.kind = .accountLogin) (hfree : QuoteFree (loginParam r.junk r.pack).uid)
    (hstep : serverStep (accountDb sql encryptPwd other) s (.request r) = some s') :
    ProperSessions s'.1 ∧ ∀ n ∈ s'.1.sessionList, ∀ fd : ℕ, n.session.fd = fd → fd ≠ r.fd →
      n ∈ s.1.sessionList := by
  obtain ⟨m, d⟩ := s
  have hunique : Unique s'.1.sessionList := serverStep_unique hstep h.unique
  rcases h.settled with hm | hlocked
  · have hsettled := serverStep_settled h.settled hstep
    obtain ⟨⟨reply, s'⟩, hexec, rfl⟩ := Option.map_eq_some_iff.mp hstep
    have hhandler : r.handler = resAccountLogin r.junk r.fd r.pack := by
      simp only [Server.Request.handler, hkind]
    rw [hhandler] at hexec
    obtain ⟨-, hwithin⟩ := (within_resAccountLogin hm r.junk r.fd r.pack).of_exec hexec
    refine ⟨⟨hsettled, hunique, fun n hn => ?_⟩, fun n hn fd hfd hne => ?_⟩
    · rcases hwithin n hn with hn | hadds
      · exact h.users n hn
      · exact (adds_proper hadds hfree h.users).1
    · rcases hwithin n hn with hn | hadds
      · exact hn
      · have htype : n.session.sType = .fd := hunique.sType_of_fd hn (by omega) hfd
        have hsame := (adds_proper hadds hfree h.users).2 htype
        omega
  · obtain rfl := serverStep_locked hlocked hstep
    exact ⟨h, fun n hn _ _ _ => hn⟩

variable {junk : Junk} {fd : ℕ} {pack : Pack} {reply : Reply}

theorem ProperSessions.pwdAnswer (h : ProperSessions s.1)
    (hvalid : validUid (loginParam junk pack).uid && validPwd (loginParam junk pack).pwd)
    (hfree : QuoteFree (loginParam junk pack).uid)
    (hexec : (resAccountLogin junk fd pack).exec (interp (accountDb sql encryptPwd other)) s =
      some (reply, s')) :
    PwdAnswer s.2.1 s'.1 fd (loginParam junk pack).uid junk.guid reply := by
  obtain ⟨m, rows, o⟩ := s
  rcases h.settled with hm | hlocked
  · simp only [resAccountLogin, if_pos hvalid] at hexec
    exact (wp_loginByPwd_answer ⟨hm, h.unique⟩ junk hfree).of_exec hexec
  · exact .inl (wlp_resAccountLogin_locked hlocked junk fd pack reply s' hexec)

theorem ProperSessions.tokenAnswer (h : ProperSessions s.1)
    (hpwd : ¬ (validUid (loginParam junk pack).uid && validPwd (loginParam junk pack).pwd))
    (hexec : (resAccountLogin junk fd pack).exec (interp (accountDb sql encryptPwd other)) s =
      some (reply, s')) : TokenAnswer s.2.1 s'.1 fd reply := by
  obtain ⟨m, rows, o⟩ := s
  rcases h.settled with hm | hlocked
  · simp only [resAccountLogin, if_neg hpwd] at hexec
    split_ifs at hexec
    · have hanswer : (loginByToken fd (loginParam junk pack).token).wp
          (interp (accountDb sql encryptPwd other)) (fun reply s => TokenAnswer rows s.1 fd reply)
            (m, rows, o) :=
        wp_loginByToken_answer ⟨hm, h.unique⟩ _ fun n hn => (h.users n hn).1
      exact hanswer.of_exec hexec
    · obtain ⟨rfl, -⟩ := Prod.mk.inj (Option.some.inj hexec)
      exact .inl (refusal (by decide) (by decide))
  · exact .inl (wlp_resAccountLogin_locked hlocked junk fd pack reply s' hexec)

end Server

/-- What a login has sent: whatever the server answers, what the client makes of the answer is
true of the sessions on its connection. -/
def Asks {ρ : Type} (db : Db (List Account × ρ)) (fd : ℕ) (fields : List PackField)
    (read : List PackField → Login) : Prop :=
  ∀ {s s' : SessionMod × List Account × ρ} {junk reply memory}, ProperSessions s.1 →
    (∀ a ∈ s.2.1, Sendable a) → Generated junk memory →
    (resAccountLogin junk fd (some fields)).exec (interp db) s = some (reply, s') →
    ProperSessions s'.1 → ∀ answer, receivedReply memory reply = some answer →
    (read answer).session.loggedOn → ∀ n ∈ s'.1.sessionList, n.session.fd = fd →
    (read answer).Matches n.session

namespace Line

/-- How much a login that waits has under way. -/
def own (c : Line) : ℕ :=
  c.requests.countP (!·.late) + c.answers.countP (!·.late)

/-- The client takes itself for logged in, or will when the answer comes that is for the login
that waits. -/
def Takes (c : Line) (l : Login) : Prop :=
  c.session = some l ∨ ∃ read, c.waiting = some read ∧
    ∃ mail ∈ c.answers, mail.late = false ∧ (read mail.fields).session.loggedOn ∧
      read mail.fields = l

/-- What holds of a connection, by itself and beside the sessions of the server. -/
structure Agrees {ρ : Type} (db : Db (List Account × ρ)) (m : SessionMod) (fd : ℕ) (c : Line) :
    Prop where
  idle : c.waiting = none → c.own = 0
  alone : c.own ≤ 1
  apart : c.waiting.isSome → c.session = none
  named : ∀ mail ∈ c.requests, ∀ junk, QuoteFree (loginParam junk (some mail.fields)).uid
  asks : ∀ read, c.waiting = some read → ∀ mail ∈ c.requests, mail.late = false →
    Asks db fd mail.fields read
  agreed : ∀ l, c.Takes l → ∀ n ∈ m.sessionList, n.session.fd = fd → l.Matches n.session

variable {ρ : Type} {db : Db (List Account × ρ)} {m m' : SessionMod} {fd : ℕ} {c c' : Line}

theorem Agrees.init : Line.init.Agrees db m fd where
  idle _ := rfl
  alone := Nat.zero_le 1
  apart _ := rfl
  named := nofun
  asks := nofun
  agreed := by
    rintro l (⟨⟨⟩⟩ | ⟨read, ⟨⟩, -⟩)

/-- The server loses sessions on the connection. -/
theorem Agrees.shrink (h : c.Agrees db m fd)
    (hsubset : ∀ n ∈ m'.sessionList, n.session.fd = fd → n ∈ m.sessionList) :
    c.Agrees db m' fd :=
  { h with agreed := fun l hl n hn hfd => h.agreed l hl n (hsubset n hn hfd) hfd }

/-- The sessions of the server do not matter to a client that takes itself for nobody. -/
theorem Agrees.untaken (h : c.Agrees db m fd) (hnone : ∀ l, ¬ c.Takes l) : c.Agrees db m' fd :=
  { h with agreed := fun l hl => absurd hl (hnone l) }

/-- Some of what is under way is lost. -/
theorem Agrees.less (h : c.Agrees db m fd) (hsession : c'.session = c.session)
    (hwaiting : c'.waiting = c.waiting) (hrequests : c'.requests.Sublist c.requests)
    (hanswers : c'.answers.Sublist c.answers) : c'.Agrees db m fd := by
  have hown : c'.own ≤ c.own := Nat.add_le_add hrequests.countP_le hanswers.countP_le
  constructor
  · intro hwait
    have hidle := h.idle (hwaiting ▸ hwait)
    omega
  · exact hown.trans h.alone
  · rw [hwaiting, hsession]
    exact h.apart
  · exact fun mail hmail => h.named mail (hrequests.subset hmail)
  · rw [hwaiting]
    exact fun read hread mail hmail => h.asks read hread mail (hrequests.subset hmail)
  · intro l hl
    refine h.agreed l ?_
    rcases hl with hl | ⟨read, hread, mail, hmail, hl⟩
    · exact .inl (hsession ▸ hl)
    · exact .inr ⟨read, hwaiting ▸ hread, mail, hanswers.subset hmail, hl⟩

theorem own_giveUp (c : Line) : c.giveUp.own = 0 := by
  simp [own, giveUp, Mail.givenUp]

theorem Agrees.giveUp (h : c.Agrees db m fd) : c.giveUp.Agrees db m fd where
  idle _ := c.own_giveUp
  alone := by simp [own_giveUp]
  apart := nofun
  named mail hmail := by
    obtain ⟨sent, hsent, rfl⟩ := List.mem_map.mp hmail
    exact h.named sent hsent
  asks := nofun
  agreed := by
    rintro l (hl | ⟨read, ⟨⟩, -⟩)
    exact h.agreed l (.inl hl)

/-- The session of a client for which no login waits. -/
theorem Agrees.setSession (h : c.Agrees db m fd) {session : Option Login}
    (hwaiting : session.isSome → c.waiting = none)
    (hl : ∀ l ∈ session, ∀ n ∈ m.sessionList, n.session.fd = fd → l.Matches n.session) :
    ({ c with session := session } : Line).Agrees db m fd where
  idle := h.idle
  alone := h.alone
  apart hsome := by
    cases session with
    | none => rfl
    | some l => simp [hwaiting rfl] at hsome
  named := h.named
  asks := h.asks
  agreed := by
    rintro l (hsession | hanswer)
    · exact hl l hsession
    · exact h.agreed l (.inr hanswer)

theorem Agrees.record (h : c.Agrees db m fd) (hwaiting : c.waiting = none) {l : Login}
    (hl : l.session.loggedOn →
      ∀ n ∈ m.sessionList, n.session.fd = fd → l.Matches n.session) :
    (c.record l).Agrees db m fd := by
  unfold Line.record
  split_ifs with hin
  · refine h.setSession (fun _ => hwaiting) ?_
    rintro _ ⟨⟩
    exact hl hin
  · exact h

theorem Agrees.hear (h : c.Agrees db m fd)
    (hown : c.waiting.isSome → ∀ mail ∈ c.answers.head?, mail.late = false) :
    c.hear.Agrees db m fd := by
  unfold Line.hear
  split
  · exact h
  next answer rest hanswers =>
  have hrest : ({ c with answers := rest } : Line).Agrees db m fd :=
    h.less rfl rfl (.refl _) (hanswers ▸ List.sublist_cons_self _ _)
  split
  · exact hrest
  next read hread =>
  have hlate : answer.late = false := hown (by simp [hread]) answer (by simp [hanswers])
  have hin : answer ∈ c.answers := by simp [hanswers]
  exact hrest.giveUp.record rfl fun hon =>
    h.agreed _ (.inr ⟨read, hread, answer, hin, hlate, hon, rfl⟩)

theorem Agrees.close (h : c.Agrees db m fd) : c.close.Agrees db m fd := by
  have hout : ({ c.giveUp with session := none } : Line).Agrees db m fd :=
    h.giveUp.setSession nofun nofun
  exact hout.less rfl rfl (.refl _) (List.nil_sublist _)

/-- A login is sent by a client that has no session. -/
theorem Agrees.ask (h : c.Agrees db m fd) (hwaiting : c.waiting = none)
    (hsession : c.session = none) {request : Option (List PackField)}
    {read : List PackField → Login}
    (hnamed : ∀ fields ∈ request, ∀ junk, QuoteFree (loginParam junk (some fields)).uid)
    (hasks : ∀ fields ∈ request, Asks db fd fields read) :
    (c.ask request read).Agrees db m fd := by
  have hidle : c.requests.countP (!·.late) + c.answers.countP (!·.late) = 0 := h.idle hwaiting
  have hlate : ∀ mail ∈ c.requests, mail.late = true := by
    simpa using List.countP_eq_zero.mp (Nat.eq_zero_of_add_eq_zero_right hidle)
  have hanswers : ∀ mail ∈ c.answers, mail.late = true := by
    simpa using List.countP_eq_zero.mp (Nat.eq_zero_of_add_eq_zero_left hidle)
  have hmail : ∀ mail ∈ (c.ask request read).requests,
      mail ∈ c.requests ∨ ∃ fields ∈ request, mail = ⟨fields, false⟩ := by
    intro mail hmail
    simpa [Line.ask, eq_comm] using hmail
  constructor
  · nofun
  · have hnew : ((request.map (Mail.mk · false)).toList).countP (!·.late) ≤ 1 :=
      List.countP_le_length.trans (by cases request <;> simp)
    simp only [own, Line.ask, List.countP_append]
    omega
  · exact fun _ => hsession
  · intro mail hin
    rcases hmail mail hin with hin | ⟨fields, hfields, rfl⟩
    · exact h.named mail hin
    · exact hnamed fields hfields
  · rintro _ ⟨⟩ mail hin hnot
    rcases hmail mail hin with hin | ⟨fields, hfields, rfl⟩
    · simp [hlate mail hin] at hnot
    · exact hasks fields hfields
  · rintro l (hl | ⟨_, ⟨⟩, mail, hin, hnot, -⟩)
    · simp [Line.ask, hsession] at hl
    · simp [hanswers mail hin] at hnot

/-- The client takes itself for nobody while its login is under way to the server, and has then
nothing else under way. -/
theorem Agrees.request (h : c.Agrees db m fd) {i : ℕ} {mail : Mail}
    (hmail : (c.requests.drop i).head? = some mail) (hlate : mail.late = false) :
    c.waiting.isSome ∧ (c.withoutRequest i).own = 0 ∧ ∀ l, ¬ c.Takes l := by
  obtain ⟨rest, hdrop⟩ := List.head?_eq_some_iff.mp hmail
  have hrest : c.requests.drop (i + 1) = rest := by
    rw [← List.tail_drop, hdrop, List.tail_cons]
  have hcount : c.requests.countP (!·.late) = (c.requests.eraseIdx i).countP (!·.late) + 1 := by
    conv_lhs => rw [← List.take_append_drop i c.requests, hdrop]
    rw [List.eraseIdx_eq_take_drop_succ, hrest, List.countP_append, List.countP_append,
      List.countP_cons_of_pos (by simp [hlate]), Nat.add_assoc]
  have halone : c.requests.countP (!·.late) + c.answers.countP (!·.late) ≤ 1 := h.alone
  have hwaiting : c.waiting.isSome := by
    by_contra hnone
    have hidle : c.requests.countP (!·.late) + c.answers.countP (!·.late) = 0 :=
      h.idle (by simpa using hnone)
    omega
  have hanswers : c.answers.countP (!·.late) = 0 := by omega
  refine ⟨hwaiting, ?_, ?_⟩
  · simp only [own, withoutRequest]
    omega
  · rintro l (hl | ⟨read, -, answer, hin, hnot, -⟩)
    · simp [h.apart hwaiting] at hl
    · simpa [hnot] using List.countP_eq_zero.mp hanswers answer hin

/-- An answer is sent. -/
theorem Agrees.answer (h : c.Agrees db m fd) {late : Bool} {fields : Option (List PackField)}
    (hown : late = false → c.waiting.isSome ∧ c.own = 0)
    (htrue : late = false → ∀ read, c.waiting = some read → ∀ answer ∈ fields,
      (read answer).session.loggedOn →
      ∀ n ∈ m.sessionList, n.session.fd = fd → (read answer).Matches n.session) :
    (c.answer late fields).Agrees db m fd := by
  have hnew : ((fields.map (Mail.mk · late)).toList).countP (!·.late) ≤ (!late).toNat := by
    cases fields <;> cases late <;> simp
  have hcount : (c.answer late fields).own ≤ c.own + (!late).toNat := by
    simp only [own, Line.answer, List.countP_append]
    omega
  constructor
  · intro hwaiting
    have hidle := h.idle hwaiting
    cases late with
    | true => exact Nat.le_zero.mp (hcount.trans hidle.le)
    | false =>
      have hnone : c.waiting = none := hwaiting
      simp [hnone] at hown
  · cases late with
    | true => exact hcount.trans h.alone
    | false => exact hcount.trans (by simp [(hown rfl).2])
  · exact h.apart
  · exact h.named
  · exact h.asks
  · rintro l (hl | ⟨read, hread, mail, hin, hlate, hon, rfl⟩)
    · exact h.agreed l (.inl hl)
    · rcases List.mem_append.mp hin with hin | hin
      · exact h.agreed _ (.inr ⟨read, hread, mail, hin, hlate, hon, rfl⟩)
      · obtain ⟨answer, hanswer, rfl⟩ : ∃ answer ∈ fields, (⟨answer, late⟩ : Mail) = mail := by
          simpa using hin
        exact htrue hlate read hread answer hanswer hon

end Line

namespace World

variable {ρ : Type} {sql : BrokenSql} {encryptPwd : CString → CString} {other : Db ρ}
  {w w' : World (List Account × ρ)}

@[simp] theorem setLine_self {δ : Type} (w : World δ) (fd : ℕ) (c : Line) :
    (w.setLine fd c).line fd = c := by
  simp [setLine]

@[simp] theorem setLine_of_ne {δ : Type} (w : World δ) {fd fd' : ℕ} (h : fd' ≠ fd) (c : Line) :
    (w.setLine fd c).line fd' = w.line fd' := by
  simp [setLine, h]

theorem serve_eq_some {δ : Type} {db : Db δ} {w w' : World δ} {r : Server.Request} {reply : Reply} :
    w.serve db r = some (reply, w') ↔
      ∃ s', r.handler.exec (interp db) w.server = some (reply, s') ∧
        w' = { w with server := s' } := by
  rw [serve, Option.map_eq_some_iff]
  constructor
  · rintro ⟨⟨reply', s'⟩, hexec, heq⟩
    obtain ⟨rfl, rfl⟩ := Prod.mk.inj heq
    exact ⟨s', hexec, rfl⟩
  · rintro ⟨s', hexec, rfl⟩
    exact ⟨(reply, s'), hexec, rfl⟩

theorem serverStep_request {δ : Type} {db : Db δ} {s s' : SessionMod × δ} {r : Server.Request}
    {reply : Reply} (hexec : r.handler.exec (interp db) s = some (reply, s')) :
    serverStep db s (.request r) = some s' := by
  simp only [serverStep, hexec, Option.map_some]

/-- What holds between the server and its clients. -/
structure Agreed (db : Db (List Account × ρ)) (w : World (List Account × ρ)) : Prop where
  server : ProperSessions w.server.1
  line : ∀ fd, (w.line fd).Agrees db w.server.1 fd

theorem Agreed.init (db : Db (List Account × ρ)) (freed : Session) (d : List Account × ρ) :
    Agreed db (init (.init freed, d)) :=
  ⟨.init freed, fun _ => .init⟩

theorem Agreed.setLine {db : Db (List Account × ρ)} (h : Agreed db w) {fd : ℕ} {c : Line}
    (hc : c.Agrees db w.server.1 fd) : Agreed db (w.setLine fd c) where
  server := h.server
  line fd' := by
    by_cases hfd : fd' = fd
    · subst hfd
      rw [setLine_self]
      exact hc
    · rw [setLine_of_ne w hfd]
      exact h.line fd'

/-- A step of the server that adds no session. -/
theorem Agreed.shrink (h : Agreed (accountDb sql encryptPwd other) w) {e : ServerEvent}
    {s' : SessionMod × List Account × ρ}
    (hstep : serverStep (accountDb sql encryptPwd other) w.server e = some s')
    (hsubset : ∀ n ∈ s'.1.sessionList, n ∈ w.server.1.sessionList) :
    Agreed (accountDb sql encryptPwd other) { w with server := s' } :=
  ⟨h.server.shrink hstep hsubset, fun fd => (h.line fd).shrink fun n hn _ => hsubset n hn⟩

/-- A request that is no login. -/
theorem Agreed.serve (h : Agreed (accountDb sql encryptPwd other) w) {r : Server.Request}
    (hkind : r.kind ≠ .accountLogin) {reply : Reply}
    (hserve : w.serve (accountDb sql encryptPwd other) r = some (reply, w')) :
    Agreed (accountDb sql encryptPwd other) w' := by
  obtain ⟨⟨m', d'⟩, hexec, rfl⟩ := serve_eq_some.mp hserve
  exact h.shrink (serverStep_request hexec) (Server.Request.sessions_subset hkind hexec)

/-- A login on the connection of a client that takes itself for nobody. It adds sessions on this
connection only, and what it adds has a proper name. -/
theorem Agreed.serveLogin (h : Agreed (accountDb sql encryptPwd other) w) {r : Server.Request}
    (hkind : r.kind = .accountLogin) (hfree : QuoteFree (loginParam r.junk r.pack).uid)
    (hnone : ∀ l, ¬ (w.line r.fd).Takes l) {late : Bool} {memory : List UInt8}
    (hown : late = false → (w.line r.fd).waiting.isSome ∧ (w.line r.fd).own = 0)
    (htrue : late = false → ∀ {reply s'},
      r.handler.exec (interp (accountDb sql encryptPwd other)) w.server = some (reply, s') →
      ProperSessions s'.1 → ∀ read, (w.line r.fd).waiting = some read →
      ∀ answer ∈ receivedReply memory reply, (read answer).session.loggedOn →
      ∀ n ∈ s'.1.sessionList, n.session.fd = r.fd → (read answer).Matches n.session)
    (hstep : w.serveLogin (accountDb sql encryptPwd other) r late memory = some w') :
    Agreed (accountDb sql encryptPwd other) w' := by
  obtain ⟨⟨reply, w₁⟩, hserve, rfl⟩ := Option.map_eq_some_iff.mp hstep
  obtain ⟨s', hexec, rfl⟩ := serve_eq_some.mp hserve
  obtain ⟨hproper, hadds⟩ := h.server.login hkind hfree (serverStep_request hexec)
  have hline : ∀ fd, (w.line fd).Agrees (accountDb sql encryptPwd other) s'.1 fd := by
    intro fd
    by_cases hfd : fd = r.fd
    · subst hfd
      exact (h.line r.fd).untaken hnone
    · exact (h.line fd).shrink fun n hn hn' => hadds n hn fd hn' hfd
  have hserved : Agreed (accountDb sql encryptPwd other) { w with server := s' } :=
    ⟨hproper, hline⟩
  exact hserved.setLine ((hline r.fd).answer hown fun hlate => htrue hlate hexec hproper)

/-- The strings of a login are valid, its name has no quote, no other waits on its connection,
and the accounts can be sent. No login hears a late answer. A login that is late or from elsewhere
is handled on the connection of a client that takes itself for nobody. -/
def Regular (w : World (List Account × ρ)) : WorldEvent → Prop
  | .login fd uid pwd _ memory _ =>
    (w.line fd).waiting = none ∧ ValidUtf8 uid.bytes ∧ ValidUtf8 pwd.bytes ∧ QuoteFree uid ∧
      memory.length = 4
  | .login2 fd token memory _ =>
    (w.line fd).waiting = none ∧ ValidUtf8 token.bytes ∧ memory.length = 4
  | .handle fd i junk memory =>
    (∀ a ∈ w.server.2.1, Sendable a) ∧ Generated junk memory ∧
      ∀ mail ∈ ((w.line fd).requests.drop i).head?, mail.late → ∀ l, ¬ (w.line fd).Takes l
  | .hear fd => (w.line fd).waiting.isSome → ∀ mail ∈ (w.line fd).answers.head?, mail.late = false
  | .request r _ => r.kind = .accountLogin →
    QuoteFree (loginParam r.junk r.pack).uid ∧ ∀ l, ¬ (w.line r.fd).Takes l
  | .giveUp _ | .loseRequest _ _ | .loseAnswer _ _ | .logout _ | .disconnect _ => True

theorem session_of_login {fd : ℕ} {uid pwd : CString} {tokenExpire : BitVec 32}
    {elems : List PackElem}
    (h : clientAccountLogin (w.connect fd) uid pwd tokenExpire = .ok elems) :
    (w.line fd).session = none := by
  simp only [clientAccountLogin, connect] at h
  split_ifs at h with hvalid hsession
  simpa using hsession

theorem session_of_login2 {fd : ℕ} {token : CString} {elems : List PackElem}
    (h : clientAccountLogin2 (w.connect fd) token = .ok elems) : (w.line fd).session = none := by
  simp only [clientAccountLogin2, connect] at h
  split_ifs at h with hvalid hsession
  simpa using hsession

section Send

variable {memory : List UInt8} {elems : List PackElem} {fields : List PackField}
  {connect : Option Connect} {fd : ℕ}

/-- The handler reads the name of a login in lower case. -/
theorem login_read {uid pwd : CString} {tokenExpire : BitVec 32} (huid : ValidUtf8 uid.bytes)
    (hpwd : ValidUtf8 pwd.bytes) (hmemory : memory.length = 4)
    (hpass : clientAccountLogin connect uid pwd tokenExpire = .ok elems)
    (hfields : received memory elems = some fields) (junk : Junk) :
    (ClientCall.login uid pwd tokenExpire).Read junk (some fields) := by
  have hunderstood : (ClientCall.login uid pwd tokenExpire).Understood memory junk elems :=
    login_understood huid hpwd hmemory hpass
  obtain ⟨fields', hfields', hread⟩ := hunderstood
  obtain rfl := Option.some.inj (hfields.symm.trans hfields')
  exact hread

/-- The handler reads no name in a login by token. -/
theorem login2_read {token : CString} (htoken : ValidUtf8 token.bytes)
    (hmemory : memory.length = 4) (hpass : clientAccountLogin2 connect token = .ok elems)
    (hfields : received memory elems = some fields) (junk : Junk) :
    (loginParam junk (some fields)).uid = lit "" := by
  have hunderstood : (ClientCall.login2 token).Understood memory junk elems :=
    login2_understood htoken hmemory hpass
  obtain ⟨fields', hfields', hread, -⟩ := hunderstood
  obtain rfl := Option.some.inj (hfields.symm.trans hfields')
  rw [hread]

theorem login_asks {uid pwd : CString} (behind : String → CString)
    (hquote : QuoteFree uid) {tokenExpire : BitVec 32}
    (hread : ∀ junk, (ClientCall.login uid pwd tokenExpire).Read junk (some fields)) :
    Asks (accountDb sql encryptPwd other) fd fields fun answer =>
      ⟨loginReply behind uid answer, false⟩ := by
  intro s s' junk reply memory hs hrows hgen hexec _ answer hanswer hin n hn hfd
  obtain ⟨hparam, hvalidUid, hvalidPwd⟩ := hread junk
  have hname : (loginParam junk (some fields)).uid = wordToLower uid := by rw [hparam]
  have hpwdAnswer := hs.pwdAnswer (by rw [hvalidUid, hvalidPwd]; rfl)
    (by rw [hname]; exact quoteFree_wordToLower.mpr hquote) hexec
  rw [hname] at hpwdAnswer
  exact hpwdAnswer.matches hrows hgen.guid hgen.memory hanswer hin hn hfd

theorem login2_asks {token : CString} (behind : String → CString)
    (hname : ∀ junk, (loginParam junk (some fields)).uid = lit "") :
    Asks (accountDb sql encryptPwd other) fd fields fun answer =>
      ⟨login2Reply behind token answer, true⟩ := by
  intro s s' junk reply memory hs hrows hgen hexec hs' answer hanswer hin n hn hfd
  have hnone : validUid (lit "") = false := by decide
  have htokenAnswer := hs.tokenAnswer (by simp [hname junk, hnone]) hexec
  exact htokenAnswer.matches hrows hs'.users hgen.memory hanswer hin hn hfd

end Send

theorem Agreed.stepLogin (h : Agreed (accountDb sql encryptPwd other) w) {fd : ℕ}
    {uid pwd : CString} {tokenExpire : BitVec 32} {memory : List UInt8}
    {behind : String → CString} (hok : w.Regular (.login fd uid pwd tokenExpire memory behind))
    (hstep : w.step (accountDb sql encryptPwd other)
      (.login fd uid pwd tokenExpire memory behind) = some w') :
    Agreed (accountDb sql encryptPwd other) w' := by
  obtain ⟨hwaiting, huid, hpwd, hquote, hmemory⟩ := hok
  simp only [World.step] at hstep
  split at hstep
  · obtain rfl := Option.some.inj hstep
    exact h
  next elems hpass =>
  obtain rfl := Option.some.inj hstep
  have hread : ∀ fields ∈ received memory elems, ∀ junk,
      (ClientCall.login uid pwd tokenExpire).Read junk (some fields) :=
    fun fields hfields => login_read huid hpwd hmemory hpass hfields
  refine h.setLine ((h.line fd).ask hwaiting (session_of_login hpass)
    (fun fields hfields junk => ?_) fun fields hfields => ?_)
  · rw [(hread fields hfields junk).1]
    exact quoteFree_wordToLower.mpr hquote
  · exact login_asks behind hquote (hread fields hfields)

theorem Agreed.stepLogin2 (h : Agreed (accountDb sql encryptPwd other) w) {fd : ℕ}
    {token : CString} {memory : List UInt8} {behind : String → CString}
    (hok : w.Regular (.login2 fd token memory behind))
    (hstep : w.step (accountDb sql encryptPwd other) (.login2 fd token memory behind) = some w') :
    Agreed (accountDb sql encryptPwd other) w' := by
  obtain ⟨hwaiting, htoken, hmemory⟩ := hok
  simp only [World.step] at hstep
  split at hstep
  · obtain rfl := Option.some.inj hstep
    exact h
  next elems hpass =>
  obtain rfl := Option.some.inj hstep
  have hname : ∀ fields ∈ received memory elems, ∀ junk,
      (loginParam junk (some fields)).uid = lit "" :=
    fun fields hfields => login2_read htoken hmemory hpass hfields
  refine h.setLine ((h.line fd).ask hwaiting (session_of_login2 hpass)
    (fun fields hfields junk => ?_) fun fields hfields => ?_)
  · rw [hname fields hfields junk]
    rfl
  · exact login2_asks behind (hname fields hfields)

theorem Agreed.stepHandle (h : Agreed (accountDb sql encryptPwd other) w) {fd i : ℕ} {junk : Junk}
    {memory : List UInt8} (hok : w.Regular (.handle fd i junk memory))
    (hstep : w.step (accountDb sql encryptPwd other) (.handle fd i junk memory) = some w') :
    Agreed (accountDb sql encryptPwd other) w' := by
  obtain ⟨hrows, hgen, hlate⟩ := hok
  simp only [World.step] at hstep
  split at hstep
  · cases hstep
  next mail hmail =>
  have hline := h.line fd
  have hin : mail ∈ (w.line fd).requests :=
    List.mem_of_mem_drop (List.mem_of_head? hmail)
  have hless : ((w.line fd).withoutRequest i).Agrees (accountDb sql encryptPwd other)
      w.server.1 fd :=
    hline.less rfl rfl (List.eraseIdx_sublist _ _) (.refl _)
  refine (h.setLine hless).serveLogin (r := ⟨.accountLogin, fd, some mail.fields, junk⟩) rfl
    (hline.named mail hin junk) ?_ ?_ ?_ hstep
  · rw [setLine_self]
    cases hwhen : mail.late with
    | true => exact hlate mail hmail hwhen
    | false => exact (hline.request hmail hwhen).2.2
  · rw [setLine_self]
    intro hwhen
    exact ⟨(hline.request hmail hwhen).1, (hline.request hmail hwhen).2.1⟩
  · rw [setLine_self]
    intro hwhen reply s' hexec hs' read hread answer hanswer
    exact hline.asks read hread mail hin hwhen h.server hrows hgen hexec hs' answer hanswer

theorem Agreed.step (h : Agreed (accountDb sql encryptPwd other) w) {e : WorldEvent}
    (hok : w.Regular e) (hstep : w.step (accountDb sql encryptPwd other) e = some w') :
    Agreed (accountDb sql encryptPwd other) w' := by
  cases e with
  | login fd uid pwd tokenExpire memory behind => exact h.stepLogin hok hstep
  | login2 fd token memory behind => exact h.stepLogin2 hok hstep
  | giveUp fd =>
    obtain rfl := Option.some.inj hstep
    exact h.setLine (h.line fd).giveUp
  | handle fd i junk memory => exact h.stepHandle hok hstep
  | loseRequest fd i =>
    obtain rfl := Option.some.inj hstep
    exact h.setLine ((h.line fd).less rfl rfl (List.eraseIdx_sublist _ _) (.refl _))
  | loseAnswer fd i =>
    obtain rfl := Option.some.inj hstep
    exact h.setLine ((h.line fd).less rfl rfl (.refl _) (List.eraseIdx_sublist _ _))
  | hear fd =>
    obtain rfl := Option.some.inj hstep
    exact h.setLine ((h.line fd).hear hok)
  | logout fd =>
    obtain rfl := Option.some.inj hstep
    exact h.setLine ((h.line fd).setSession nofun nofun)
  | request r memory =>
    simp only [World.step] at hstep
    split_ifs at hstep with hkind
    · obtain ⟨hfree, hnone⟩ := hok hkind
      refine h.serveLogin hkind hfree hnone ?_ ?_ hstep
      · rintro ⟨⟩
      · rintro ⟨⟩
    · obtain ⟨⟨reply, w₁⟩, hserve, rfl⟩ := Option.map_eq_some_iff.mp hstep
      exact h.serve hkind hserve
  | disconnect fd =>
    obtain ⟨s', hserver, rfl⟩ := Option.map_eq_some_iff.mp hstep
    obtain ⟨⟨b, m'⟩, hdel, rfl⟩ := Option.map_eq_some_iff.mp hserver
    have hless := h.shrink hserver (SessionMod.delAll_sublist hdel).subset
    exact hless.setLine (hless.line fd).close

theorem agreed_of_reaches {freed : Session} {d₀ : List Account × ρ}
    (h : Reaches (World.step (accountDb sql encryptPwd other)) Regular
      (init (.init freed, d₀)) w) : Agreed (accountDb sql encryptPwd other) w :=
  h.invariant (.init _ freed d₀) fun hw hok hstep => hw.step hok hstep

end World

/-- A lookup that returns has found a session if there is one. -/
theorem refAll_isSome_iff {m m' : SessionMod} {fd : ℤ} {found : Option ℕ}
    (h : m.refAll (m.sessionList.filter (SessionNode.hasFd fd)) = some (found, m')) :
    found.isSome ↔ ∃ n ∈ m.sessionList, n.session.fd = fd := by
  have hany : (∃ n ∈ m.sessionList, n.session.fd = fd) ↔
      m.sessionList.filter (SessionNode.hasFd fd) ≠ [] := by
    simp [List.filter_eq_nil_iff, SessionNode.hasFd]
  rw [hany, Ne, ← List.getLast?_eq_none_iff]
  unfold SessionMod.refAll at h
  split at h
  · next hlast =>
    obtain ⟨⟩ := Option.some.inj h
    simp [hlast]
  · next n hlast =>
    obtain ⟨m₁, -, ⟨⟩⟩ := Option.map_eq_some_iff.mp h
    simp [hlast]

/-- A heartbeat that is answered tells whether the connection has a session. -/
theorem heartbeat_iff {δ : Type} {db : Db δ} {m : SessionMod} {d : δ} {fd : ℕ} {reply : Reply}
    {s' : SessionMod × δ}
    (hexec : (resHeartbeat fd).exec (interp db) (m, d) = some (reply, s')) {junk : List UInt8}
    (hj : junk.length = 4) {answer : List PackField}
    (hanswer : receivedReply junk reply = some answer) :
    clientHeartbeat (some answer) = 1 ↔ ∃ n ∈ m.sessionList, n.session.fd = fd := by
  obtain ⟨⟨old, s₁⟩, hcall, hrest⟩ := Option.bind_eq_some_iff.mp hexec
  obtain ⟨⟨found, m₁⟩, href, ⟨⟩⟩ := Option.map_eq_some_iff.mp hcall
  have hfound : found.isSome ↔ ∃ n ∈ m.sessionList, n.session.fd = fd := refAll_isSome_iff href
  cases found with
  | none =>
    obtain ⟨⟩ := Option.some.inj hrest
    obtain rfl := receivedReply_result hj hanswer
    rw [← hfound]
    exact iff_of_false (by decide) (by decide)
  | some session =>
    obtain ⟨⟩ := Option.some.inj hrest
    obtain rfl := receivedReply_result hj hanswer
    rw [← hfound]
    exact iff_of_true (by decide) rfl

/-- Memory that holds zeros. -/
def zeros : List UInt8 :=
  [0, 0, 0, 0]

/-- The server with the accounts and no session. -/
def smallWorld (accounts : List Account) : World (List Account × Unit) :=
  .init (.init ⟨0, lit "", 0, .fd, lit "", 0⟩, accounts, ())

def askAs (uid pwd : CString) : WorldEvent :=
  .login 5 uid pwd 0 zeros fun _ => lit ""

def handleFirst : WorldEvent :=
  .handle 5 0 { noJunk with guid := annToken } zeros

/-- A client that is given the answer to a login that it gave up takes itself for `bob`, while
the server has a session of `ann`. -/
example :
    ∃ w₁ w₂ w₃ w₄ w₅ l, World.step smallDb (smallWorld [ann]) (askAs (lit "ann") (lit "tea")) =
        some w₁ ∧
      World.step smallDb w₁ (.giveUp 5) = some w₂ ∧
      World.step smallDb w₂ (askAs (lit "bob") (lit "cup")) = some w₃ ∧
      World.step smallDb w₃ handleFirst = some w₄ ∧ World.step smallDb w₄ (.hear 5) = some w₅ ∧
      (w₅.line 5).session = some l ∧ l.session.account.uid = lit "bob" ∧
      ∃ n ∈ w₅.server.1.sessionList, n.session.fd = 5 ∧ n.session.uid = lit "ann" :=
  ⟨_, _, _, _, _, _, rfl, rfl, rfl, rfl, rfl, rfl, rfl, _, List.mem_cons_self, rfl, rfl⟩

end Youmenu.Client
