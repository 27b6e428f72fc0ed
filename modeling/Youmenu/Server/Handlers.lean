import Youmenu.Eventpack.Packet
import Youmenu.Lib.Program
import Youmenu.Server.Session

/-!
# Request handlers: `res_platform.c`, `res_account.c`, `res_dish.c`, `res_seat.c`, `res_cook.c`

The handlers are programs over two interfaces, the session module and the
database. Assertions on the types of request fields are compiled out, and what the
source leaves uninitialised is a parameter.

## Main definitions

* `PackField` — the elements of a request as an iterator shows them.
* `Effect` — the calls a handler makes.
* `resAccountLogin`, `resDishFetch`, … — the handlers.
* `Request.handler` — the table that `server_init_network` registers.
-/

namespace Youmenu.Server

open Eventpack

/-! ## Requests and replies -/

inductive PackValue where
  | binary (data : List UInt8)
  | string (data : CString)
  | bool (value : Bool)
  | int (value : BitVec 32)
  | long (value : BitVec 64)
  | double (value : BitVec 64)
  | sub (kind : PackKind)

structure PackField where
  key : CString
  value : PackValue

/-- Truncation towards zero; a value out of range becomes `INT_MIN`. -/
def doubleToInt (d : BitVec 64) : ℤ :=
  let e := d.toNat / 2 ^ 52 % 2 ^ 11
  let m := d.toNat % 2 ^ 52 + 2 ^ 52
  if e < 1023 then 0
  else if e < 1023 + 31 then
    let n : ℤ := (m / 2 ^ (52 - (e - 1023)) : ℕ)
    if d.msb then -n else n
  else -2 ^ 31

/-- `ep_pack_iterator_int`. -/
def PackValue.toInt : PackValue → ℤ
  | .int value => value.toInt
  | .long value => (value.setWidth 32).toInt
  | .double value => doubleToInt value
  | _ => 0

/-- `ep_pack_iterator_string`. -/
def PackValue.toCString : PackValue → CString
  | .string data => data
  | _ => lit ""

/-- What `ep_pack_iterator_double` returns: a double, or a whole number converted to
one. -/
inductive Amount where
  | double (value : BitVec 64)
  | whole (value : ℤ)

/-- `ep_pack_iterator_double`. -/
def PackValue.toAmount : PackValue → Amount
  | .int value => .whole value.toInt
  | .long value => .whole value.toInt
  | .double value => .double value
  | _ => .whole 0

/-- `jin_or_plate <= 0` after the conversion to `float`: no NaN, and negative or small
enough to become zero. -/
def Amount.nonpos : Amount → Bool
  | .whole value => value ≤ 0
  | .double value =>
    let magnitude := value.toNat % 2 ^ 63
    magnitude ≤ 0x7FF * 2 ^ 52 && (value.msb || magnitude ≤ (1023 - 150) * 2 ^ 52)

/-- The conversion to `float` gives a number that is neither infinite nor a NaN. -/
def Amount.finite : Amount → Bool
  | .whole _ => true
  | .double value => value.toNat % 2 ^ 63 < 0x47EFFFFFF0000000

/-- A null request has no elements. -/
abbrev Pack := Option (List PackField)

abbrev Reply := List PackOp

def appendInt (key : String) (value : ℤ) : PackOp := .int (lit key) (BitVec.ofInt 32 value)

def appendString (key : String) (value : CString) : PackOp := .string (lit key) value

inductive AccountResult where
  | ok
  | loginAlreadyLogin
  | loginOkConflictAnotherAddress
  | loginUserNotExist
  | loginInvalidUserOrPwd
  | createUidExist
  | oldPwdIncorrect
  | modifyPwdSame
  | cannotDeleteLastAdmin
  | noPermission
  | sessionExpired
  | illegalParameter
  | serviceUnavailable
  | noResponse
deriving DecidableEq

inductive DishResult where
  | ok
  | modifyNoExist
  | modifyCookAccept
  | seatIdInvalid
  | dishIdInvalid
  | noPermission
  | illegalParameter
  | serviceUnavailable
  | noResponse
deriving DecidableEq

inductive CookResult where
  | ok
  | seatIdInvalid
  | dishIdInvalid
  | modifyNoMoreAccept
  | modifyNoExist
  | noPermission
  | illegalParameter
  | serviceUnavailable
  | noResponse
deriving DecidableEq

def AccountResult.append (r : AccountResult) : PackOp := appendInt "result" r.ctorIdx

def DishResult.append (r : DishResult) : PackOp := appendInt "result" r.ctorIdx

def CookResult.append (r : CookResult) : PackOp := appendInt "result" r.ctorIdx

/-- What a client reads from an element of the name `result`. -/
def resultElement : PackOp → Option ℤ
  | .int name value => if name = lit "result" then some value.toInt else none
  | _ => none

def replyResult (reply : Reply) : Option ℤ := reply.findSome? resultElement

/-! ## Strings -/

/-- What the stack holds where the source has not written: behind a full buffer (by
the name of the buffer), in `session_t.admin` and in `account_t.type`. `guid` is
what `guid_generate` makes. -/
structure Junk where
  behind : String → CString
  admin : ℤ
  type : ℤ
  guid : CString

/-- The string in a buffer of `n` bytes after `strncpy`: a full buffer has no
terminator. -/
def strncpy (n : ℕ) (s behind : CString) : CString :=
  if s.bytes.length < n then s
  else ⟨s.bytes.take n ++ behind.bytes, by
    intro b hb
    rcases List.mem_append.mp hb with hb | hb
    · exact s.ne_zero b (List.mem_of_mem_take hb)
    · exact behind.ne_zero b hb⟩

def tolower (b : UInt8) : UInt8 := if 65 ≤ b ∧ b ≤ 90 then b + 32 else b

theorem tolower_ne_zero {b : UInt8} (h : b ≠ 0) : tolower b ≠ 0 := by
  unfold tolower
  split_ifs with hb
  · intro hz
    rw [UInt8.le_iff_toNat_le, UInt8.le_iff_toNat_le] at hb
    have := congrArg UInt8.toNat hz
    simp at this hb
    omega
  · exact h

/-- The loop marked `word to lower`. -/
def wordToLower (s : CString) : CString where
  bytes := s.bytes.map tolower
  ne_zero := by
    intro b hb
    obtain ⟨c, hc, rfl⟩ := List.mem_map.mp hb
    exact tolower_ne_zero (s.ne_zero c hc)

def validUid (uid : CString) : Bool := uid.bytes ≠ [] && uid.bytes.length ≤ 16

def validPwd (pwd : CString) : Bool := pwd.bytes ≠ [] && pwd.bytes.length ≤ 16

def validToken (token : CString) : Bool := token.bytes ≠ [] && token.bytes.length = 38

def validType (type : ℤ) : Bool := 0 ≤ type && type ≤ 3

def validNick (nick : CString) : Bool := nick.bytes.length ≤ 64

def validComment (comment : CString) : Bool := comment.bytes.length ≤ 256

/-! ## The interfaces -/

/-- `account_type`. -/
def accountAdmin : ℤ := 0

def accountMenu : ℤ := 1

def accountCook : ℤ := 2

structure Account where
  type : ℤ
  uid : CString
  pwd : CString
  nick : CString
  comment : CString
deriving DecidableEq

structure Dish where
  id : ℤ
  category : ℤ
  name : CString
  summary : CString
  priceType : ℤ
  price : ℤ

structure Seat where
  id : ℤ
  summary : CString
  qrcode : CString

structure Book where
  bookId : ℤ
  seatId : ℤ
  dishId : ℤ
  jinOrPlate : BitVec 64
  comment : CString
  acceptState : ℤ

/-- The functions of `db_account.c`, `db_dish.c`, `db_seat.c` and `db_book.c` that the
handlers call. -/
inductive DbOp where
  | accountGetOne (uid : CString)
  | accountPwdCheck (uid pwd : CString)
  | accountAdd (account : Account)
  | accountUpdatePwd (uid newPwd : CString)
  | accountUpdateNick (uid nick : CString)
  | accountUpdateComment (uid comment : CString)
  | accountDel (uid : CString)
  | accountGet
  | dishGetByCategory (category : ℤ)
  | dishGetOne (id : ℤ)
  | seatGetOne (id : ℤ)
  | seatGet
  | bookAdd (seatId dishId : ℤ) (jinOrPlate : Amount) (comment : CString)
  | bookDel (bookId : ℤ)
  | bookGet (seatId : ℤ)

abbrev DbOp.Result : DbOp → Type
  | .accountGetOne _ => Option Account
  | .accountGet => List Account
  | .dishGetByCategory _ => List Dish
  | .seatGet => List Seat
  | .bookGet _ => List Book
  | _ => Bool

/-- A session is passed by its address. `read` is an access through the pointer. -/
inductive Effect where
  | refFd (fd : ℤ)
  | refUid (uid : CString) (type : SessionType)
  | refToken (token : CString)
  | dref (session : ℕ)
  | read (session : ℕ)
  | delFd (fd : ℤ)
  | delToken (uid : CString)
  | addFd (session : Session)
  | addToken (session : Session)
  | db (op : DbOp)

abbrev Effect.Result : Effect → Type
  | .refFd _ | .refUid _ _ | .refToken _ => Option ℕ
  | .dref _ => Unit
  | .read _ => Session
  | .delFd _ | .delToken _ | .addFd _ | .addToken _ => Bool
  | .db op => op.Result

/-- A database with contents of type `δ`. -/
abbrev Db (δ : Type) := (op : DbOp) → δ → op.Result × δ

abbrev Handler := Program Effect Effect.Result

def sessionRefFd (fd : ℤ) : Handler (Option ℕ) := .perform (Effect.refFd fd)

def sessionRefUid (uid : CString) (type : SessionType) : Handler (Option ℕ) :=
  .perform (Effect.refUid uid type)

def sessionRefToken (token : CString) : Handler (Option ℕ) := .perform (Effect.refToken token)

def sessionDref (session : ℕ) : Handler Unit := .perform (Effect.dref session)

def sessionRead (session : ℕ) : Handler Session := .perform (Effect.read session)

def sessionDelFd (fd : ℤ) : Handler Bool := .perform (Effect.delFd fd)

def sessionDelToken (uid : CString) : Handler Bool := .perform (Effect.delToken uid)

def sessionAddFd (session : Session) : Handler Bool := .perform (Effect.addFd session)

def sessionAddToken (session : Session) : Handler Bool := .perform (Effect.addToken session)

def db (op : DbOp) : Handler op.Result := .perform (Effect.db op)

/-! ## `res_platform.c` -/

def resHeartbeat (fd : ℤ) : Handler Reply := do
  match ← sessionRefFd fd with
  | none => return [appendInt "result" 0]
  | some session =>
    let _ ← sessionRead session
    sessionDref session
    return [appendInt "result" 1]

/-! ## `res_account.c` -/

/-- Delete a session that stands in the way of a login. -/
def dropSession : Option ℕ → Handler Bool
  | none => return false
  | some old => do
    let s ← sessionRead old
    sessionDref old
    let _ ← sessionDelFd s.fd
    return true

/-- Drop the session of the same user, then the session of the same connection. -/
def resAccountCheckSessionExist (uid : CString) (fd : ℤ) : Handler Bool := do
  let another ← dropSession (← sessionRefUid uid .fd)
  let same ← dropSession (← sessionRefFd fd)
  return another || same

structure LoginParam where
  uid : CString
  pwd : CString
  token : CString
  tokenExpire : ℤ

def loginParam (junk : Junk) (pack : Pack) : LoginParam :=
  (pack.getD []).foldl (fun p f =>
    if f.key = lit "uid" then
      { p with uid := wordToLower (strncpy 17 f.value.toCString (junk.behind "uid")) }
    else if f.key = lit "pwd" then
      { p with pwd := strncpy 17 f.value.toCString (junk.behind "pwd") }
    else if f.key = lit "token" then
      { p with token := strncpy 39 f.value.toCString (junk.behind "token") }
    else if f.key = lit "token_expire" then { p with tokenExpire := f.value.toInt }
    else p) ⟨lit "", lit "", lit "", 0⟩

def loginResult (conflict : Bool) : PackOp :=
  if conflict then AccountResult.loginOkConflictAnotherAddress.append else AccountResult.ok.append

/-- Delete the old token session of a user. -/
def dropToken : Option ℕ → Handler Unit
  | none => return
  | some old => do
    let s ← sessionRead old
    sessionDref old
    let _ ← sessionDelToken s.uid
    return

/-- The token session of a login by password; the old one goes first. -/
def loginToken (s : Session) (guid : CString) : Handler Reply := do
  dropToken (← sessionRefUid s.uid .token)
  let _ ← sessionAddToken { s with sType := .token, token := guid, fd := -1 }
  return [appendString "token" guid]

/-- `session_t s` is on the stack and its field `admin` is never written. -/
def loginByPwd (junk : Junk) (fd : ℤ) (p : LoginParam) : Handler Reply := do
  match ← db (.accountGetOne p.uid) with
  | none => return [AccountResult.loginUserNotExist.append]
  | some _ =>
    if ← db (.accountPwdCheck p.uid p.pwd) then
      let conflict ← resAccountCheckSessionExist p.uid fd
      match ← db (.accountGetOne p.uid) with
      | none => return [AccountResult.loginUserNotExist.append]
      | some a =>
        let s : Session := ⟨a.type, p.uid, junk.admin, .fd, lit "", fd⟩
        let _ ← sessionAddFd s
        let token ← if p.tokenExpire > 0 then loginToken s junk.guid else pure []
        return token ++ [appendInt "type" a.type, appendString "nick" a.nick,
          appendString "comment" a.comment, loginResult conflict]
    else return [AccountResult.loginInvalidUserOrPwd.append]

def loginByToken (fd : ℤ) (token : CString) : Handler Reply := do
  match ← sessionRefToken token with
  | none => return [AccountResult.sessionExpired.append]
  | some old =>
    let s ← sessionRead old
    let ns := { s with sType := .fd, fd := fd, token := lit "" }
    sessionDref old
    let conflict ← resAccountCheckSessionExist ns.uid fd
    let _ ← sessionAddFd ns
    match ← db (.accountGetOne ns.uid) with
    | none => return [AccountResult.loginUserNotExist.append]
    | some a =>
      return [appendInt "type" a.type, appendString "uid" a.uid, appendString "nick" a.nick,
        appendString "comment" a.comment, loginResult conflict]

def resAccountLogin (junk : Junk) (fd : ℤ) (pack : Pack) : Handler Reply :=
  let p := loginParam junk pack
  if validUid p.uid && validPwd p.pwd then loginByPwd junk fd p
  else if validToken p.token then loginByToken fd p.token
  else return [AccountResult.illegalParameter.append]

def resAccountLogout (fd : ℤ) : Handler Reply := do
  match ← sessionRefFd fd with
  | none => return [AccountResult.sessionExpired.append]
  | some session =>
    sessionDref session
    let _ ← sessionDelFd fd
    return [AccountResult.ok.append]

/-- `a.type` is not initialised. -/
def createParam (junk : Junk) (pack : Pack) : Account :=
  (pack.getD []).foldl (fun a f =>
    if f.key = lit "type" then { a with type := f.value.toInt }
    else if f.key = lit "uid" then
      { a with uid := wordToLower (strncpy 17 f.value.toCString (junk.behind "uid")) }
    else if f.key = lit "pwd" then
      { a with pwd := strncpy 129 f.value.toCString (junk.behind "pwd") }
    else if f.key = lit "nick" then
      { a with nick := strncpy 65 f.value.toCString (junk.behind "nick") }
    else if f.key = lit "comment" then
      { a with comment := strncpy 257 f.value.toCString (junk.behind "comment") }
    else a) ⟨junk.type, lit "", lit "", lit "", lit ""⟩

def validAccount (a : Account) : Bool :=
  validUid a.uid && validPwd a.pwd && validType a.type && validNick a.nick &&
    validComment a.comment

/-- What follows the permission check. -/
def createAccount (a : Account) : Handler Reply := do
  match ← db (.accountGetOne a.uid) with
  | some _ => return [AccountResult.createUidExist.append]
  | none =>
    if ← db (.accountAdd { a with uid := wordToLower a.uid }) then
      return [AccountResult.ok.append]
    else return [AccountResult.serviceUnavailable.append]

/-- `s->admin` is copied before `session_dref`, but the test reads it again. -/
def resAccountCreate (junk : Junk) (fd : ℤ) (pack : Pack) : Handler Reply := do
  let a := createParam junk pack
  if validAccount a then
    match ← sessionRefFd fd with
    | none => return [AccountResult.noPermission.append]
    | some s =>
      let _ ← sessionRead s
      sessionDref s
      if (← sessionRead s).admin = 0 then return [AccountResult.noPermission.append]
      else createAccount a
  else return [AccountResult.illegalParameter.append]

structure PwdParam where
  oldPwd : CString
  newPwd : CString

def modifyPwdParam (junk : Junk) (pack : Pack) : PwdParam :=
  (pack.getD []).foldl (fun p f =>
    if f.key = lit "old_pwd" then
      { p with oldPwd := strncpy 17 f.value.toCString (junk.behind "old_pwd") }
    else if f.key = lit "new_pwd" then
      { p with newPwd := strncpy 17 f.value.toCString (junk.behind "new_pwd") }
    else p) ⟨lit "", lit ""⟩

/-- The old password is checked as the password of a user of that name. -/
def resAccountModifyPwd (junk : Junk) (fd : ℤ) (pack : Pack) : Handler Reply := do
  let p := modifyPwdParam junk pack
  if !(validPwd p.oldPwd && validPwd p.newPwd) then
    return [AccountResult.illegalParameter.append]
  else if p.oldPwd = p.newPwd then return [AccountResult.modifyPwdSame.append]
  else
    match ← sessionRefFd fd with
    | none => return [AccountResult.sessionExpired.append]
    | some session =>
      if ← db (.accountPwdCheck p.oldPwd p.oldPwd) then
        let s ← sessionRead session
        let r ← db (.accountUpdatePwd s.uid p.newPwd)
        sessionDref session
        if r then return [AccountResult.ok.append]
        else return [AccountResult.serviceUnavailable.append]
      else
        sessionDref session
        return [AccountResult.oldPwdIncorrect.append]

structure BasicParam where
  nick : CString
  comment : CString

def modifyBasicParam (junk : Junk) (pack : Pack) : BasicParam :=
  (pack.getD []).foldl (fun p f =>
    if f.key = lit "nick" then
      { p with nick := strncpy 17 f.value.toCString (junk.behind "nick") }
    else if f.key = lit "comment" then
      { p with comment := strncpy 17 f.value.toCString (junk.behind "comment") }
    else p) ⟨lit "", lit ""⟩

def resAccountModifyBasic (junk : Junk) (fd : ℤ) (pack : Pack) : Handler Reply := do
  let p := modifyBasicParam junk pack
  match ← sessionRefFd fd with
  | none => return [AccountResult.sessionExpired.append]
  | some session =>
    let s ← sessionRead session
    if ← db (.accountUpdateNick s.uid p.nick) then
      let s ← sessionRead session
      if ← db (.accountUpdateComment s.uid p.comment) then return [AccountResult.ok.append]
      else return [AccountResult.serviceUnavailable.append]
    else return [AccountResult.serviceUnavailable.append]

structure DeleteParam where
  oldPwd : CString
  uid : CString

def deleteParam (junk : Junk) (pack : Pack) : DeleteParam :=
  (pack.getD []).foldl (fun p f =>
    if f.key = lit "old_pwd" then
      { p with oldPwd := strncpy 17 f.value.toCString (junk.behind "old_pwd") }
    else if f.key = lit "uid" then
      { p with uid := strncpy 17 f.value.toCString (junk.behind "uid") }
    else p) ⟨lit "", lit ""⟩

def deleted (r : Bool) : Reply :=
  [if r then AccountResult.ok.append else AccountResult.serviceUnavailable.append]

/-- The session is one of an administrator, and there is no other. -/
def lastAdmin (s : Session) : Handler Bool := do
  if s.aType = accountAdmin then
    let accounts ← db .accountGet
    return accounts.countP (·.type = accountAdmin) ≤ 1
  else return false

/-- The user deletes its own account. -/
def deleteOwn (fd : ℤ) (uid : CString) (session : ℕ) : Handler Reply := do
  if ← lastAdmin (← sessionRead session) then
    sessionDref session
    return [AccountResult.cannotDeleteLastAdmin.append]
  else
    sessionDref session
    let _ ← sessionDelFd fd
    let _ ← sessionDelToken uid
    return deleted (← db (.accountDel uid))

/-- An administrator deletes the account of another user. -/
def deleteOther (uid : CString) (session : ℕ) : Handler Reply := do
  if (← sessionRead session).admin = 0 then
    sessionDref session
    return [AccountResult.noPermission.append]
  else
    sessionDref session
    return deleted (← db (.accountDel uid))

def resAccountDelete (junk : Junk) (fd : ℤ) (pack : Pack) : Handler Reply := do
  let p := deleteParam junk pack
  if validUid p.uid && validPwd p.oldPwd then
    match ← sessionRefFd fd with
    | none => return [AccountResult.sessionExpired.append]
    | some session =>
      let s ← sessionRead session
      if ← db (.accountPwdCheck s.uid p.oldPwd) then
        if (← sessionRead session).uid = p.uid then deleteOwn fd p.uid session
        else deleteOther p.uid session
      else return [AccountResult.oldPwdIncorrect.append]
  else return [AccountResult.illegalParameter.append]

/-- The block marked `check permission`: `some` reply ends the handler. -/
def checkPermission (fd : ℤ) (allowed : ℤ → Bool) (expired denied : PackOp) :
    Handler (Option Reply) := do
  match ← sessionRefFd fd with
  | none => return some [expired]
  | some session =>
    let s ← sessionRead session
    sessionDref session
    return if allowed s.aType then none else some [denied]

def resAccountList (fd : ℤ) : Handler Reply := do
  match ← checkPermission fd (· = accountAdmin) DishResult.noPermission.append
      DishResult.noPermission.append with
  | some reply => return reply
  | none =>
    match ← db .accountGet with
    | [] => return [DishResult.ok.append, appendInt "count" 0]
    | accounts =>
      return [DishResult.ok.append, appendInt "count" accounts.length,
          .start .array (lit "account")] ++
        accounts.flatMap (fun a => [.start .object (lit "account_one"),
          appendInt "type" a.type, appendString "uid" a.uid, appendString "nick" a.nick,
          appendString "comment" a.comment, .finish .object]) ++ [.finish .array]

/-! ## `res_dish.c` -/

def checkMenuPermission (fd : ℤ) : Handler (Option Reply) :=
  checkPermission fd (fun t => t = accountMenu || t = accountAdmin) DishResult.noPermission.append
    DishResult.noPermission.append

/-- The value of the last element of a name that is read as an integer. -/
def intParam (pack : Pack) (key : String) (default : ℤ) : ℤ :=
  (pack.getD []).foldl (fun x f => if f.key = lit key then f.value.toInt else x) default

def resDishFetch (fd : ℤ) (pack : Pack) : Handler Reply := do
  match ← checkMenuPermission fd with
  | some reply => return reply
  | none =>
    match ← db (.dishGetByCategory (intParam pack "category" 0)) with
    | [] => return [DishResult.ok.append, appendInt "count" 0]
    | dishes =>
      return [DishResult.ok.append, appendInt "count" dishes.length, .start .array (lit "dish")] ++
        dishes.flatMap (fun d => [.start .object (lit "dish_one"), appendInt "id" d.id,
          appendInt "category" d.category, appendString "name" d.name,
          appendString "summary" d.summary, appendInt "price_type" d.priceType,
          appendInt "price" d.price, .finish .object]) ++ [.finish .array]

structure BookParam where
  jinOrPlate : Amount
  comment : CString

def bookParam (junk : Junk) (pack : Pack) : BookParam :=
  (pack.getD []).foldl (fun p f =>
    if f.key = lit "jin_or_plate" then { p with jinOrPlate := f.value.toAmount }
    else if f.key = lit "comment" then
      { p with comment := strncpy 256 f.value.toCString (junk.behind "comment") }
    else p) ⟨.whole (-1), lit ""⟩

/-- The comment is copied into the booking without its terminator. -/
def resDishBook (junk : Junk) (fd : ℤ) (pack : Pack) : Handler Reply := do
  match ← checkMenuPermission fd with
  | some reply => return reply
  | none =>
    let seatId := intParam pack "seat_id" (-1)
    let dishId := intParam pack "dish_id" (-1)
    let p := bookParam junk pack
    if seatId < 0 || dishId < 0 || p.jinOrPlate.nonpos then
      return [DishResult.illegalParameter.append]
    else if !(← db (.dishGetOne dishId)) then return [DishResult.dishIdInvalid.append]
    else if !(← db (.seatGetOne seatId)) then return [DishResult.seatIdInvalid.append]
    else if ← db (.bookAdd seatId dishId p.jinOrPlate
        (strncpy p.comment.bytes.length p.comment (junk.behind "book.comment"))) then
      return [DishResult.ok.append]
    else return [DishResult.serviceUnavailable.append]

/-- The seat is passed on as the number of a booking. -/
def resDishCancel (fd : ℤ) (pack : Pack) : Handler Reply := do
  match ← checkMenuPermission fd with
  | some reply => return reply
  | none =>
    let seatId := intParam pack "seat_id" (-1)
    if seatId < 0 then return [DishResult.illegalParameter.append]
    else if !(← db (.seatGetOne seatId)) then return [DishResult.seatIdInvalid.append]
    else if ← db (.bookDel seatId) then return [DishResult.ok.append]
    else return [DishResult.serviceUnavailable.append]

def resDishList (fd : ℤ) (pack : Pack) : Handler Reply := do
  match ← checkMenuPermission fd with
  | some reply => return reply
  | none =>
    let seatId := intParam pack "seat_id" (-1)
    if seatId < 0 then return [DishResult.illegalParameter.append]
    else if !(← db (.seatGetOne seatId)) then return [DishResult.seatIdInvalid.append]
    else
      match ← db (.bookGet seatId) with
      | [] => return [DishResult.ok.append, appendInt "count" 0]
      | books =>
        return [DishResult.ok.append, appendInt "count" books.length,
            .start .array (lit "book")] ++
          books.flatMap (fun b => [.start .object (lit "book_one"),
            appendInt "book_id" b.bookId, appendInt "seat_id" b.seatId,
            appendInt "dish_id" b.dishId, .double (lit "jin_or_plate") b.jinOrPlate,
            appendString "comment" b.comment, appendInt "accept_state" b.acceptState,
            .finish .object]) ++ [.finish .array]

/-! ## `res_seat.c` and `res_cook.c` -/

/-- Any session will do. -/
def resSeatList (fd : ℤ) : Handler Reply := do
  match ← sessionRefFd fd with
  | none => return [DishResult.noPermission.append]
  | some session =>
    sessionDref session
    match ← db .seatGet with
    | [] => return [DishResult.ok.append, appendInt "count" 0]
    | seats =>
      return [DishResult.ok.append, appendInt "count" seats.length, .start .array (lit "seat")] ++
        seats.flatMap (fun s => [.start .object (lit "seat_one"), appendInt "id" s.id,
          appendString "summary" s.summary, appendString "qrcode" s.qrcode, .finish .object]) ++
        [.finish .array]

/-- Without a session the reply is `cook_r_ok`. The element `cook_id` is read into the
seat, so that the cook stays -1. -/
def resCookAccept (fd : ℤ) (pack : Pack) : Handler Reply := do
  match ← checkPermission fd (fun t => t = accountCook || t = accountAdmin) CookResult.ok.append
      CookResult.noPermission.append with
  | some reply => return reply
  | none =>
    let seatId := (pack.getD []).foldl (fun x f =>
      if f.key = lit "seat_id" || f.key = lit "cook_id" then f.value.toInt else x) (-1)
    let cookId : ℤ := -1
    let number := intParam pack "number" (-1)
    if seatId < 0 || cookId < 0 || number < 0 then return [CookResult.illegalParameter.append]
    else if !(← db (.dishGetOne cookId)) then return [CookResult.dishIdInvalid.append]
    else if !(← db (.seatGetOne seatId)) then return [CookResult.seatIdInvalid.append]
    else return [CookResult.ok.append]

/-! ## All handlers -/

inductive Kind where
  | heartbeat
  | accountLogin
  | accountLogout
  | accountCreate
  | accountModifyPwd
  | accountModifyBasic
  | accountDelete
  | accountList
  | dishFetch
  | dishBook
  | dishCancel
  | dishList
  | seatList
  | cookAccept
deriving DecidableEq

/-- A request as a worker gets it, on the file descriptor of a connection. -/
structure Request where
  kind : Kind
  fd : ℕ
  pack : Pack
  junk : Junk

def Request.handler (r : Request) : Handler Reply :=
  match r.kind with
  | .heartbeat => resHeartbeat r.fd
  | .accountLogin => resAccountLogin r.junk r.fd r.pack
  | .accountLogout => resAccountLogout r.fd
  | .accountCreate => resAccountCreate r.junk r.fd r.pack
  | .accountModifyPwd => resAccountModifyPwd r.junk r.fd r.pack
  | .accountModifyBasic => resAccountModifyBasic r.junk r.fd r.pack
  | .accountDelete => resAccountDelete r.junk r.fd r.pack
  | .accountList => resAccountList r.fd
  | .dishFetch => resDishFetch r.fd r.pack
  | .dishBook => resDishBook r.junk r.fd r.pack
  | .dishCancel => resDishCancel r.fd r.pack
  | .dishList => resDishList r.fd r.pack
  | .seatList => resSeatList r.fd
  | .cookAccept => resCookAccept r.fd r.pack

end Youmenu.Server
