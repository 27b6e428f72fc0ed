import Youmenu.Client.Codecs
import Youmenu.Server.Strings

/-!
# Requests from the client to the server

The functions of `req_account.c`, `req_dish.c` and `req_cook.c` test their arguments and
append them to a pack; the handlers read them back under the same keys into variables and
arrays of their own, and test them again.

## Main definitions

* `clientAccountLogin`, `clientDishFetch`, `clientCookAccept`, … — the packs.
* `received` — what a handler's iterator finds in the bytes of a pack.
* `ClientCall` — the calls whose requests are understood, with `Understood` and `Arrives`.
* `CookAccepted` — what is asked of a cook's acceptance.
-/

namespace Youmenu.Client

open Eventpack Server Program Bytes

/-! ## The source -/

/-- `connect_t`, with the type of the account that is logged in. -/
structure Connect where
  session : Option ℤ

/-- `account_t`, as the caller fills it in. -/
structure NewAccount where
  type : BitVec 32
  uid : CString
  pwd : CString
  nick : CString
  comment : CString

def clientAccountLogin (connect : Option Connect) (uid pwd : CString) (tokenExpire : BitVec 32) :
    Except AccountResult (List PackElem) :=
  match connect with
  | none => .error .illegalParameter
  | some c =>
    if !validUid uid || !validPwd pwd || tokenExpire.toInt < 0 then .error .illegalParameter
    else if c.session.isSome then .error .loginAlreadyLogin
    else .ok [strElem "uid" uid, strElem "pwd" pwd, .int (lit "token_expire") tokenExpire]

def clientAccountLogin2 (connect : Option Connect) (token : CString) :
    Except AccountResult (List PackElem) :=
  match connect with
  | none => .error .illegalParameter
  | some c =>
    if !validToken token then .error .illegalParameter
    else if c.session.isSome then .error .loginAlreadyLogin
    else .ok [strElem "token" token]

/-- A function that needs a session: it tests its arguments, then the session, and fills
the pack. -/
def clientRequest {ρ : Type} (illegal denied : ρ) (connect : Option Connect) (valid : Bool)
    (allowed : ℤ → Bool) (elems : List PackElem) : Except ρ (List PackElem) :=
  match connect.bind Connect.session with
  | none => .error illegal
  | some type =>
    if !valid then .error illegal
    else if !allowed type then .error denied
    else .ok elems

/-- The type of the new account is not tested. -/
def clientAccountCreate (connect : Option Connect) (user : NewAccount) :
    Except AccountResult (List PackElem) :=
  clientRequest .illegalParameter .noPermission connect
    (validUid user.uid && validPwd user.pwd && validNick user.nick && validComment user.comment)
    (· = accountAdmin)
    ([strElem "uid" user.uid, strElem "pwd" user.pwd, .int (lit "type") user.type] ++
      (if user.nick.bytes ≠ [] then [strElem "nick" user.nick] else []) ++
      (if user.comment.bytes ≠ [] then [strElem "comment" user.comment] else []))

/-- Any session will do, but not the same password again. -/
def clientAccountModifyPwd (connect : Option Connect) (oldPwd newPwd : CString) :
    Except AccountResult (List PackElem) :=
  clientRequest .illegalParameter .modifyPwdSame connect (validUid oldPwd && validPwd newPwd)
    (fun _ => oldPwd ≠ newPwd) [strElem "old_pwd" oldPwd, strElem "new_pwd" newPwd]

def clientAccountDelete (connect : Option Connect) (uid oldPwd : CString) :
    Except AccountResult (List PackElem) :=
  clientRequest .illegalParameter .noPermission connect (validPwd oldPwd && validUid uid)
    (· = accountAdmin) [strElem "uid" uid, strElem "old_pwd" oldPwd]

/-- The functions of `req_dish.c`. -/
def clientDishRequest (connect : Option Connect) (valid : Bool) (elems : List PackElem) :
    Except DishResult (List PackElem) :=
  clientRequest .illegalParameter .noPermission connect valid
    (fun type => type = accountAdmin || type = accountMenu) elems

def clientDishFetchPack (connect : Option Connect) (category : BitVec 32) :
    Except DishResult (List PackElem) :=
  clientDishRequest connect true [.int (lit "category") category]

def clientDishCancel (connect : Option Connect) (seatId : BitVec 32) :
    Except DishResult (List PackElem) :=
  clientDishRequest connect (0 ≤ seatId.toInt) [.int (lit "seat_id") seatId]

def clientDishListPack (connect : Option Connect) (seatId : BitVec 32) :
    Except DishResult (List PackElem) :=
  clientDishRequest connect (0 ≤ seatId.toInt) [.int (lit "seat_id") seatId]

def clientCookAccept (connect : Option Connect) (seatId dishId number : BitVec 32) :
    Except CookResult (List PackElem) :=
  clientRequest .illegalParameter .noPermission connect
    (0 ≤ seatId.toInt && 0 ≤ dishId.toInt && 0 ≤ number.toInt)
    (fun type => type = accountAdmin || type = accountCook)
    [.int (lit "seat_id") seatId, .int (lit "dish_id") dishId, .int (lit "number") number]

/-- What the iterator of a handler finds: the pack is finished, its bytes go to the server,
and `ep_io_processor` makes a pack of them again. No handler runs if that fails. -/
def received (junk : List UInt8) (elems : List PackElem) : Option (List PackField) := do
  let sent ← epPackFinish junk (elemsOps elems)
  let pack ← (epPackCreate (epPackData sent) (epPackSize sent)).join
  let elems ← packElems (pack.data.length + 1) (epPackIteratorGet pack)
  return elems.map elemField

/-! ## The way of a pack -/

/-- The bytes of a packet that fits come through unless their number is a multiple of 256. -/
theorem received_eq {elems : List PackElem}
    (hok : ∀ op ∈ elemsOps elems, op.KeyOk ∧ op.ValueOk)
    (hsmall : 3 * packTotal (elemsOps elems) ≤ int32Max) {junk : List UInt8}
    (hj : junk.length = 4) :
    received junk elems =
      if packTotal (elemsOps elems) % 256 = 0 then none else some (elems.map elemField) := by
  have hfits := fits_of_small hsmall
  split_ifs with hmod
  · obtain ⟨b, bs, hfinish, hdoc, hbs, hdata⟩ := epPackFinish_of_fits (wellNested_elemsOps elems)
      (fun op hop => (hok op hop).1) (fun op hop => (hok op hop).2) hfits hj
    obtain ⟨-, -, -, hlen⟩ := hfits
    have hcreate := (epPackCreate_finished hdoc (by omega) hdata).1 (by omega)
    simp [received, hfinish, hcreate]
  · obtain ⟨b, p, hfinish, hcreate, helems⟩ :=
      packElems_of_roundTrips ((roundTrips_elems_iff hok).mpr ⟨hfits, hmod⟩) hj
    simp [received, hfinish, hcreate, helems]

/-- The elements that the requests are made of. -/
inductive Flat : PackElem → Prop
  | string {key data : CString} (hkey : ValidUtf8 key.bytes) (hdata : ValidUtf8 data.bytes) :
      Flat (.string key data)
  | int {key : CString} {value : BitVec 32} (hkey : ValidUtf8 key.bytes) : Flat (.int key value)

/-- The bytes of the pack that has the elements. -/
def packLength (elems : List PackElem) : ℕ := packTotal (elemsOps elems)

theorem packLength_nil : packLength [] = 5 := by
  rw [packLength, elemsOps_nil]
  rfl

theorem packLength_string (key : String) (data : CString) (elems : List PackElem) :
    packLength (strElem key data :: elems) =
      (lit key).bytes.length + data.bytes.length + 7 + packLength elems := by
  simp only [packLength, strElem, elemsOps_cons, PackElem.ops, packTotal, packBytes,
    List.singleton_append, List.map_cons, List.sum_cons, PackOp.size, PackOp.element,
    List.length_append, length_leBytes, List.length_singleton]
  omega

theorem packLength_int (key : String) (value : BitVec 32) (elems : List PackElem) :
    packLength (.int (lit key) value :: elems) = (lit key).bytes.length + 6 + packLength elems := by
  simp only [packLength, elemsOps_cons, PackElem.ops, packTotal, packBytes, List.singleton_append,
    List.map_cons, List.sum_cons, PackOp.size, PackOp.element, length_leBytes]
  omega

theorem ok_of_flat {elems : List PackElem} (h : ∀ e ∈ elems, Flat e) :
    ∀ op ∈ elemsOps elems, op.KeyOk ∧ op.ValueOk := by
  induction elems with
  | nil => simp
  | cons e elems ih =>
    simp only [List.mem_cons, forall_eq_or_imp] at h
    obtain ⟨he, hrest⟩ := h
    rw [elemsOps_cons, List.forall_mem_append]
    refine ⟨?_, ih hrest⟩
    cases he with
    | string hkey hdata => simpa [PackElem.ops] using ⟨hkey, hdata⟩
    | int hkey => simpa [PackElem.ops] using ⟨hkey, trivial⟩

/-- The handler of a small request finds its elements, unless the bytes of the pack are a
multiple of 256. -/
theorem received_flat {elems : List PackElem} (h : ∀ e ∈ elems, Flat e)
    (hsmall : packLength elems < 512) {junk : List UInt8} (hj : junk.length = 4) :
    received junk elems =
      if packLength elems = 256 then none else some (elems.map elemField) := by
  have hpos : 5 ≤ packLength elems := by
    rw [packLength, packTotal]
    omega
  have heq := received_eq (ok_of_flat h) (by
      rw [← packLength, int32Max]
      omega) hj
  rw [heq, ← packLength]
  exact if_congr (by omega) rfl rfl

/-! ## A cook accepts -/

/-- `seat_id`, `cook_id` and `number` behind the loop of `res_cook_accept`. -/
def cookParam (pack : Pack) : ℤ × ℤ × ℤ :=
  ((pack.getD []).foldl (fun x f =>
      if f.key = lit "seat_id" || f.key = lit "cook_id" then f.value.toInt else x) (-1),
    -1, intParam pack "number" (-1))

/-- What `res_cook_accept` does with the three. -/
def cookAnswer : ℤ × ℤ × ℤ → Handler Reply
  | (seatId, cookId, number) => do
    if seatId < 0 || cookId < 0 || number < 0 then return [CookResult.illegalParameter.append]
    else if !(← db (.dishGetOne cookId)) then return [CookResult.dishIdInvalid.append]
    else if !(← db (.seatGetOne seatId)) then return [CookResult.seatIdInvalid.append]
    else return [CookResult.ok.append]

theorem resCookAccept_eq (fd : ℤ) (pack : Pack) : resCookAccept fd pack = (do
    match ← checkPermission fd (fun t => t = accountCook || t = accountAdmin) CookResult.ok.append
        CookResult.noPermission.append with
    | some reply => return reply
    | none => cookAnswer (cookParam pack)) := rfl

/-- The connection has a session of a cook or an administrator. -/
def CookSession (m : SessionMod) (fd : ℕ) : Prop :=
  ∃ n ∈ m.sessionList, n.session.fd = fd ∧
    (n.session.aType = accountCook ∨ n.session.aType = accountAdmin)

/-- The answer to an acceptance, by what the database knows of the seat and the dish. -/
def RightAnswer (seatKnown dishKnown : Bool) (reply : Reply) : Prop :=
  (seatKnown → dishKnown → reply = [CookResult.ok.append]) ∧
    (¬ seatKnown → dishKnown → reply = [CookResult.seatIdInvalid.append]) ∧
    (seatKnown → ¬ dishKnown → reply = [CookResult.dishIdInvalid.append])

/-- The request of the client reaches `res_cook_accept`, which reads exactly the numbers that
were sent, returns, and answers as the database says. -/
def CookAccepted {δ : Type} (db : Db δ) (s : SessionMod × δ) (fd : ℕ) (junk : List UInt8)
    (elems : List PackElem) (seatId dishId number : BitVec 32) : Prop :=
  ∃ fields reply s', received junk elems = some fields ∧
    cookParam (some fields) = (seatId.toInt, dishId.toInt, number.toInt) ∧
    (resCookAccept fd (some fields)).exec (interp db) s = some (reply, s') ∧
    RightAnswer (db (.seatGetOne seatId.toInt) s.2).1 (db (.dishGetOne dishId.toInt) s.2).1 reply

section Cook

variable {δ : Type} {db : Db δ} {d : δ} {m : SessionMod} {fd : ℕ} {junk : List UInt8}
  {connect : Option Connect} {seatId dishId number : BitVec 32} {elems : List PackElem}

/-- What a request was made of has passed the tests of the client. -/
theorem clientRequest_ok {ρ : Type} {illegal denied : ρ} {valid : Bool} {allowed : ℤ → Bool}
    {elems' : List PackElem}
    (h : clientRequest illegal denied connect valid allowed elems = .ok elems') :
    elems' = elems ∧ valid = true ∧ ∃ type, allowed type = true := by
  unfold clientRequest at h
  split at h
  · cases h
  · next type hsession =>
    split_ifs at h with hvalid hallowed
    cases h
    exact ⟨rfl, by simpa using hvalid, type, by simpa using hallowed⟩

theorem received_cookAccept (hj : junk.length = 4)
    (hpass : clientCookAccept connect seatId dishId number = .ok elems) :
    received junk elems = some [⟨lit "seat_id", .int seatId⟩, ⟨lit "dish_id", .int dishId⟩,
      ⟨lit "number", .int number⟩] := by
  obtain ⟨rfl, -, -⟩ := clientRequest_ok hpass
  have hlength : packLength [.int (lit "seat_id") seatId, .int (lit "dish_id") dishId,
      .int (lit "number") number] = 43 := by
    simp only [packLength_int, packLength_nil]
    decide
  have hflat : ∀ e ∈ ([.int (lit "seat_id") seatId, .int (lit "dish_id") dishId,
      .int (lit "number") number] : List PackElem), Flat e := by
    simp only [List.forall_mem_cons, List.not_mem_nil, false_imp_iff, implies_true, and_true]
    exact ⟨.int (by decide), .int (by decide), .int (by decide)⟩
  rw [received_flat hflat (by omega) hj, if_neg (by omega)]
  rfl

/-- The dish is not among the keys that are read, and the cook is not among those that are
sent. -/
theorem cookParam_sent : cookParam (some [⟨lit "seat_id", .int seatId⟩,
    ⟨lit "dish_id", .int dishId⟩, ⟨lit "number", .int number⟩]) =
      (seatId.toInt, -1, number.toInt) := rfl

variable (db d) in
theorem wp_resCookAccept_negative (hm : Settled (fun _ _ _ => True) m) (hsession : CookSession m fd)
    {pack : Pack} (hcook : (cookParam pack).2.1 < 0) :
    (resCookAccept fd pack).wp (interp db) (fun reply s =>
      reply = [CookResult.illegalParameter.append] ∧ s = (m, d)) (m, d) := by
  obtain ⟨n, hn, hfd, htype⟩ := hsession
  rw [resCookAccept_eq]
  refine wp_checkPermission_allowed hm ⟨n, hn, hfd, by simpa using htype⟩ ?_
  simp only [cookAnswer, hcook, decide_true, Bool.or_true, Bool.true_or, if_true]
  exact ⟨rfl, rfl⟩

/-- The answer to every acceptance that a client sends. -/
theorem cookAccept_illegal (hj : junk.length = 4)
    (hpass : clientCookAccept connect seatId dishId number = .ok elems)
    (hm : Settled (fun _ _ _ => True) m) (hsession : CookSession m fd) (db : Db δ) (d : δ) :
    ∃ fields, received junk elems = some fields ∧
      cookParam (some fields) = (seatId.toInt, -1, number.toInt) ∧
      (resCookAccept fd (some fields)).exec (interp db) (m, d) =
        some ([CookResult.illegalParameter.append], m, d) := by
  refine ⟨_, received_cookAccept hj hpass, cookParam_sent, ?_⟩
  have hneg : (cookParam (some [⟨lit "seat_id", .int seatId⟩, ⟨lit "dish_id", .int dishId⟩,
      ⟨lit "number", .int number⟩])).2.1 < 0 := by
    rw [cookParam_sent]
    exact Int.negSucc_lt_zero 0
  obtain ⟨reply, s, hexec, rfl, rfl⟩ :=
    wp_iff_exec.mp (wp_resCookAccept_negative db d hm hsession hneg)
  exact hexec

theorem not_cookAccepted (hj : junk.length = 4)
    (hpass : clientCookAccept connect seatId dishId number = .ok elems)
    (hm : Settled (fun _ _ _ => True) m) (hsession : CookSession m fd) (db : Db δ) (d : δ) :
    ¬ CookAccepted db (m, d) fd junk elems seatId dishId number := by
  rintro ⟨fields, reply, s', hreceived, hparam, -, -⟩
  obtain ⟨fields', hreceived', hparam', -⟩ := cookAccept_illegal hj hpass hm hsession db d
  obtain rfl := Option.some.inj (hreceived.symm.trans hreceived')
  obtain ⟨-, hvalid, -⟩ := clientRequest_ok hpass
  rw [hparam'] at hparam
  simp only [Prod.mk.injEq] at hparam
  simp only [Bool.and_eq_true, decide_eq_true_eq] at hvalid
  omega

/-- For every acceptance that passes the client's tests, on every connection of a cook or an
administrator and with every database: the handler leaves the cook at -1 and answers
`cook_r_illegal_parameter`, whatever the database knows. -/
theorem cookAccept_never (hj : junk.length = 4)
    (hpass : clientCookAccept connect seatId dishId number = .ok elems)
    (hm : Settled (fun _ _ _ => True) m) (hsession : CookSession m fd) (db : Db δ) (d : δ) :
    ¬ CookAccepted db (m, d) fd junk elems seatId dishId number ∧
      ∃ fields, received junk elems = some fields ∧
        (resCookAccept fd (some fields)).exec (interp db) (m, d) =
          some ([CookResult.illegalParameter.append], m, d) := by
  refine ⟨not_cookAccepted hj hpass hm hsession db d, ?_⟩
  obtain ⟨fields, hreceived, -, hexec⟩ := cookAccept_illegal hj hpass hm hsession db d
  exact ⟨fields, hreceived, hexec⟩

/-- The administrator of the restaurant accepts the tea for table 1. -/
theorem cookAccept_never_tea :
    ¬ CookAccepted (menuDb plainSql emptyDb) (youmenuLoggedIn, smallMenu 1 1, ()) 5 [0, 0, 0, 0]
        [.int (lit "seat_id") 1, .int (lit "dish_id") 1, .int (lit "number") 2] 1 1 2 ∧
      ∃ fields, received [0, 0, 0, 0] [.int (lit "seat_id") 1, .int (lit "dish_id") 1,
          .int (lit "number") 2] = some fields ∧
        (resCookAccept (5 : ℕ) (some fields)).exec (interp (menuDb plainSql emptyDb))
          (youmenuLoggedIn, smallMenu 1 1, ()) =
            some ([CookResult.illegalParameter.append], youmenuLoggedIn, smallMenu 1 1, ()) :=
  have hpass : clientCookAccept (some ⟨some accountAdmin⟩) 1 1 2 =
      .ok [.int (lit "seat_id") 1, .int (lit "dish_id") 1, .int (lit "number") 2] := rfl
  cookAccept_never rfl hpass settled_youmenuLoggedIn ⟨_, List.mem_singleton_self _, rfl, .inr rfl⟩ _ _

/-- Table 1 and the tea are known to the database. -/
theorem cookAccept_refused :
    clientCookAccept (some ⟨some accountAdmin⟩) 1 1 2 =
        .ok [.int (lit "seat_id") 1, .int (lit "dish_id") 1, .int (lit "number") 2] ∧
      (menuDb plainSql emptyDb (.seatGetOne 1) (smallMenu 1 1, ())).1 = true ∧
      (menuDb plainSql emptyDb (.dishGetOne 1) (smallMenu 1 1, ())).1 = true ∧
      ¬ CookAccepted (menuDb plainSql emptyDb) (youmenuLoggedIn, smallMenu 1 1, ()) 5 [0, 0, 0, 0]
        [.int (lit "seat_id") 1, .int (lit "dish_id") 1, .int (lit "number") 2] 1 1 2 :=
  have hpass : clientCookAccept (some ⟨some accountAdmin⟩) 1 1 2 =
      .ok [.int (lit "seat_id") 1, .int (lit "dish_id") 1, .int (lit "number") 2] := rfl
  ⟨rfl, rfl, rfl, not_cookAccepted rfl hpass
    settled_youmenuLoggedIn ⟨_, List.mem_singleton_self _, rfl, .inr rfl⟩ _ _⟩

end Cook

/-! ## Requests that are understood -/

/-- The calls whose parameters the handlers know under the same names. -/
inductive ClientCall where
  | login (uid pwd : CString) (tokenExpire : BitVec 32)
  | login2 (token : CString)
  | create (user : NewAccount)
  | modifyPwd (oldPwd newPwd : CString)
  | delete (uid oldPwd : CString)
  | dishFetch (category : BitVec 32)
  | dishCancel (seatId : BitVec 32)
  | dishList (seatId : BitVec 32)

namespace ClientCall

/-- The pack of a call that passes the tests of its function. -/
def pack (connect : Option Connect) : ClientCall → Option (List PackElem)
  | login uid pwd tokenExpire => (clientAccountLogin connect uid pwd tokenExpire).toOption
  | login2 token => (clientAccountLogin2 connect token).toOption
  | create user => (clientAccountCreate connect user).toOption
  | modifyPwd oldPwd newPwd => (clientAccountModifyPwd connect oldPwd newPwd).toOption
  | delete uid oldPwd => (clientAccountDelete connect uid oldPwd).toOption
  | dishFetch category => (clientDishFetchPack connect category).toOption
  | dishCancel seatId => (clientDishCancel connect seatId).toOption
  | dishList seatId => (clientDishListPack connect seatId).toOption

def strings : ClientCall → List CString
  | login uid pwd _ => [uid, pwd]
  | login2 token => [token]
  | create user => [user.uid, user.pwd, user.nick, user.comment]
  | modifyPwd oldPwd newPwd => [oldPwd, newPwd]
  | delete uid oldPwd => [uid, oldPwd]
  | dishFetch _ | dishCancel _ | dishList _ => []

/-- The variables of the handler are the arguments, and pass its tests. -/
def Read (mem : Junk) (pack : Pack) : ClientCall → Prop
  | login uid pwd tokenExpire =>
    let p := loginParam mem pack
    p = ⟨wordToLower uid, pwd, lit "", tokenExpire.toInt⟩ ∧ validUid p.uid ∧ validPwd p.pwd
  | login2 token =>
    let p := loginParam mem pack
    p = ⟨lit "", lit "", token, 0⟩ ∧ validToken p.token
  | create user =>
    let a := createParam mem pack
    a = ⟨user.type.toInt, wordToLower user.uid, user.pwd, user.nick, user.comment⟩ ∧ validAccount a
  | modifyPwd oldPwd newPwd =>
    let p := modifyPwdParam mem pack
    p = ⟨oldPwd, newPwd⟩ ∧ validPwd p.oldPwd ∧ validPwd p.newPwd ∧ p.oldPwd ≠ p.newPwd
  | delete uid oldPwd =>
    let p := deleteParam mem pack
    p = ⟨oldPwd, uid⟩ ∧ validUid p.uid ∧ validPwd p.oldPwd
  | dishFetch category => intParam pack "category" 0 = category.toInt
  | dishCancel seatId | dishList seatId =>
    intParam pack "seat_id" (-1) = seatId.toInt ∧ 0 ≤ intParam pack "seat_id" (-1)

/-- The request reaches its handler, which reads what was sent. -/
def Understood (junk : List UInt8) (mem : Junk) (elems : List PackElem) (c : ClientCall) : Prop :=
  ∃ fields, received junk elems = some fields ∧ c.Read mem (some fields)

/-- The condition on a call: a pack of 256 bytes is dropped, and the type of a new account is
tested by the server only. -/
def Arrives : ClientCall → Prop
  | create user =>
    35 + user.uid.bytes.length + user.pwd.bytes.length +
        (if user.nick.bytes = [] then 0 else 11 + user.nick.bytes.length) +
        (if user.comment.bytes = [] then 0 else 14 + user.comment.bytes.length) ≠ 256 ∧
      0 ≤ user.type.toInt ∧ user.type.toInt ≤ 3
  | _ => True

end ClientCall

section Calls

variable {junk : List UInt8} {mem : Junk} {connect : Option Connect} {elems : List PackElem}

theorem understood_of_flat {c : ClientCall} (hflat : ∀ e ∈ elems, Flat e)
    (hsmall : packLength elems < 512) (hj : junk.length = 4) :
    c.Understood junk mem elems ↔
      packLength elems ≠ 256 ∧ c.Read mem (some (elems.map elemField)) := by
  rw [ClientCall.Understood, received_flat hflat hsmall hj]
  split_ifs with hlength
  · simp [hlength]
  · simp [hlength]

/-- A request that is too short to be dropped. -/
theorem understood_of_short {c : ClientCall} (hflat : ∀ e ∈ elems, Flat e)
    (hshort : packLength elems < 256) (hj : junk.length = 4)
    (hread : c.Read mem (some (elems.map elemField))) : c.Understood junk mem elems :=
  (understood_of_flat hflat (by omega) hj).mpr ⟨by omega, hread⟩

theorem validUid_wordToLower {uid : CString} (h : validUid uid) : validUid (wordToLower uid) := by
  rw [validUid_iff, length_wordToLower]
  exact validUid_iff.mp h

theorem forall_flat {e : PackElem} (he : Flat e) (h : ∀ e ∈ elems, Flat e) :
    ∀ e' ∈ e :: elems, Flat e' := List.forall_mem_cons.mpr ⟨he, h⟩

theorem forall_flat_nil : ∀ e ∈ ([] : List PackElem), Flat e := by simp

theorem login_understood {uid pwd : CString} {tokenExpire : BitVec 32} (huid : ValidUtf8 uid.bytes)
    (hpwd : ValidUtf8 pwd.bytes) (hj : junk.length = 4)
    (hpass : clientAccountLogin connect uid pwd tokenExpire = .ok elems) :
    (ClientCall.login uid pwd tokenExpire).Understood junk mem elems := by
  unfold clientAccountLogin at hpass
  split at hpass
  · cases hpass
  · split_ifs at hpass with hvalid hsession
    cases hpass
    simp only [Bool.or_eq_true, Bool.not_eq_true', decide_eq_true_eq, not_or,
      Bool.not_eq_false] at hvalid
    obtain ⟨⟨hvalidUid, hvalidPwd⟩, -⟩ := hvalid
    have huidLen := validUid_iff.mp hvalidUid
    have hpwdLen := validPwd_iff.mp hvalidPwd
    have hlength : packLength [strElem "uid" uid, strElem "pwd" pwd,
        .int (lit "token_expire") tokenExpire] =
          3 + uid.bytes.length + 7 + (3 + pwd.bytes.length + 7 + (12 + 6 + 5)) := by
      rw [packLength_string, packLength_string, packLength_int, packLength_nil]
      rfl
    have hparam : loginParam mem (some [⟨lit "uid", .string uid⟩, ⟨lit "pwd", .string pwd⟩,
        ⟨lit "token_expire", .int tokenExpire⟩]) =
          ⟨wordToLower (strncpy 17 uid (mem.behind "uid")), strncpy 17 pwd (mem.behind "pwd"),
            lit "", tokenExpire.toInt⟩ := rfl
    rw [strncpy_eq (by omega), strncpy_eq (by omega)] at hparam
    refine understood_of_short ?_ (by omega) hj ⟨hparam, ?_⟩
    · exact forall_flat (.string (by decide) huid) <| forall_flat (.string (by decide) hpwd) <|
        forall_flat (.int (by decide)) forall_flat_nil
    · simp only [List.map_cons, List.map_nil, elemField, strElem, hparam]
      exact ⟨validUid_wordToLower hvalidUid, hvalidPwd⟩

theorem login2_understood {token : CString} (htoken : ValidUtf8 token.bytes) (hj : junk.length = 4)
    (hpass : clientAccountLogin2 connect token = .ok elems) :
    (ClientCall.login2 token).Understood junk mem elems := by
  unfold clientAccountLogin2 at hpass
  split at hpass
  · cases hpass
  · split_ifs at hpass with hvalid hsession
    cases hpass
    simp only [Bool.not_eq_true', Bool.not_eq_false] at hvalid
    have hlen := validToken_iff.mp hvalid
    have hlength : packLength [strElem "token" token] = 5 + token.bytes.length + 7 + 5 := by
      rw [packLength_string, packLength_nil]
      rfl
    have hparam : loginParam mem (some [⟨lit "token", .string token⟩]) =
        ⟨lit "", lit "", strncpy 39 token (mem.behind "token"), 0⟩ := rfl
    rw [strncpy_eq (by omega)] at hparam
    refine understood_of_short ?_ (by omega) hj ⟨hparam, ?_⟩
    · exact forall_flat (.string (by decide) htoken) forall_flat_nil
    · simp only [List.map_cons, List.map_nil, elemField, strElem, hparam]
      exact hvalid

theorem modifyPwd_understood {oldPwd newPwd : CString} (hold : ValidUtf8 oldPwd.bytes)
    (hnew : ValidUtf8 newPwd.bytes) (hj : junk.length = 4)
    (hpass : clientAccountModifyPwd connect oldPwd newPwd = .ok elems) :
    (ClientCall.modifyPwd oldPwd newPwd).Understood junk mem elems := by
  obtain ⟨rfl, hvalid, type, hne⟩ := clientRequest_ok hpass
  simp only [Bool.and_eq_true, decide_eq_true_eq] at hvalid hne
  have holdLen := validUid_iff.mp hvalid.1
  have hnewLen := validPwd_iff.mp hvalid.2
  have hlength : packLength [strElem "old_pwd" oldPwd, strElem "new_pwd" newPwd] =
      7 + oldPwd.bytes.length + 7 + (7 + newPwd.bytes.length + 7 + 5) := by
    rw [packLength_string, packLength_string, packLength_nil]
    rfl
  have hparam : modifyPwdParam mem (some [⟨lit "old_pwd", .string oldPwd⟩,
      ⟨lit "new_pwd", .string newPwd⟩]) =
        ⟨strncpy 17 oldPwd (mem.behind "old_pwd"), strncpy 17 newPwd (mem.behind "new_pwd")⟩ := rfl
  rw [strncpy_eq (by omega), strncpy_eq (by omega)] at hparam
  refine understood_of_short ?_ (by omega) hj ⟨hparam, ?_⟩
  · exact forall_flat (.string (by decide) hold) <|
      forall_flat (.string (by decide) hnew) forall_flat_nil
  · simp only [List.map_cons, List.map_nil, elemField, strElem, hparam]
    exact ⟨validPwd_iff.mpr holdLen, hvalid.2, hne⟩

theorem delete_understood {uid oldPwd : CString} (huid : ValidUtf8 uid.bytes)
    (hold : ValidUtf8 oldPwd.bytes) (hj : junk.length = 4)
    (hpass : clientAccountDelete connect uid oldPwd = .ok elems) :
    (ClientCall.delete uid oldPwd).Understood junk mem elems := by
  obtain ⟨rfl, hvalid, -⟩ := clientRequest_ok hpass
  rw [Bool.and_eq_true] at hvalid
  have holdLen := validPwd_iff.mp hvalid.1
  have huidLen := validUid_iff.mp hvalid.2
  have hlength : packLength [strElem "uid" uid, strElem "old_pwd" oldPwd] =
      3 + uid.bytes.length + 7 + (7 + oldPwd.bytes.length + 7 + 5) := by
    rw [packLength_string, packLength_string, packLength_nil]
    rfl
  have hparam : deleteParam mem (some [⟨lit "uid", .string uid⟩,
      ⟨lit "old_pwd", .string oldPwd⟩]) =
        ⟨strncpy 17 oldPwd (mem.behind "old_pwd"), strncpy 17 uid (mem.behind "uid")⟩ := rfl
  rw [strncpy_eq (by omega), strncpy_eq (by omega)] at hparam
  refine understood_of_short ?_ (by omega) hj ⟨hparam, ?_⟩
  · exact forall_flat (.string (by decide) huid) <|
      forall_flat (.string (by decide) hold) forall_flat_nil
  · simp only [List.map_cons, List.map_nil, elemField, strElem, hparam]
    exact ⟨hvalid.2, hvalid.1⟩

/-- A request that consists of one number. -/
theorem understood_of_int {c : ClientCall} {key : String} {n : BitVec 32}
    (hkey : ValidUtf8 (lit key).bytes) (hlen : (lit key).bytes.length < 200) (hj : junk.length = 4)
    (hread : c.Read mem (some [⟨lit key, .int n⟩])) :
    c.Understood junk mem [.int (lit key) n] := by
  refine understood_of_short (forall_flat (.int hkey) forall_flat_nil) ?_ hj hread
  rw [packLength_int, packLength_nil]
  omega

theorem dishFetch_understood {category : BitVec 32} (hj : junk.length = 4)
    (hpass : clientDishFetchPack connect category = .ok elems) :
    (ClientCall.dishFetch category).Understood junk mem elems := by
  obtain ⟨rfl, -⟩ := clientRequest_ok hpass
  exact understood_of_int (by decide) (by decide) hj rfl

theorem dishCancel_understood {seatId : BitVec 32} (hj : junk.length = 4)
    (hpass : clientDishCancel connect seatId = .ok elems) :
    (ClientCall.dishCancel seatId).Understood junk mem elems := by
  obtain ⟨rfl, hvalid, -⟩ := clientRequest_ok hpass
  exact understood_of_int (by decide) (by decide) hj ⟨rfl, of_decide_eq_true hvalid⟩

theorem packLength_optional (key : String) (data : CString) (elems : List PackElem) :
    packLength ((if data.bytes ≠ [] then [strElem key data] else []) ++ elems) =
      (if data.bytes = [] then 0 else (lit key).bytes.length + data.bytes.length + 7) +
        packLength elems := by
  by_cases hdata : data.bytes = []
  · simp [hdata]
  · simp [hdata, packLength_string]

theorem flat_optional {key : String} {data : CString} (hkey : ValidUtf8 (lit key).bytes)
    (hdata : ValidUtf8 data.bytes) (h : ∀ e ∈ elems, Flat e) :
    ∀ e ∈ (if data.bytes ≠ [] then [strElem key data] else []) ++ elems, Flat e := by
  split_ifs
  · exact forall_flat (.string hkey hdata) h
  · exact h

/-- The elements of a new account. -/
def createElems (user : NewAccount) : List PackElem :=
  strElem "uid" user.uid :: strElem "pwd" user.pwd :: .int (lit "type") user.type ::
    ((if user.nick.bytes ≠ [] then [strElem "nick" user.nick] else []) ++
      ((if user.comment.bytes ≠ [] then [strElem "comment" user.comment] else []) ++ []))

theorem createParam_elems (user : NewAccount) :
    createParam mem (some ((createElems user).map elemField)) =
      ⟨user.type.toInt, wordToLower (strncpy 17 user.uid (mem.behind "uid")),
        strncpy 129 user.pwd (mem.behind "pwd"),
        if user.nick.bytes ≠ [] then strncpy 65 user.nick (mem.behind "nick") else lit "",
        if user.comment.bytes ≠ [] then strncpy 257 user.comment (mem.behind "comment")
          else lit ""⟩ := by
  unfold createElems
  split_ifs <;> rfl

/-- A string that is not sent because it is empty is empty on the server. -/
theorem optional_strncpy {n : ℕ} {s behind : CString} (hs : s.bytes.length < n) :
    (if s.bytes ≠ [] then strncpy n s behind else lit "") = s := by
  split_ifs with hne
  · exact strncpy_eq hs
  · exact CString.ext (not_not.mp hne).symm

theorem create_understood_iff {user : NewAccount} (huid : ValidUtf8 user.uid.bytes)
    (hpwd : ValidUtf8 user.pwd.bytes) (hnick : ValidUtf8 user.nick.bytes)
    (hcomment : ValidUtf8 user.comment.bytes) (hj : junk.length = 4)
    (hpass : clientAccountCreate connect user = .ok elems) :
    (ClientCall.create user).Understood junk mem elems ↔ (ClientCall.create user).Arrives := by
  obtain ⟨rfl, hvalid, -⟩ := clientRequest_ok hpass
  simp only [Bool.and_eq_true] at hvalid
  obtain ⟨⟨⟨hvalidUid, hvalidPwd⟩, hvalidNick⟩, hvalidComment⟩ := hvalid
  have huidLen := validUid_iff.mp hvalidUid
  have hpwdLen := validPwd_iff.mp hvalidPwd
  have hnickLen := of_decide_eq_true hvalidNick
  have hcommentLen := of_decide_eq_true hvalidComment
  have helems : [strElem "uid" user.uid, strElem "pwd" user.pwd, .int (lit "type") user.type] ++
      (if user.nick.bytes ≠ [] then [strElem "nick" user.nick] else []) ++
      (if user.comment.bytes ≠ [] then [strElem "comment" user.comment] else []) =
        createElems user := by
    simp [createElems]
  have hlength : packLength (createElems user) = 3 + user.uid.bytes.length + 7 +
      (3 + user.pwd.bytes.length + 7 + (4 + 6 +
        ((if user.nick.bytes = [] then 0 else 4 + user.nick.bytes.length + 7) +
          ((if user.comment.bytes = [] then 0 else 7 + user.comment.bytes.length + 7) + 5)))) := by
    rw [createElems, packLength_string, packLength_string, packLength_int, packLength_optional,
      packLength_optional, packLength_nil]
    rfl
  have hflat : ∀ e ∈ createElems user, Flat e :=
    forall_flat (.string (by decide) huid) <| forall_flat (.string (by decide) hpwd) <|
      forall_flat (.int (by decide)) <| flat_optional (by decide) hnick <|
        flat_optional (by decide) hcomment forall_flat_nil
  have hsmall : packLength (createElems user) < 512 := by
    rw [hlength]
    split_ifs <;> omega
  rw [helems, understood_of_flat hflat hsmall hj]
  refine and_congr ?_ ?_
  · rw [hlength]
    split_ifs <;> omega
  · simp only [ClientCall.Read]
    rw [createParam_elems, strncpy_eq (by omega), strncpy_eq (by omega),
      optional_strncpy (by omega), optional_strncpy (by omega)]
    simp [validAccount, validUid_wordToLower hvalidUid, hvalidPwd, hvalidNick, hvalidComment,
      validType]

end Calls

theorem ok_of_toOption {ε α : Type} {r : Except ε α} {a : α} (h : r.toOption = some a) :
    r = .ok a := by
  cases r with
  | error e => cases h
  | ok a' => exact congrArg _ (Option.some.inj h)

/-- For each of the eight calls with valid strings that pass the tests of its function: the
handler reads exactly what was sent and accepts it, unless the pack of a new account has
256 bytes, or its type is none of the four. -/
theorem requests_understood_iff {junk : List UInt8} (hj : junk.length = 4) (mem : Junk)
    (connect : Option Connect) (c : ClientCall) (hutf8 : ∀ s ∈ c.strings, ValidUtf8 s.bytes)
    {elems : List PackElem} (hpass : c.pack connect = some elems) :
    c.Understood junk mem elems ↔ c.Arrives := by
  cases c with
  | login uid pwd tokenExpire =>
    simp only [ClientCall.strings, List.forall_mem_cons] at hutf8
    exact iff_of_true (login_understood hutf8.1 hutf8.2.1 hj (ok_of_toOption hpass)) trivial
  | login2 token =>
    simp only [ClientCall.strings, List.forall_mem_cons] at hutf8
    exact iff_of_true (login2_understood hutf8.1 hj (ok_of_toOption hpass)) trivial
  | create user =>
    simp only [ClientCall.strings, List.forall_mem_cons] at hutf8
    obtain ⟨huid, hpwd, hnick, hcomment, -⟩ := hutf8
    exact create_understood_iff huid hpwd hnick hcomment hj (ok_of_toOption hpass)
  | modifyPwd oldPwd newPwd =>
    simp only [ClientCall.strings, List.forall_mem_cons] at hutf8
    exact iff_of_true (modifyPwd_understood hutf8.1 hutf8.2.1 hj (ok_of_toOption hpass)) trivial
  | delete uid oldPwd =>
    simp only [ClientCall.strings, List.forall_mem_cons] at hutf8
    exact iff_of_true (delete_understood hutf8.1 hutf8.2.1 hj (ok_of_toOption hpass)) trivial
  | dishFetch category => exact iff_of_true (dishFetch_understood hj (ok_of_toOption hpass)) trivial
  | dishCancel seatId => exact iff_of_true (dishCancel_understood hj (ok_of_toOption hpass)) trivial
  | dishList seatId =>
    obtain ⟨rfl, hvalid, -⟩ := clientRequest_ok (ok_of_toOption hpass)
    exact iff_of_true (understood_of_int (by decide) (by decide) hj
      ⟨rfl, of_decide_eq_true hvalid⟩) trivial

/-- A menu with a comment of `n` letters. -/
def newMenu (n : ℕ) : NewAccount :=
  ⟨1, lit "Bo", lit "123", lit "", ⟨List.replicate n 0x61, by simp [List.mem_replicate]⟩⟩

theorem validUtf8_replicate (n : ℕ) : ValidUtf8 (List.replicate n 0x61) := by
  have hstep : ∀ n, (validateSequences false n (List.replicate n 0x61) 0).2 = true := by
    intro n
    induction n with
    | zero => rfl
    | succ n ih => exact ih
  rw [ValidUtf8, List.length_replicate]
  exact hstep n

theorem newMenu_utf8 (n : ℕ) :
    ∀ s ∈ (ClientCall.create (newMenu n)).strings, ValidUtf8 s.bytes := by
  simp only [ClientCall.strings, newMenu, List.forall_mem_cons]
  exact ⟨by decide, by decide, by decide, validUtf8_replicate n, by simp⟩

theorem newMenu_pack {n : ℕ} (hn : n ≤ 256) :
    clientAccountCreate (some ⟨some accountAdmin⟩) (newMenu n) = .ok (createElems (newMenu n)) := by
  have hvalid : (validUid (newMenu n).uid && validPwd (newMenu n).pwd &&
      validNick (newMenu n).nick && validComment (newMenu n).comment) = true := by
    simp [newMenu, validComment, hn]
    decide
  simp [clientAccountCreate, clientRequest, hvalid, createElems, accountAdmin]

/-- With a comment of nine letters the handler reads what was sent. -/
theorem requests_understood_newMenu :
    (ClientCall.create (newMenu 9)).Arrives ∧
      (ClientCall.create (newMenu 9)).Understood [1, 0, 0, 0] noJunk (createElems (newMenu 9)) := by
  have harrives : (ClientCall.create (newMenu 9)).Arrives := ⟨by decide, by decide⟩
  exact ⟨harrives, (requests_understood_iff rfl noJunk (some ⟨some accountAdmin⟩)
    (.create (newMenu 9)) (newMenu_utf8 9) rfl).mpr harrives⟩

/-- With a comment of 202 letters the pack has 256 bytes. -/
theorem create_not_understood :
    clientAccountCreate (some ⟨some accountAdmin⟩) (newMenu 202) =
        .ok (createElems (newMenu 202)) ∧
      (∀ s ∈ (ClientCall.create (newMenu 202)).strings, ValidUtf8 s.bytes) ∧
      ¬ (ClientCall.create (newMenu 202)).Understood [0, 0, 0, 0] noJunk
        (createElems (newMenu 202)) := by
  have hpack := newMenu_pack (n := 202) (by decide)
  have hutf8 := newMenu_utf8 202
  refine ⟨hpack, hutf8, fun h => ?_⟩
  simp only [ClientCall.strings, List.forall_mem_cons] at hutf8
  obtain ⟨huid, hpwd, hnick, hcomment, -⟩ := hutf8
  have harrives := (create_understood_iff huid hpwd hnick hcomment rfl hpack).mp h
  have hlength : (newMenu 202).comment.bytes.length = 202 := List.length_replicate
  have hnick : (newMenu 202).nick.bytes = [] := rfl
  have hne : (newMenu 202).comment.bytes ≠ [] := fun hnil => by simp [hnil] at hlength
  refine harrives.1 ?_
  rw [if_pos hnick, if_neg hne, hlength]
  rfl

end Youmenu.Client
