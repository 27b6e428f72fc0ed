import Youmenu.Server.Handlers

/-!
# Strings of a request in the arrays of a handler

The handlers copy strings with `strncpy` and the size of the array, which leaves no terminator
behind a string that is too long, and test the length afterwards. So the test itself, or the
loop marked `word to lower`, reads beyond the array. Two handlers do not test the length at all.

## Main definitions

* `Outcome`, `reading` — a read of an array stops the handler where it would go on beyond.
* `Request.checked` — the handlers with their reads.
* `Outcome.Meets` — what is asked of a request.
* `Request.StringsKept` — when it holds.
-/

namespace Youmenu.Server

open Eventpack Program

/-! ## The source -/

/-- What a handler comes to: a reply, after it has copied strings or before, or a read beyond
the end of an array. -/
inductive Outcome where
  | uncopied (reply : Reply)
  | copied (reply : Reply)
  | overrun

/-- A read of the string in an array of `n` bytes. -/
def reading (n : ℕ) (s : CString) (k : Handler Outcome) : Handler Outcome :=
  if s.bytes.length < n then k else return .overrun

def replied (p : Handler Reply) : Handler Outcome := do
  let reply ← p
  return .copied reply

/-- The loop marked `word to lower` runs after each copy. -/
def LowersWithin (junk : Junk) (pack : Pack) : Prop :=
  ∀ f ∈ pack.getD [], f.key = lit "uid" →
    (strncpy 17 f.value.toCString (junk.behind "uid")).bytes.length < 17

instance (junk : Junk) (pack : Pack) : Decidable (LowersWithin junk pack) :=
  inferInstanceAs (Decidable (∀ f ∈ pack.getD [], _))

section Handlers

variable (junk : Junk) (fd : ℤ) (pack : Pack)

/-- `valid_uid(uid) && valid_pwd(pwd)`, and then `valid_token(token)`. -/
def loginChecked : Handler Outcome :=
  let p := loginParam junk pack
  let answer := replied (resAccountLogin junk fd pack)
  if LowersWithin junk pack then
    reading 17 p.uid <|
      if validUid p.uid then
        reading 17 p.pwd <| if validPwd p.pwd then answer else reading 39 p.token answer
      else reading 39 p.token answer
  else return .overrun

/-- `!valid_uid(a.uid) || !valid_pwd(a.pwd) || …` -/
def createChecked : Handler Outcome :=
  let a := createParam junk pack
  let answer := replied (resAccountCreate junk fd pack)
  if LowersWithin junk pack then
    reading 17 a.uid <|
      if validUid a.uid then
        reading 129 a.pwd <|
          if validPwd a.pwd && validType a.type then
            reading 65 a.nick <| if validNick a.nick then reading 257 a.comment answer else answer
          else answer
      else answer
  else return .overrun

/-- `!valid_pwd(old_pwd) || !valid_pwd(new_pwd)` -/
def modifyPwdChecked : Handler Outcome :=
  let p := modifyPwdParam junk pack
  let answer := replied (resAccountModifyPwd junk fd pack)
  reading 17 p.oldPwd <| if validPwd p.oldPwd then reading 17 p.newPwd answer else answer

/-- `!valid_uid(uid) || !valid_pwd(old_pwd)` -/
def deleteChecked : Handler Outcome :=
  let p := deleteParam junk pack
  let answer := replied (resAccountDelete junk fd pack)
  reading 17 p.uid <| if validUid p.uid then reading 17 p.oldPwd answer else answer

/-- The strings go into the statements without a test. -/
def modifyBasicChecked : Handler Outcome := do
  let p := modifyBasicParam junk pack
  match ← sessionRefFd fd with
  | none => return .copied [AccountResult.sessionExpired.append]
  | some session =>
    let s ← sessionRead session
    reading 17 p.nick do
      if ← db (.accountUpdateNick s.uid p.nick) then
        let s ← sessionRead session
        reading 17 p.comment do
          if ← db (.accountUpdateComment s.uid p.comment) then
            return .copied [AccountResult.ok.append]
          else return .copied [AccountResult.serviceUnavailable.append]
      else return .copied [AccountResult.serviceUnavailable.append]

/-- The comment is read for its length, and the booking's copy of it for the statement. -/
def dishBookChecked : Handler Outcome := do
  match ← checkMenuPermission fd with
  | some reply => return .uncopied reply
  | none =>
    let seatId := intParam pack "seat_id" (-1)
    let dishId := intParam pack "dish_id" (-1)
    let p := bookParam junk pack
    if seatId < 0 || dishId < 0 || p.jinOrPlate.nonpos then
      return .copied [DishResult.illegalParameter.append]
    else if !(← db (.dishGetOne dishId)) then return .copied [DishResult.dishIdInvalid.append]
    else if !(← db (.seatGetOne seatId)) then return .copied [DishResult.seatIdInvalid.append]
    else
      let comment := strncpy p.comment.bytes.length p.comment (junk.behind "book.comment")
      reading 256 p.comment <| reading 256 comment do
        if ← db (.bookAdd seatId dishId p.jinOrPlate comment) then
          return .copied [DishResult.ok.append]
        else return .copied [DishResult.serviceUnavailable.append]

end Handlers

/-- The other handlers copy no strings. -/
def Request.checked (r : Request) : Handler Outcome :=
  match r.kind with
  | .accountLogin => loginChecked r.junk r.fd r.pack
  | .accountCreate => createChecked r.junk r.fd r.pack
  | .accountModifyPwd => modifyPwdChecked r.junk r.fd r.pack
  | .accountModifyBasic => modifyBasicChecked r.junk r.fd r.pack
  | .accountDelete => deleteChecked r.junk r.fd r.pack
  | .dishBook => dishBookChecked r.junk r.fd r.pack
  | .heartbeat | .accountLogout | .accountList | .dishFetch | .dishCancel | .dishList | .seatList
  | .cookAccept => do
    let reply ← r.handler
    return .uncopied reply

def Outcome.reply : Outcome → Option Reply
  | uncopied reply | copied reply => some reply
  | overrun => none

/-! ### Replies -/

/-- The calls and replies are those of the handler, as far as no array is read beyond its end. -/
inductive SameReplies : Handler Outcome → Handler Reply → Prop
  | overrun (p : Handler Reply) : SameReplies (.ret .overrun) p
  | reply {o : Outcome} {reply : Reply} (h : o.reply = some reply) :
    SameReplies (.ret o) (.ret reply)
  | call {e : Effect} {k : e.Result → Handler Outcome} {k' : e.Result → Handler Reply}
      (h : ∀ r, SameReplies (k r) (k' r)) : SameReplies (.call e k) (.call e k')

section SameReplies

variable {c c' : Handler Outcome} {p : Handler Reply}

theorem SameReplies.exec (hc : SameReplies c p) {σ : Type*}
    {h : (e : Effect) → σ → Option (e.Result × σ)} {s s' : σ} {o : Outcome} {reply : Reply}
    (hexec : c.exec h s = some (o, s')) (ho : o.reply = some reply) :
    p.exec h s = some (reply, s') := by
  induction hc generalizing s with
  | overrun =>
    obtain ⟨rfl, -⟩ := Prod.mk.inj (Option.some.inj hexec)
    cases ho
  | reply hreply =>
    obtain ⟨rfl, rfl⟩ := Prod.mk.inj (Option.some.inj hexec)
    rw [hreply] at ho
    exact congrArg (fun r => some (r, s)) (Option.some.inj ho)
  | call hk ih =>
    obtain ⟨⟨r, s₁⟩, he, hk⟩ := Option.bind_eq_some_iff.mp hexec
    rw [Program.exec, he, Option.bind_some]
    exact ih r hk

theorem sameReplies_ret {f : Reply → Outcome} (hf : ∀ reply, (f reply).reply = some reply)
    (p : Handler Reply) : SameReplies (p >>= fun reply => .ret (f reply)) p := by
  induction p with
  | ret reply => exact .reply (hf reply)
  | call e k ih => exact .call ih

theorem sameReplies_replied (p : Handler Reply) : SameReplies (replied p) p :=
  sameReplies_ret (fun _ => rfl) p

theorem SameReplies.bind {α : Type} {f : α → Handler Outcome} {f' : α → Handler Reply}
    (hf : ∀ a, SameReplies (f a) (f' a)) (q : Handler α) : SameReplies (q >>= f) (q >>= f') := by
  induction q with
  | ret a => exact hf a
  | call e k ih => exact .call ih

theorem SameReplies.reading (hc : SameReplies c p) {n : ℕ} {s : CString} :
    SameReplies (reading n s c) p := by
  unfold Server.reading
  split_ifs
  · exact hc
  · exact .overrun p

theorem SameReplies.ite {b : Prop} [Decidable b] (hc : SameReplies c p) (hc' : SameReplies c' p) :
    SameReplies (if b then c else c') p := by
  split_ifs
  · exact hc
  · exact hc'

end SameReplies

theorem checked_sameReplies (r : Request) : SameReplies r.checked r.handler := by
  obtain ⟨kind, fd, pack, junk⟩ := r
  have hanswer : ∀ p, SameReplies (replied p) p := sameReplies_replied
  cases kind with
  | accountLogin =>
    refine .ite (.reading (.ite (.reading (.ite (hanswer _) ?_)) ?_)) (.overrun _)
    · exact (hanswer _).reading
    · exact (hanswer _).reading
  | accountCreate =>
    refine .ite (.reading (.ite (.reading (.ite (.reading ?_) (hanswer _))) (hanswer _)))
      (.overrun _)
    exact .ite (hanswer _).reading (hanswer _)
  | accountModifyPwd => exact .reading (.ite (hanswer _).reading (hanswer _))
  | accountDelete => exact .reading (.ite (hanswer _).reading (hanswer _))
  | accountModifyBasic =>
    refine .call fun session => ?_
    cases session with
    | none => exact .reply rfl
    | some session =>
      refine .call fun s => .reading (.call fun nicked => ?_)
      cases nicked with
      | false => exact .reply rfl
      | true =>
        refine .call fun s => .reading (.call fun commented => ?_)
        cases commented <;> exact .reply rfl
  | dishBook =>
    refine .bind (fun permission => ?_) (checkMenuPermission fd)
    cases permission with
    | some reply => exact .reply rfl
    | none =>
      dsimp only
      split_ifs
      · exact .reply rfl
      · refine .call fun dish => ?_
        cases dish with
        | false => exact .reply rfl
        | true =>
          refine .call fun seat => ?_
          cases seat with
          | false => exact .reply rfl
          | true =>
            refine .reading (.reading (.call fun booked => ?_))
            cases booked <;> exact .reply rfl
  | heartbeat | accountLogout | accountList | dishFetch | dishCancel | dishList | seatList
  | cookAccept => exact sameReplies_ret (fun _ => rfl) _

/-- In every run with a reply the handler gives this reply and leaves the same state. -/
theorem checked_exec (r : Request) {σ : Type*} {h : (e : Effect) → σ → Option (e.Result × σ)}
    {s s' : σ} {o : Outcome} {reply : Reply} (hexec : r.checked.exec h s = some (o, s'))
    (ho : o.reply = some reply) : r.handler.exec h s = some (reply, s') :=
  (checked_sameReplies r).exec hexec ho

/-! ## What is asked of a request -/

/-- The arrays for strings, under the keys of the request, with their sizes. -/
def Kind.arrays : Kind → List (String × ℕ)
  | .accountLogin => [("uid", 17), ("pwd", 17), ("token", 39)]
  | .accountCreate => [("uid", 17), ("pwd", 129), ("nick", 65), ("comment", 257)]
  | .accountModifyPwd => [("old_pwd", 17), ("new_pwd", 17)]
  | .accountModifyBasic => [("nick", 17), ("comment", 17)]
  | .accountDelete => [("old_pwd", 17), ("uid", 17)]
  | .dishBook => [("comment", 256)]
  | .heartbeat | .accountLogout | .accountList | .dishFetch | .dishCancel | .dishList | .seatList
  | .cookAccept => []

/-- `account_r_illegal_parameter`, or `dish_r_illegal_parameter`. -/
def Kind.illegal : Kind → Reply
  | .dishBook => [DishResult.illegalParameter.append]
  | _ => [AccountResult.illegalParameter.append]

/-- A string leaves no room for its terminator. -/
def Request.TooLong (r : Request) : Prop :=
  ∃ f ∈ r.pack.getD [], ∃ a ∈ r.kind.arrays, f.key = lit a.1 ∧ a.2 ≤ f.value.toCString.bytes.length

/-- No array is read beyond its end, and strings that are too long are not accepted. -/
def Outcome.Meets (r : Request) : Outcome → Prop
  | uncopied _ => True
  | copied reply => r.TooLong → reply = r.kind.illegal
  | overrun => False

/-- The string that is copied last. -/
def lastString (pack : Pack) (key : String) : CString :=
  (pack.getD []).foldl (fun s f => if f.key = lit key then f.value.toCString else s) (lit "")

def UidsFit (pack : Pack) : Prop :=
  ∀ f ∈ pack.getD [], f.key = lit "uid" → f.value.toCString.bytes.length < 17

/-- Nothing is too long; or the tests refuse the request before they come to an array whose
last string is. -/
def Request.StringsKept (r : Request) : Prop :=
  let last := lastString r.pack
  match r.kind with
  | .accountLogin => UidsFit r.pack ∧ (¬ r.TooLong ∨
      ((last "uid").bytes = [] ∨ (last "pwd").bytes = []) ∧ (last "token").bytes.length < 38)
  | .accountCreate => UidsFit r.pack ∧ (¬ r.TooLong ∨ (last "uid").bytes = [] ∨
      (last "pwd").bytes.length < 129 ∧
        ¬ (validPwd (last "pwd") && validType (intParam r.pack "type" r.junk.type)))
  | .accountModifyPwd => ¬ r.TooLong ∨ (last "old_pwd").bytes.length < 17 ∧
      ((last "old_pwd").bytes = [] ∨ (last "new_pwd").bytes = [])
  | .accountModifyBasic => ¬ r.TooLong
  | .accountDelete => ¬ r.TooLong ∨ (last "uid").bytes.length < 17 ∧
      ((last "uid").bytes = [] ∨ (last "old_pwd").bytes = [])
  | .dishBook => intParam r.pack "seat_id" (-1) < 0 ∨ intParam r.pack "dish_id" (-1) < 0 ∨
      (bookParam r.junk r.pack).jinOrPlate.nonpos ∨
      ¬ r.TooLong ∧
        (last "comment").bytes.length + (r.junk.behind "book.comment").bytes.length < 256
  | .heartbeat | .accountLogout | .accountList | .dishFetch | .dishCancel | .dishList | .seatList
  | .cookAccept => True

/-! ### The strings in the arrays -/

section Arrays

variable {pack : Pack} {junk : Junk} {key : String}

/-- A string that fits is copied as it is, and one that does not leaves a full array. -/
theorem length_strncpy (n : ℕ) (s behind : CString) :
    s.bytes.length < n ∧ (strncpy n s behind).bytes.length = s.bytes.length ∨
      n ≤ s.bytes.length ∧ n ≤ (strncpy n s behind).bytes.length := by
  unfold strncpy
  split_ifs with hs
  · exact .inl ⟨hs, rfl⟩
  · refine .inr ⟨not_lt.mp hs, ?_⟩
    rw [List.length_append, List.length_take]
    omega

theorem length_strncpy_lt {n : ℕ} {s behind : CString} :
    (strncpy n s behind).bytes.length < n ↔ s.bytes.length < n := by
  have := length_strncpy n s behind
  omega

theorem length_wordToLower (s : CString) : (wordToLower s).bytes.length = s.bytes.length :=
  List.length_map _

/-- A string that is short enough is copied. -/
theorem strncpy_eq {n : ℕ} {s behind : CString} (hs : s.bytes.length < n) :
    strncpy n s behind = s := if_pos hs

/-- A field of the parameters is what becomes of the last string under its key. -/
theorem foldl_lastString {α : Type} (get : α → CString) (g : CString → CString)
    {f : α → PackField → α} {a : α} (ha : get a = g (lit ""))
    (hstep : ∀ a x, get (f a x) = if x.key = lit key then g x.value.toCString else get a) :
    get ((pack.getD []).foldl f a) = g (lastString pack key) := by
  have hfold : ∀ fs : List PackField, ∀ (a : α) (s : CString), get a = g s → get (fs.foldl f a) =
      g (fs.foldl (fun s x => if x.key = lit key then x.value.toCString else s) s) := by
    intro fs
    induction fs with
    | nil => exact fun a s ha => ha
    | cons x fs ih =>
      intro a s ha
      rw [List.foldl_cons, List.foldl_cons]
      refine ih _ _ ?_
      rw [hstep]
      split_ifs
      · rfl
      · exact ha
  exact hfold _ a _ ha

theorem lastString_mem (pack : Pack) (key : String) : lastString pack key = lit "" ∨
    ∃ f ∈ pack.getD [], f.key = lit key ∧ f.value.toCString = lastString pack key := by
  have hfold : ∀ fs : List PackField, ∀ s : CString,
      fs.foldl (fun s x => if x.key = lit key then x.value.toCString else s) s = s ∨
        ∃ f ∈ fs, f.key = lit key ∧ f.value.toCString =
          fs.foldl (fun s x => if x.key = lit key then x.value.toCString else s) s := by
    intro fs
    induction fs with
    | nil => exact fun s => .inl rfl
    | cons x fs ih =>
      intro s
      rw [List.foldl_cons]
      rcases ih (if x.key = lit key then x.value.toCString else s) with heq | ⟨f, hf, hkey, heq⟩
      · rw [heq]
        split_ifs with hx
        · exact .inr ⟨x, by simp, hx, rfl⟩
        · exact .inl rfl
      · exact .inr ⟨f, by simp [hf], hkey, heq⟩
  exact hfold _ _

theorem lastString_lt {n : ℕ} (hn : 0 < n)
    (hfits : ∀ f ∈ pack.getD [], f.key = lit key → f.value.toCString.bytes.length < n) :
    (lastString pack key).bytes.length < n := by
  rcases lastString_mem pack key with hnone | ⟨f, hf, hkey, heq⟩
  · rw [hnone]
    exact hn
  · rw [← heq]
    exact hfits f hf hkey

/-- A field has one key. -/
theorem ite_skip {α : Type} {k a b : CString} (hab : a ≠ b) (c d : α) :
    (if k = a then c else if k = b then d else c) = if k = b then d else c := by
  by_cases ha : k = a
  · rw [if_pos ha, if_neg fun hb => hab (ha.symm.trans hb)]
  · rw [if_neg ha]

theorem loginParam_strings (junk : Junk) (pack : Pack) :
    (loginParam junk pack).uid =
        wordToLower (strncpy 17 (lastString pack "uid") (junk.behind "uid")) ∧
      (loginParam junk pack).pwd = strncpy 17 (lastString pack "pwd") (junk.behind "pwd") ∧
      (loginParam junk pack).token =
        strncpy 39 (lastString pack "token") (junk.behind "token") := by
  refine ⟨foldl_lastString LoginParam.uid
    (fun s => wordToLower (strncpy 17 s (junk.behind "uid"))) rfl fun p f => ?_,
    foldl_lastString LoginParam.pwd (strncpy 17 · (junk.behind "pwd")) rfl fun p f => ?_,
    foldl_lastString LoginParam.token (strncpy 39 · (junk.behind "token")) rfl fun p f => ?_⟩
  · simp only [apply_ite LoginParam.uid, ite_self]
  · simp (disch := decide) only [apply_ite LoginParam.pwd, ite_self, ite_skip]
  · simp (disch := decide) only [apply_ite LoginParam.token, ite_self, ite_skip]

theorem createParam_strings (junk : Junk) (pack : Pack) :
    (createParam junk pack).uid =
        wordToLower (strncpy 17 (lastString pack "uid") (junk.behind "uid")) ∧
      (createParam junk pack).pwd = strncpy 129 (lastString pack "pwd") (junk.behind "pwd") ∧
      (createParam junk pack).nick = strncpy 65 (lastString pack "nick") (junk.behind "nick") ∧
      (createParam junk pack).comment =
        strncpy 257 (lastString pack "comment") (junk.behind "comment") := by
  refine ⟨foldl_lastString Account.uid
    (fun s => wordToLower (strncpy 17 s (junk.behind "uid"))) rfl fun a f => ?_,
    foldl_lastString Account.pwd (strncpy 129 · (junk.behind "pwd")) rfl fun a f => ?_,
    foldl_lastString Account.nick (strncpy 65 · (junk.behind "nick")) rfl fun a f => ?_,
    foldl_lastString Account.comment (strncpy 257 · (junk.behind "comment")) rfl fun a f => ?_⟩
  · simp (disch := decide) only [apply_ite Account.uid, ite_self, ite_skip]
  · simp (disch := decide) only [apply_ite Account.pwd, ite_self, ite_skip]
  · simp (disch := decide) only [apply_ite Account.nick, ite_self, ite_skip]
  · simp (disch := decide) only [apply_ite Account.comment, ite_skip]

theorem createParam_type (junk : Junk) (pack : Pack) :
    (createParam junk pack).type = intParam pack "type" junk.type := by
  refine (List.foldl_hom Account.type fun a f => ?_).symm
  simp only [apply_ite Account.type, ite_self]

theorem modifyPwdParam_strings (junk : Junk) (pack : Pack) :
    (modifyPwdParam junk pack).oldPwd =
        strncpy 17 (lastString pack "old_pwd") (junk.behind "old_pwd") ∧
      (modifyPwdParam junk pack).newPwd =
        strncpy 17 (lastString pack "new_pwd") (junk.behind "new_pwd") := by
  refine ⟨foldl_lastString PwdParam.oldPwd (strncpy 17 · (junk.behind "old_pwd")) rfl fun p f => ?_,
    foldl_lastString PwdParam.newPwd (strncpy 17 · (junk.behind "new_pwd")) rfl fun p f => ?_⟩
  · simp only [apply_ite PwdParam.oldPwd, ite_self]
  · simp (disch := decide) only [apply_ite PwdParam.newPwd, ite_skip]

theorem modifyBasicParam_strings (junk : Junk) (pack : Pack) :
    (modifyBasicParam junk pack).nick =
        strncpy 17 (lastString pack "nick") (junk.behind "nick") ∧
      (modifyBasicParam junk pack).comment =
        strncpy 17 (lastString pack "comment") (junk.behind "comment") := by
  refine ⟨foldl_lastString BasicParam.nick (strncpy 17 · (junk.behind "nick")) rfl fun p f => ?_,
    foldl_lastString BasicParam.comment (strncpy 17 · (junk.behind "comment")) rfl fun p f => ?_⟩
  · simp only [apply_ite BasicParam.nick, ite_self]
  · simp (disch := decide) only [apply_ite BasicParam.comment, ite_skip]

theorem deleteParam_strings (junk : Junk) (pack : Pack) :
    (deleteParam junk pack).uid = strncpy 17 (lastString pack "uid") (junk.behind "uid") ∧
      (deleteParam junk pack).oldPwd =
        strncpy 17 (lastString pack "old_pwd") (junk.behind "old_pwd") := by
  refine ⟨foldl_lastString DeleteParam.uid (strncpy 17 · (junk.behind "uid")) rfl fun p f => ?_,
    foldl_lastString DeleteParam.oldPwd (strncpy 17 · (junk.behind "old_pwd")) rfl fun p f => ?_⟩
  · simp (disch := decide) only [apply_ite DeleteParam.uid, ite_skip]
  · simp only [apply_ite DeleteParam.oldPwd, ite_self]

theorem bookParam_strings (junk : Junk) (pack : Pack) : (bookParam junk pack).comment =
    strncpy 256 (lastString pack "comment") (junk.behind "comment") := by
  refine foldl_lastString BookParam.comment (strncpy 256 · (junk.behind "comment")) rfl
    fun p f => ?_
  simp (disch := decide) only [apply_ite BookParam.comment, ite_skip]

end Arrays

/-! ### The tests -/

section Tests

variable {r : Request} {c : Handler Outcome} {p : Handler Reply} {n : ℕ} {s : CString}

theorem lowersWithin_iff {junk : Junk} {pack : Pack} : LowersWithin junk pack ↔ UidsFit pack := by
  simp only [LowersWithin, UidsFit, length_strncpy_lt]

theorem returns_reading : (reading n s c).Returns (Outcome.Meets r) ↔
    s.bytes.length < n ∧ c.Returns (Outcome.Meets r) := by
  unfold reading
  split_ifs with hs
  · exact (and_iff_right hs).symm
  · exact iff_of_false id fun h => hs h.1

theorem returns_replied : (replied p).Returns (Outcome.Meets r) ↔
    (r.TooLong → p.Returns (· = r.kind.illegal)) := by
  refine returns_map_iff.trans ?_
  by_cases htoo : r.TooLong
  · simp [Outcome.Meets, htoo]
  · simp [Outcome.Meets, htoo, returns_true]

/-- Replies with different results are different. -/
theorem reply_ne {reply reply' : Reply} (h : replyResult reply ≠ replyResult reply') :
    reply ≠ reply' :=
  fun heq => h (heq ▸ rfl)

variable {junk : Junk} {fd : ℤ} {pack : Pack}

theorem login_illegal_iff :
    (resAccountLogin junk fd pack).Returns (· = [AccountResult.illegalParameter.append]) ↔
      ¬ (validUid (loginParam junk pack).uid && validPwd (loginParam junk pack).pwd) ∧
        ¬ validToken (loginParam junk pack).token := by
  unfold resAccountLogin
  dsimp only
  split_ifs with hpwd htoken
  · exact iff_of_false (fun h => reply_ne (by decide) (h none)) fun h => h.1 hpwd
  · exact iff_of_false (fun h => reply_ne (by decide) (h none)) fun h => h.2 htoken
  · exact iff_of_true rfl ⟨hpwd, htoken⟩

theorem create_illegal_iff :
    (resAccountCreate junk fd pack).Returns (· = [AccountResult.illegalParameter.append]) ↔
      ¬ validAccount (createParam junk pack) := by
  unfold resAccountCreate
  dsimp only
  split_ifs with hvalid
  · exact iff_of_false (fun h => reply_ne (by decide) (h none)) fun h => h hvalid
  · exact iff_of_true rfl hvalid

theorem modifyPwd_illegal_iff :
    (resAccountModifyPwd junk fd pack).Returns (· = [AccountResult.illegalParameter.append]) ↔
      ¬ (validPwd (modifyPwdParam junk pack).oldPwd &&
        validPwd (modifyPwdParam junk pack).newPwd) := by
  unfold resAccountModifyPwd
  dsimp only
  split_ifs with hvalid hsame
  · rw [Bool.not_eq_true'] at hvalid
    exact iff_of_true rfl (Bool.eq_false_iff.mp hvalid)
  · rw [Bool.not_eq_true', Bool.not_eq_false] at hvalid
    exact iff_of_false (fun h => reply_ne (by decide) h) (not_not.mpr hvalid)
  · rw [Bool.not_eq_true', Bool.not_eq_false] at hvalid
    exact iff_of_false (fun h => reply_ne (by decide) (h none)) (not_not.mpr hvalid)

theorem delete_illegal_iff :
    (resAccountDelete junk fd pack).Returns (· = [AccountResult.illegalParameter.append]) ↔
      ¬ (validUid (deleteParam junk pack).uid && validPwd (deleteParam junk pack).oldPwd) := by
  unfold resAccountDelete
  dsimp only
  split_ifs with hvalid
  · exact iff_of_false (fun h => reply_ne (by decide) (h none)) fun h => h hvalid
  · exact iff_of_true rfl hvalid

/-- Nothing is too long. -/
theorem last_lt (htoo : ¬ r.TooLong) {key : String} {n : ℕ} (hn : 0 < n)
    (hmem : (key, n) ∈ r.kind.arrays) : (lastString r.pack key).bytes.length < n := by
  refine lastString_lt hn fun f hf hkey => ?_
  by_contra hlong
  exact htoo ⟨f, hf, (key, n), hmem, hkey, not_lt.mp hlong⟩

/-- The tests of a length see through a copy. -/
theorem validUid_iff {s : CString} : validUid s ↔ s.bytes.length ≠ 0 ∧ s.bytes.length ≤ 16 := by
  simp [validUid]

theorem validPwd_iff {s : CString} : validPwd s ↔ s.bytes.length ≠ 0 ∧ s.bytes.length ≤ 16 := by
  simp [validPwd]

theorem validToken_iff {s : CString} : validToken s ↔ s.bytes.length = 38 := by
  simp only [validToken, ne_eq, ← List.length_eq_zero_iff, Bool.and_eq_true, decide_eq_true_eq]
  omega

theorem returns_ite {b : Prop} [Decidable b] {c' : Handler Outcome} :
    (if b then c else c').Returns (Outcome.Meets r) ↔
      (b → c.Returns (Outcome.Meets r)) ∧ (¬ b → c'.Returns (Outcome.Meets r)) := by
  split_ifs with hb <;> simp [hb]

theorem returns_lowering : (if LowersWithin junk pack then c else return .overrun).Returns
    (Outcome.Meets r) ↔ UidsFit pack ∧ c.Returns (Outcome.Meets r) := by
  have hfit : LowersWithin junk pack ↔ UidsFit pack := lowersWithin_iff
  rw [← hfit]
  split_ifs with hlowers
  · exact (and_iff_right hlowers).symm
  · exact iff_of_false id fun h => hlowers h.1

theorem account_illegal (hkind : r.kind ≠ .dishBook) :
    r.kind.illegal = [AccountResult.illegalParameter.append] := by
  unfold Kind.illegal
  split
  · next heq => exact absurd heq hkind
  · rfl

theorem login_iff (hkind : r.kind = .accountLogin) :
    r.checked.Returns (Outcome.Meets r) ↔ r.StringsKept := by
  obtain ⟨huid, hpwd, htoken⟩ := loginParam_strings r.junk r.pack
  have hillegal := account_illegal (r := r) (by simp [hkind])
  have hpwds := length_strncpy 17 (lastString r.pack "pwd") (r.junk.behind "pwd")
  have htokens := length_strncpy 39 (lastString r.pack "token") (r.junk.behind "token")
  have hfits : ¬ r.TooLong → (lastString r.pack "pwd").bytes.length < 17 ∧
      (lastString r.pack "token").bytes.length < 39 := fun htoo =>
    ⟨last_lt htoo (by decide) (by simp [hkind, Kind.arrays]),
      last_lt htoo (by decide) (by simp [hkind, Kind.arrays])⟩
  simp only [Request.checked, Request.StringsKept, hkind, loginChecked, returns_lowering]
  refine and_congr_right fun huids => ?_
  have hshort : (lastString r.pack "uid").bytes.length < 17 := lastString_lt (by decide) huids
  simp only [returns_reading, returns_ite, returns_replied, hillegal, login_illegal_iff, huid, hpwd,
    htoken, strncpy_eq hshort, length_wordToLower, validUid_iff, validPwd_iff, validToken_iff,
    Bool.and_eq_true, ← List.length_eq_zero_iff]
  grind

theorem create_iff (hkind : r.kind = .accountCreate) :
    r.checked.Returns (Outcome.Meets r) ↔ r.StringsKept := by
  obtain ⟨huid, hpwd, hnick, hcomment⟩ := createParam_strings r.junk r.pack
  have hillegal := account_illegal (r := r) (by simp [hkind])
  have hpwds := length_strncpy 129 (lastString r.pack "pwd") (r.junk.behind "pwd")
  have hnicks := length_strncpy 65 (lastString r.pack "nick") (r.junk.behind "nick")
  have hcomments := length_strncpy 257 (lastString r.pack "comment") (r.junk.behind "comment")
  have hfits : ¬ r.TooLong → (lastString r.pack "pwd").bytes.length < 129 ∧
      (lastString r.pack "nick").bytes.length < 65 ∧
        (lastString r.pack "comment").bytes.length < 257 := fun htoo =>
    ⟨last_lt htoo (by decide) (by simp [hkind, Kind.arrays]),
      last_lt htoo (by decide) (by simp [hkind, Kind.arrays]),
      last_lt htoo (by decide) (by simp [hkind, Kind.arrays])⟩
  simp only [Request.checked, Request.StringsKept, hkind, createChecked, returns_lowering]
  refine and_congr_right fun huids => ?_
  have hshort : (lastString r.pack "uid").bytes.length < 17 := lastString_lt (by decide) huids
  simp only [returns_reading, returns_ite, returns_replied, hillegal, create_illegal_iff,
    validAccount, huid, hpwd, hnick, hcomment, createParam_type, strncpy_eq hshort,
    length_wordToLower, validUid_iff, validPwd_iff, validNick, validComment, Bool.and_eq_true,
    decide_eq_true_eq, ← List.length_eq_zero_iff]
  grind

theorem modifyPwd_iff (hkind : r.kind = .accountModifyPwd) :
    r.checked.Returns (Outcome.Meets r) ↔ r.StringsKept := by
  obtain ⟨hold, hnew⟩ := modifyPwdParam_strings r.junk r.pack
  have hillegal := account_illegal (r := r) (by simp [hkind])
  have holds := length_strncpy 17 (lastString r.pack "old_pwd") (r.junk.behind "old_pwd")
  have hnews := length_strncpy 17 (lastString r.pack "new_pwd") (r.junk.behind "new_pwd")
  have hfits : ¬ r.TooLong → (lastString r.pack "old_pwd").bytes.length < 17 ∧
      (lastString r.pack "new_pwd").bytes.length < 17 := fun htoo =>
    ⟨last_lt htoo (by decide) (by simp [hkind, Kind.arrays]),
      last_lt htoo (by decide) (by simp [hkind, Kind.arrays])⟩
  simp only [Request.checked, Request.StringsKept, hkind, modifyPwdChecked]
  simp only [returns_reading, returns_ite, returns_replied, hillegal, modifyPwd_illegal_iff, hold,
    hnew, validPwd_iff, Bool.and_eq_true, ← List.length_eq_zero_iff]
  grind

theorem delete_iff (hkind : r.kind = .accountDelete) :
    r.checked.Returns (Outcome.Meets r) ↔ r.StringsKept := by
  obtain ⟨huid, hold⟩ := deleteParam_strings r.junk r.pack
  have hillegal := account_illegal (r := r) (by simp [hkind])
  have huids := length_strncpy 17 (lastString r.pack "uid") (r.junk.behind "uid")
  have holds := length_strncpy 17 (lastString r.pack "old_pwd") (r.junk.behind "old_pwd")
  have hfits : ¬ r.TooLong → (lastString r.pack "uid").bytes.length < 17 ∧
      (lastString r.pack "old_pwd").bytes.length < 17 := fun htoo =>
    ⟨last_lt htoo (by decide) (by simp [hkind, Kind.arrays]),
      last_lt htoo (by decide) (by simp [hkind, Kind.arrays])⟩
  simp only [Request.checked, Request.StringsKept, hkind, deleteChecked]
  simp only [returns_reading, returns_ite, returns_replied, hillegal, delete_illegal_iff, huid,
    hold, validUid_iff, validPwd_iff, Bool.and_eq_true, ← List.length_eq_zero_iff]
  grind

/-! ### The handlers without a test -/

/-- A session is needed for a request to be refused, and none for the reply to be another one. -/
theorem modifyBasic_iff (hkind : r.kind = .accountModifyBasic) :
    r.checked.Returns (Outcome.Meets r) ↔ r.StringsKept := by
  obtain ⟨hnick, hcomment⟩ := modifyBasicParam_strings r.junk r.pack
  simp only [Request.checked, Request.StringsKept, hkind]
  constructor
  · intro h htoo
    have hreply : [AccountResult.sessionExpired.append] = r.kind.illegal := h none htoo
    rw [hkind] at hreply
    exact reply_ne (by decide) hreply
  · intro htoo
    have hcopied : ∀ reply, (Outcome.copied reply).Meets r := fun _ h => absurd h htoo
    have hnicks : (modifyBasicParam r.junk r.pack).nick.bytes.length < 17 := by
      rw [hnick, length_strncpy_lt]
      exact last_lt htoo (by decide) (by simp [hkind, Kind.arrays])
    have hcomments : (modifyBasicParam r.junk r.pack).comment.bytes.length < 17 := by
      rw [hcomment, length_strncpy_lt]
      exact last_lt htoo (by decide) (by simp [hkind, Kind.arrays])
    intro session
    cases session with
    | none => exact hcopied _
    | some session =>
      refine fun s => returns_reading.mpr ⟨hnicks, fun nicked => ?_⟩
      cases nicked with
      | false => exact hcopied _
      | true =>
        refine fun s => returns_reading.mpr ⟨hcomments, fun commented => ?_⟩
        cases commented with
        | false => exact hcopied _
        | true => exact hcopied _

/-- Somebody has the permission, and somebody has not. -/
theorem returns_permission {f : Option Reply → Handler Outcome} {P : Outcome → Prop} :
    (checkMenuPermission fd >>= f).Returns P ↔
      (f (some [DishResult.noPermission.append])).Returns P ∧ (f none).Returns P := by
  constructor
  · intro h
    exact ⟨h none, h (some 0) ⟨accountMenu, lit "", 0, .fd, lit "", 0⟩ ()⟩
  · rintro ⟨hdenied, hallowed⟩ session
    cases session with
    | none => exact hdenied
    | some session =>
      intro s _
      show (f (if _ then none else some _)).Returns P
      split_ifs
      · exact hallowed
      · exact hdenied

/-- What is read for the statement: the comment, and what the stack holds behind it. -/
theorem length_book_comment (s behind : CString) :
    (strncpy s.bytes.length s behind).bytes.length = s.bytes.length + behind.bytes.length := by
  unfold strncpy
  split_ifs with hs
  · exact absurd hs (lt_irrefl _)
  · rw [List.length_append, List.length_take, min_self]

theorem dishBook_iff (hkind : r.kind = .dishBook) :
    r.checked.Returns (Outcome.Meets r) ↔ r.StringsKept := by
  have hcomment := bookParam_strings r.junk r.pack
  have hillegal : r.kind.illegal = [DishResult.illegalParameter.append] := by rw [hkind]; rfl
  simp only [Request.checked, Request.StringsKept, hkind, dishBookChecked]
  refine returns_permission.trans ((and_iff_right trivial).trans ?_)
  dsimp only
  split_ifs with hbad
  · refine iff_of_true (fun _ => hillegal.symm) ?_
    simp only [Bool.or_eq_true, decide_eq_true_eq] at hbad
    rcases hbad with (hseat | hdish) | hamount
    · exact .inl hseat
    · exact .inr (.inl hdish)
    · exact .inr (.inr (.inl hamount))
  · simp only [Bool.or_eq_true, decide_eq_true_eq, not_or] at hbad
    rw [or_iff_right hbad.1.1, or_iff_right hbad.1.2, or_iff_right hbad.2]
    constructor
    · intro h
      have htoo : ¬ r.TooLong := by
        intro htoo
        have hreply : [DishResult.dishIdInvalid.append] = r.kind.illegal := h false htoo
        rw [hillegal] at hreply
        exact reply_ne (by decide) hreply
      obtain ⟨-, hread⟩ := returns_reading.mp (h true true)
      obtain ⟨hlength, -⟩ := returns_reading.mp hread
      rw [length_book_comment, hcomment, strncpy_eq
        (last_lt htoo (by decide) (by simp [hkind, Kind.arrays]))] at hlength
      exact ⟨htoo, hlength⟩
    · rintro ⟨htoo, hlength⟩ dish
      have hcopied : ∀ reply, (Outcome.copied reply).Meets r := fun _ h => absurd h htoo
      have hshort : (lastString r.pack "comment").bytes.length < 256 :=
        last_lt htoo (by decide) (by simp [hkind, Kind.arrays])
      cases dish with
      | false => exact hcopied _
      | true =>
        intro seat
        cases seat with
        | false => exact hcopied _
        | true =>
          rw [hcomment, strncpy_eq hshort]
          refine returns_reading.mpr ⟨hshort, returns_reading.mpr ⟨?_, fun booked => ?_⟩⟩
          · rwa [length_book_comment]
          · cases booked with
            | false => exact hcopied _
            | true => exact hcopied _

end Tests

/-- A request keeps its strings inside the arrays, and those that are too long are refused, if
and only if nothing is too long or the tests stop before they come to it; for a booking the
stack must also end the copy of the comment. -/
theorem stringsKept_iff (r : Request) :
    r.checked.Returns (Outcome.Meets r) ↔ r.StringsKept := by
  cases hkind : r.kind with
  | accountLogin => exact login_iff hkind
  | accountCreate => exact create_iff hkind
  | accountModifyPwd => exact modifyPwd_iff hkind
  | accountModifyBasic => exact modifyBasic_iff hkind
  | accountDelete => exact delete_iff hkind
  | dishBook => exact dishBook_iff hkind
  | heartbeat | accountLogout | accountList | dishFetch | dishCancel | dishList | seatList
  | cookAccept =>
    simp only [Request.checked, Request.StringsKept, hkind, iff_true]
    exact returns_map_iff.mpr (returns_true _)

/-- Anybody can send a user of 17 bytes. -/
theorem login_overruns :
    let r : Request := ⟨.accountLogin, 5, some [⟨lit "uid", .string (lit "aaaaaaaaaaaaaaaaa")⟩],
      ⟨fun _ => lit "", 0, 0, lit ""⟩⟩
    r.checked = .ret .overrun ∧ ¬ r.checked.Returns (Outcome.Meets r) := by
  intro r
  have hoverrun : r.checked = .ret .overrun := rfl
  exact ⟨hoverrun, fun h => by rwa [hoverrun] at h⟩

end Youmenu.Server
