import Youmenu.Server.Passwords
import Youmenu.Server.Strings
import Mathlib.Data.List.Forall2

/-!
# The spelling of a user id

User ids are to be the same in upper and in lower case. The login and the creation of an
account turn them into lower case; the deletion compares the id of the request with that of the
session, and passes it on to the database, as it is.

## Main definitions

* `Respelled` — two requests that differ in the case of a user id.
* `SpellingIgnored` — what is asked of a pair of requests.
* `DeleteFits` — when it holds of two deletions.
-/

namespace Youmenu.Server

open Eventpack Program

/-- The fields are the same, or they are two spellings of a user id. -/
def FieldRespelled (f f' : PackField) : Prop :=
  f = f' ∨ f.key = lit "uid" ∧ f'.key = lit "uid" ∧
    wordToLower f.value.toCString = wordToLower f'.value.toCString

def Respelled (pack pack' : Pack) : Prop :=
  List.Forall₂ FieldRespelled (pack.getD []) (pack'.getD [])

/-- Both requests are answered with the same result and leave the same accounts and sessions.
A deletion with the answer `account_r_ok` leaves no account with the id in lower case. -/
def SpellingIgnored {ρ : Type} (db : Db (List Account × ρ)) (s : SessionMod × List Account × ρ)
    (r : Request) (pack' : Pack) : Prop :=
  ∃ reply m₁ rows₁ o₁ reply' m₂ rows₂ o₂,
    r.handler.exec (interp db) s = some (reply, m₁, rows₁, o₁) ∧
    ({ r with pack := pack' } : Request).handler.exec (interp db) s =
      some (reply', m₂, rows₂, o₂) ∧
    replyResult reply = replyResult reply' ∧ rows₁ = rows₂ ∧ m₁.sessionList = m₂.sessionList ∧
    (r.kind = .accountDelete → replyResult reply = some (AccountResult.ok.ctorIdx : ℤ) →
      ∀ a ∈ rows₁, a.uid ≠ wordToLower (deleteParam r.junk r.pack).uid)

/-- SQLite may find that the password is the one of the user. -/
def MayKnow (encryptPwd : CString → CString) (rows : List Account) (uid pwd : CString) : Prop :=
  QuoteFree uid → QuoteFree (encryptPwd pwd) → KnowsPwd encryptPwd rows uid pwd

/-- The deletions are refused before they come to the id; or neither id is the one of the
session, and its user is not flagged as an administrator or there is no account to delete. -/
def DeleteFits (encryptPwd : CString → CString) (rows : List Account) (m : SessionMod) (fd : ℕ)
    (p p' : DeleteParam) : Prop :=
  validDelete p → ∀ n ∈ m.sessionList, n.session.fd = fd →
    MayKnow encryptPwd rows n.session.uid p.oldPwd →
      n.session.uid ≠ p.uid ∧ n.session.uid ≠ p'.uid ∧
        (n.session.admin = 0 ∨ QuoteFree p.uid ∧ ∀ a ∈ rows, a.uid ≠ wordToLower p.uid)

/-! ## The parameters of a request -/

section Respelled

variable {pack pack' : Pack}

theorem Respelled.foldl_eq (h : Respelled pack pack') {α : Type} {f : α → PackField → α}
    (hf : ∀ a x y, FieldRespelled x y → f a x = f a y) (a : α) :
    (pack.getD []).foldl f a = (pack'.getD []).foldl f a := by
  refine List.rel_foldl (P := Eq) (R := FieldRespelled) ?_ rfl h
  rintro a _ rfl x y hxy
  exact hf a x y hxy

/-- What does not read a user id reads the same. -/
theorem Respelled.foldl_eq_of_ignores (h : Respelled pack pack') {α : Type}
    {f : α → PackField → α} (hf : ∀ a x, x.key = lit "uid" → f a x = a) (a : α) :
    (pack.getD []).foldl f a = (pack'.getD []).foldl f a := by
  refine h.foldl_eq (fun a x y hxy => ?_) a
  obtain rfl | ⟨hx, hy, -⟩ := hxy
  · rfl
  · rw [hf a x hx, hf a y hy]

theorem wordToLower_strncpy {n : ℕ} {s s' behind : CString} (h : wordToLower s = wordToLower s') :
    wordToLower (strncpy n s behind) = wordToLower (strncpy n s' behind) := by
  have hbytes : s.bytes.map tolower = s'.bytes.map tolower := congrArg CString.bytes h
  have hlength : s.bytes.length = s'.bytes.length := by
    simpa using congrArg List.length hbytes
  unfold strncpy
  rw [hlength]
  split_ifs
  · exact h
  · refine CString.ext ?_
    simp only [wordToLower, List.map_append, List.map_take, hbytes]

/-- What turns a user id into lower case reads the same. -/
theorem Respelled.foldl_eq_of_lowers (h : Respelled pack pack') {α : Type}
    {f : α → PackField → α} {g : α → CString → α} {behind : CString}
    (hf : ∀ a x, x.key = lit "uid" →
      f a x = g a (wordToLower (strncpy 17 x.value.toCString behind))) (a : α) :
    (pack.getD []).foldl f a = (pack'.getD []).foldl f a := by
  refine h.foldl_eq (fun a x y hxy => ?_) a
  obtain rfl | ⟨hx, hy, hlower⟩ := hxy
  · rfl
  · rw [hf a x hx, hf a y hy, wordToLower_strncpy hlower]

variable (h : Respelled pack pack') (junk : Junk)

include h

theorem Respelled.loginParam_eq : loginParam junk pack = loginParam junk pack' :=
  h.foldl_eq_of_lowers (g := fun p s => { (p : LoginParam) with uid := s })
    (fun _ _ hx => if_pos hx) _

theorem Respelled.createParam_eq : createParam junk pack = createParam junk pack' :=
  h.foldl_eq_of_lowers (g := fun a s => { (a : Account) with uid := s })
    (fun _ _ hx => by rw [hx, if_neg (by decide), if_pos rfl]) _

theorem Respelled.modifyPwdParam_eq : modifyPwdParam junk pack = modifyPwdParam junk pack' :=
  h.foldl_eq_of_ignores (fun _ _ hx => by rw [hx, if_neg (by decide), if_neg (by decide)]) _

theorem Respelled.modifyBasicParam_eq :
    modifyBasicParam junk pack = modifyBasicParam junk pack' :=
  h.foldl_eq_of_ignores (fun _ _ hx => by rw [hx, if_neg (by decide), if_neg (by decide)]) _

theorem Respelled.bookParam_eq : bookParam junk pack = bookParam junk pack' :=
  h.foldl_eq_of_ignores (fun _ _ hx => by rw [hx, if_neg (by decide), if_neg (by decide)]) _

theorem Respelled.intParam_eq {key : String} (hkey : lit "uid" ≠ lit key) (default : ℤ) :
    intParam pack key default = intParam pack' key default :=
  h.foldl_eq_of_ignores (fun _ _ hx => by rw [hx, if_neg hkey]) _

theorem Respelled.lastString_eq {key : String} (hkey : lit "uid" ≠ lit key) :
    lastString pack key = lastString pack' key :=
  h.foldl_eq_of_ignores (fun _ _ hx => by rw [hx, if_neg hkey]) _

theorem Respelled.resCookAccept_eq (fd : ℤ) : resCookAccept fd pack = resCookAccept fd pack' := by
  unfold resCookAccept
  rw [h.foldl_eq_of_ignores (fun _ _ hx => by rw [hx, if_neg (by decide)]),
    h.intParam_eq (by decide)]

theorem Respelled.resDishFetch_eq (fd : ℤ) : resDishFetch fd pack = resDishFetch fd pack' := by
  unfold resDishFetch
  rw [h.intParam_eq (by decide)]
  refine congrArg (checkMenuPermission fd >>= ·) (funext fun permission => ?_)
  cases permission with
  | some reply => rfl
  | none =>
    refine congrArg (db _ >>= ·) (funext fun dishes => ?_)
    cases dishes <;> rfl

/-- The handlers other than the deletion do the same. -/
theorem Respelled.handler_eq {r : Request} (hpack : r.pack = pack)
    (hkind : r.kind ≠ .accountDelete) :
    r.handler = ({ r with pack := pack' } : Request).handler := by
  obtain ⟨kind, fd, pack, junk⟩ := r
  obtain rfl := hpack
  cases kind with
  | accountDelete => exact absurd rfl hkind
  | accountLogin =>
    show resAccountLogin junk fd pack = resAccountLogin junk fd pack'
    unfold resAccountLogin
    rw [h.loginParam_eq]
  | accountCreate =>
    show resAccountCreate junk fd pack = resAccountCreate junk fd pack'
    unfold resAccountCreate
    rw [h.createParam_eq]
  | accountModifyPwd =>
    show resAccountModifyPwd junk fd pack = resAccountModifyPwd junk fd pack'
    unfold resAccountModifyPwd
    rw [h.modifyPwdParam_eq]
  | accountModifyBasic =>
    show resAccountModifyBasic junk fd pack = resAccountModifyBasic junk fd pack'
    unfold resAccountModifyBasic
    rw [h.modifyBasicParam_eq]
  | dishFetch => exact h.resDishFetch_eq fd
  | dishBook =>
    show resDishBook junk fd pack = resDishBook junk fd pack'
    unfold resDishBook
    rw [h.intParam_eq (by decide), h.intParam_eq (by decide), h.bookParam_eq]
  | dishCancel =>
    show resDishCancel fd pack = resDishCancel fd pack'
    unfold resDishCancel
    rw [h.intParam_eq (by decide)]
  | dishList =>
    show resDishList fd pack = resDishList fd pack'
    unfold resDishList
    rw [h.intParam_eq (by decide)]
  | cookAccept => exact h.resCookAccept_eq fd
  | heartbeat | accountLogout | accountList | seatList => rfl

/-! ### The parameters of a deletion -/

theorem Respelled.lower_lastString :
    wordToLower (lastString pack "uid") = wordToLower (lastString pack' "uid") := by
  have hfold : ∀ pack, wordToLower (lastString pack "uid") = (pack.getD []).foldl
      (fun s f => if f.key = lit "uid" then wordToLower f.value.toCString else s) (lit "") := by
    intro pack
    refine (List.foldl_hom wordToLower fun s f => ?_).symm
    split_ifs
    · rfl
    · rfl
  rw [hfold, hfold]
  refine h.foldl_eq (fun s x y hxy => ?_) _
  obtain rfl | ⟨hx, hy, hlower⟩ := hxy
  · rfl
  · rw [if_pos hx, if_pos hy, hlower]

theorem Respelled.oldPwd_eq : (deleteParam junk pack).oldPwd = (deleteParam junk pack').oldPwd := by
  rw [(deleteParam_strings junk pack).2, (deleteParam_strings junk pack').2,
    h.lastString_eq (by decide)]

theorem Respelled.lower_uid :
    wordToLower (deleteParam junk pack).uid = wordToLower (deleteParam junk pack').uid := by
  rw [(deleteParam_strings junk pack).1, (deleteParam_strings junk pack').1]
  exact wordToLower_strncpy h.lower_lastString

theorem Respelled.validDelete_eq :
    validDelete (deleteParam junk pack) = validDelete (deleteParam junk pack') := by
  have hlength := congrArg (·.bytes.length) (h.lower_uid junk)
  simp only [length_wordToLower] at hlength
  have hempty : ((deleteParam junk pack).uid.bytes = []) = ((deleteParam junk pack').uid.bytes = [])
      := by rw [← List.length_eq_zero_iff, hlength, List.length_eq_zero_iff]
  simp only [validDelete, validUid, h.oldPwd_eq junk, hlength, ne_eq, hempty]

/-- Ids that are not cut off stay different. -/
theorem Respelled.uid_ne (hne : lastString pack "uid" ≠ lastString pack' "uid")
    (hvalid : validDelete (deleteParam junk pack)) :
    (deleteParam junk pack).uid ≠ (deleteParam junk pack').uid := by
  have hshort : ∀ {pack}, validDelete (deleteParam junk pack) →
      (deleteParam junk pack).uid = lastString pack "uid" := by
    intro pack hvalid
    have hlength := (validUid_iff.mp (Bool.and_eq_true_iff.mp hvalid).1).2
    rw [(deleteParam_strings junk pack).1] at hlength ⊢
    exact strncpy_eq (length_strncpy_lt.mp (Nat.lt_succ_of_le hlength))
  rwa [hshort hvalid, hshort (h.validDelete_eq junk ▸ hvalid)]

end Respelled

/-! ## Two runs -/

section Runs

variable {ρ : Type} {sql : BrokenSql} {encryptPwd : CString → CString} {other : Db ρ}
  {m : SessionMod} {rows : List Account} {o : ρ} {junk : Junk} {fd : ℕ} {pack pack' : Pack}

/-- A run with this result leaves these sessions and accounts. -/
def Leaves (result : AccountResult) (sessions : List SessionNode) (rows : List Account) :
    Reply → SessionMod × List Account × ρ → Prop :=
  fun reply s => replyResult reply = some (result.ctorIdx : ℤ) ∧ s.1.sessionList = sessions ∧
    s.2.1 = rows

theorem spellingIgnored_of_leaves {db : Db (List Account × ρ)}
    {s : SessionMod × List Account × ρ} {r : Request} {result : AccountResult}
    {sessions : List SessionNode} (hrun : r.handler.wp (interp db) (Leaves result sessions rows) s)
    (hrun' : ({ r with pack := pack' } : Request).handler.wp (interp db)
      (Leaves result sessions rows) s)
    (hremoved : result = .ok → ∀ a ∈ rows, a.uid ≠ wordToLower (deleteParam r.junk r.pack).uid) :
    SpellingIgnored db s r pack' := by
  obtain ⟨reply, ⟨m₁, rows₁, o₁⟩, hexec, hresult, hsessions, hrows⟩ := wp_iff_exec.mp hrun
  obtain ⟨reply', ⟨m₂, rows₂, o₂⟩, hexec', hresult', hsessions', hrows'⟩ := wp_iff_exec.mp hrun'
  refine ⟨reply, m₁, rows₁, o₁, reply', m₂, rows₂, o₂, hexec, hexec', hresult.trans hresult'.symm,
    hrows.trans hrows'.symm, hsessions.trans hsessions'.symm, fun _ hok => ?_⟩
  rw [hresult] at hok
  obtain rfl : result = .ok := by
    cases result <;> first | rfl | exact absurd hok (by decide)
  intro a ha
  exact hremoved rfl a (hrows ▸ ha)

/-- The other handlers return, and there is only one run. -/
theorem Respelled.spellingIgnored (hm : Settled (fun _ _ _ => True) m) {r : Request}
    (h : Respelled r.pack pack') (hkind : r.kind ≠ .accountDelete) :
    SpellingIgnored (accountDb sql encryptPwd other) (m, rows, o) r pack' := by
  have hlogs : LogsIn (fun _ _ _ => True) (accountDb sql encryptPwd other) (rows, o) r :=
    fun _ _ _ => trivial
  obtain ⟨reply, ⟨m', rows', o'⟩, hexec, -⟩ := wp_iff_exec.mp (r.wp_handler_settled hm hlogs)
  have hexec' := hexec
  rw [h.handler_eq rfl hkind] at hexec'
  exact ⟨reply, m', rows', o', reply, m', rows', o', hexec, hexec', rfl, rfl, rfl,
    fun hdelete => absurd hdelete hkind⟩

/-! ### Deletions that are refused -/

/-- The answer before a deletion comes to the user id. -/
def deleteRefusal (m : SessionMod) (fd : ℕ) (p : DeleteParam) : AccountResult :=
  if !validDelete p then .illegalParameter
  else if m.sessionList.any (SessionNode.hasFd fd) then .oldPwdIncorrect
  else .sessionExpired

theorem wp_delete_refused (hm : Settled (fun _ _ _ => True) m)
    (h : validDelete (deleteParam junk pack) → ∀ n ∈ m.sessionList, n.session.fd = fd →
      dbAccountPwdCheck sql encryptPwd rows n.session.uid (deleteParam junk pack).oldPwd = false) :
    (resAccountDelete junk fd pack).wp (interp (accountDb sql encryptPwd other))
      (Leaves (deleteRefusal m fd (deleteParam junk pack)) m.sessionList rows) (m, rows, o) := by
  refine wp_resAccountDelete_eq hm ?_ ?_ ?_ ?_
  · intro hinvalid
    rw [deleteRefusal, if_pos (by simpa using hinvalid)]
    exact ⟨rfl, rfl, rfl⟩
  · intro hvalid hnone
    have hany : m.sessionList.any (SessionNode.hasFd fd) = false := by
      rw [List.any_eq_false]
      intro n hn hfd
      exact hnone n hn (by simpa [SessionNode.hasFd] using hfd)
    rw [deleteRefusal, if_neg (by simp [hvalid]), if_neg (by simp [hany])]
    exact ⟨rfl, rfl, rfl⟩
  · intro hvalid n hn hfd _
    rw [deleteRefusal, if_neg (by simp [hvalid]), if_pos (any_hasFd hn hfd)]
    exact ⟨rfl, rfl, rfl⟩
  · intro hvalid n hn hfd hknown
    have hunknown := h hvalid n hn hfd
    exact absurd (hunknown.symm.trans hknown) (by decide)

/-! ### Deletions that are not -/

section Accepted

variable {n : SessionNode} (hm : Settled (fun _ _ _ => True) m)
  (hvalid : validDelete (deleteParam junk pack)) (hn : n ∈ m.sessionList) (hfd : n.session.fd = fd)
  (hknown : dbAccountPwdCheck sql encryptPwd rows n.session.uid
    (deleteParam junk pack).oldPwd = true)

include hm hvalid hn hfd hknown

theorem wp_delete_accepted {Q : Reply → SessionMod × List Account × ρ → Prop}
    (h : (if n.session.uid = (deleteParam junk pack).uid then
        deleteOwn fd (deleteParam junk pack).uid n.addr
      else deleteOther (deleteParam junk pack).uid n.addr).wp
        (interp (accountDb sql encryptPwd other)) Q (m.hold n.addr, rows, o)) :
    (resAccountDelete junk fd pack).wp (interp (accountDb sql encryptPwd other)) Q
      (m, rows, o) := by
  refine wp_resAccountDelete_eq hm (fun hinvalid => (hinvalid hvalid).elim)
    (fun _ hnone => (hnone n hn hfd).elim) ?_ ?_
  · intro _ n' hn' hfd' hunknown
    obtain rfl := hm.session_unique hn hfd hn' hfd'
    exact absurd (hknown.symm.trans hunknown) (by decide)
  · intro _ n' hn' hfd' _
    obtain rfl := hm.session_unique hn hfd hn' hfd'
    exact h

/-- The deletion of another account keeps the sessions. -/
theorem wp_delete_other (huid : n.session.uid ≠ (deleteParam junk pack).uid) :
    (resAccountDelete junk fd pack).wp (interp (accountDb sql encryptPwd other))
      (fun reply s => s.1.sessionList = m.sessionList ∧
        if n.session.admin = 0 then reply = [AccountResult.noPermission.append] ∧ s.2.1 = rows
        else reply = deleted (dbAccountDel sql rows (deleteParam junk pack).uid).1 ∧
          s.2.1 = (dbAccountDel sql rows (deleteParam junk pack).uid).2) (m, rows, o) := by
  refine wp_delete_accepted hm hvalid hn hfd hknown ?_
  rw [if_neg huid]
  refine wp_deleteOther hm hn (fun hzero => ?_) fun hflag => ?_
  · rw [if_pos hzero]
    exact ⟨rfl, rfl, rfl⟩
  · rw [if_neg hflag]
    exact ⟨rfl, rfl, rfl⟩

/-- The deletion of the own account is refused, or ends the session. -/
theorem wp_delete_own (huid : n.session.uid = (deleteParam junk pack).uid) :
    (resAccountDelete junk fd pack).wp (interp (accountDb sql encryptPwd other))
      (fun reply s => reply = [AccountResult.cannotDeleteLastAdmin.append] ∨
        n ∉ s.1.sessionList) (m, rows, o) := by
  refine wp_delete_accepted hm hvalid hn hfd hknown ?_
  rw [if_pos huid]
  refine wp_deleteOwn hm hn (fun _ _ => .inl rfl) fun _ _ _ => .inr fun hmem => ?_
  have hkept := (List.mem_filter.mp (List.mem_filter.mp hmem).1).2
  simp [SessionNode.hasFd, hfd] at hkept

/-- Nothing is deleted. -/
theorem wp_delete_kept (huid : n.session.uid ≠ (deleteParam junk pack).uid)
    (hkept : n.session.admin = 0 ∨ QuoteFree (deleteParam junk pack).uid ∧
      ∀ a ∈ rows, a.uid ≠ (deleteParam junk pack).uid) :
    (resAccountDelete junk fd pack).wp (interp (accountDb sql encryptPwd other))
      (Leaves (if n.session.admin = 0 then .noPermission else .ok) m.sessionList rows)
      (m, rows, o) := by
  refine (wp_delete_other hm hvalid hn hfd hknown huid).mono fun reply s hs => ?_
  obtain ⟨hsessions, hs⟩ := hs
  split_ifs at hs ⊢ with hzero
  · obtain ⟨rfl, hrows⟩ := hs
    exact ⟨rfl, hsessions, hrows⟩
  · obtain ⟨hquote, hnone⟩ := hkept.resolve_left hzero
    have hdel : dbAccountDel sql rows (deleteParam junk pack).uid = (true, rows) := by
      rw [dbAccountDel, if_pos hquote, List.filter_eq_self.mpr]
      simpa using hnone
    rw [hdel] at hs
    obtain ⟨rfl, hrows⟩ := hs
    exact ⟨rfl, hsessions, hrows⟩

end Accepted

/-! ### Both -/

/-- A statement that a quote has broken may find a row, and leave a row for a user. -/
def leavesRow (uid : CString) : BrokenSql where
  query _ _ := [⟨0, uid, lit "", lit "", lit ""⟩]
  exec _ _ := (true, [⟨0, uid, lit "", lit "", lit ""⟩])

theorem mayKnow_of_check {uid pwd : CString}
    (h : dbAccountPwdCheck sql encryptPwd rows uid pwd = true) :
    MayKnow encryptPwd rows uid pwd :=
  fun huid hpwd => (dbAccountPwdCheck_iff huid hpwd).mp h

theorem MayKnow.check {uid pwd w : CString} (h : MayKnow encryptPwd rows uid pwd) :
    dbAccountPwdCheck (leavesRow w) encryptPwd rows uid pwd = true := by
  by_cases hfree : QuoteFree uid ∧ QuoteFree (encryptPwd pwd)
  · exact (dbAccountPwdCheck_iff hfree.1 hfree.2).mpr (h hfree.1 hfree.2)
  · rw [dbAccountPwdCheck, if_neg (by simpa using hfree)]
    simp [leavesRow]

theorem dbAccountDel_leavesRow_fst {uid w : CString} :
    (dbAccountDel (leavesRow w) rows uid).1 = true := by
  unfold dbAccountDel
  split_ifs <;> rfl

/-- An account goes if its id is the one that is deleted, letter for letter. -/
theorem exists_dbAccountDel {uid w : CString}
    (h : ¬ QuoteFree uid ∨ uid ≠ w ∧ ∃ a ∈ rows, a.uid = w) :
    ∃ a ∈ (dbAccountDel (leavesRow w) rows uid).2, a.uid = w := by
  unfold dbAccountDel
  split_ifs with hquote
  · obtain ⟨hne, a, ha, rfl⟩ := h.resolve_left (not_not.mpr hquote)
    exact ⟨a, List.mem_filter.mpr ⟨ha, by simpa using hne.symm⟩, rfl⟩
  · exact ⟨_, List.mem_singleton_self _, rfl⟩

theorem deleted_ne_last (b : Bool) :
    replyResult (deleted b) ≠ replyResult [AccountResult.cannotDeleteLastAdmin.append] := by
  cases b <;> decide

/-- One of two runs deletes the own account and the other one another: they are told apart. -/
theorem own_other_differ {n : SessionNode} {reply reply' : Reply}
    {s s' : SessionMod × List Account × ρ} (hn : n ∈ m.sessionList) {b : Bool}
    (hown : reply = [AccountResult.cannotDeleteLastAdmin.append] ∨ n ∉ s.1.sessionList)
    (hother : s'.1.sessionList = m.sessionList ∧
      if n.session.admin = 0 then reply' = [AccountResult.noPermission.append] ∧ s'.2.1 = rows
      else reply' = deleted b ∧ s'.2.1 = rows')
    (hresult : replyResult reply = replyResult reply') :
    s.1.sessionList ≠ s'.1.sessionList := by
  intro hsessions
  obtain ⟨hkept, hother⟩ := hother
  rcases hown with rfl | hgone
  · split_ifs at hother with hzero
    · rw [hother.1] at hresult
      exact absurd hresult (by decide)
    · rw [hother.1] at hresult
      exact deleted_ne_last b hresult.symm
  · rw [hsessions, hkept] at hgone
    exact hgone hn

theorem Respelled.deleteFits (hm : Settled (fun _ _ _ => True) m) (h : Respelled pack pack')
    (hne : lastString pack "uid" ≠ lastString pack' "uid")
    (hignored : ∀ sql, SpellingIgnored (accountDb sql encryptPwd other) (m, rows, o)
      ⟨.accountDelete, fd, pack, junk⟩ pack') :
    DeleteFits encryptPwd rows m fd (deleteParam junk pack) (deleteParam junk pack') := by
  intro hvalid n hn hfd hmay
  obtain ⟨reply, m₁, rows₁, o₁, reply', m₂, rows₂, o₂, hexec, hexec', hresult, rfl, hsessions,
    hremoved⟩ := hignored (leavesRow (wordToLower (deleteParam junk pack).uid))
  have huids := h.uid_ne junk hne hvalid
  have hvalid' := h.validDelete_eq junk ▸ hvalid
  have hknown := hmay.check (w := wordToLower (deleteParam junk pack).uid)
  have hknown' := hknown
  rw [h.oldPwd_eq junk] at hknown'
  have hown : n.session.uid ≠ (deleteParam junk pack).uid := by
    intro huid
    have hfirst := (wp_delete_own hm hvalid hn hfd hknown huid).of_exec hexec
    have hsecond := (wp_delete_other hm hvalid' hn hfd hknown' (huid ▸ huids)).of_exec hexec'
    exact own_other_differ hn hfirst hsecond hresult hsessions
  have hown' : n.session.uid ≠ (deleteParam junk pack').uid := by
    intro huid
    have hfirst := (wp_delete_other hm hvalid hn hfd hknown hown).of_exec hexec
    have hsecond := (wp_delete_own hm hvalid' hn hfd hknown' huid).of_exec hexec'
    exact own_other_differ hn hsecond hfirst hresult.symm hsessions.symm
  refine ⟨hown, hown', ?_⟩
  by_cases hzero : n.session.admin = 0
  · exact .inl hzero
  have hfirst := (wp_delete_other hm hvalid hn hfd hknown hown).of_exec hexec
  have hsecond := (wp_delete_other hm hvalid' hn hfd hknown' hown').of_exec hexec'
  rw [if_neg hzero] at hfirst hsecond
  obtain ⟨-, rfl, (hrows : rows₁ = _)⟩ := hfirst
  obtain ⟨-, -, (hrows' : rows₁ = _)⟩ := hsecond
  have hgone := hremoved rfl (by rw [dbAccountDel_leavesRow_fst]; rfl)
  refine .inr ⟨?_, fun a ha huid => ?_⟩
  · by_contra hquote
    obtain ⟨a, ha, huid⟩ := exists_dbAccountDel (.inl hquote)
    exact hgone a (hrows ▸ ha) huid
  · -- one of the two ids is not the one in lower case
    by_cases hlower : (deleteParam junk pack).uid = wordToLower (deleteParam junk pack).uid
    · obtain ⟨a, ha, huid⟩ := exists_dbAccountDel (.inr ⟨fun heq => huids (hlower.trans heq.symm),
        a, ha, huid⟩)
      exact hgone a (hrows' ▸ ha) huid
    · obtain ⟨a, ha, huid⟩ := exists_dbAccountDel (.inr ⟨hlower, a, ha, huid⟩)
      exact hgone a (hrows ▸ ha) huid

theorem Respelled.spellingIgnored_of_deleteFits (hm : Settled (fun _ _ _ => True) m)
    (h : Respelled pack pack') (hrows : ∀ a ∈ rows, wordToLower a.uid = a.uid)
    (hfits : DeleteFits encryptPwd rows m fd (deleteParam junk pack) (deleteParam junk pack')) :
    SpellingIgnored (accountDb sql encryptPwd other) (m, rows, o)
      ⟨.accountDelete, fd, pack, junk⟩ pack' := by
  by_cases hknown : validDelete (deleteParam junk pack) ∧ ∃ n ∈ m.sessionList, n.session.fd = fd ∧
    dbAccountPwdCheck sql encryptPwd rows n.session.uid (deleteParam junk pack).oldPwd = true
  · obtain ⟨hvalid, n, hn, hfd, hknown⟩ := hknown
    obtain ⟨hown, hown', hkept⟩ := hfits hvalid n hn hfd (mayKnow_of_check hknown)
    have hvalid' := h.validDelete_eq junk ▸ hvalid
    have hknown' := hknown
    rw [h.oldPwd_eq junk] at hknown'
    have hnone : ∀ {uid}, wordToLower uid = wordToLower (deleteParam junk pack).uid →
        (∀ a ∈ rows, a.uid ≠ wordToLower (deleteParam junk pack).uid) →
          ∀ a ∈ rows, a.uid ≠ uid := by
      rintro uid hlower hnone a ha rfl
      exact hnone a ha ((hrows a ha).symm.trans hlower)
    refine spellingIgnored_of_leaves (wp_delete_kept hm hvalid hn hfd hknown hown ?_)
      (wp_delete_kept hm hvalid' hn hfd hknown' hown' ?_) ?_
    · exact hkept.imp_right fun hkept => ⟨hkept.1, hnone rfl hkept.2⟩
    · refine hkept.imp_right fun hkept => ⟨?_, hnone (h.lower_uid junk).symm hkept.2⟩
      rw [← quoteFree_wordToLower, ← h.lower_uid junk, quoteFree_wordToLower]
      exact hkept.1
    · intro hok
      split_ifs at hok with hzero
      exact (hkept.resolve_left hzero).2
  · have hrefused : validDelete (deleteParam junk pack) → ∀ n ∈ m.sessionList, n.session.fd = fd →
        dbAccountPwdCheck sql encryptPwd rows n.session.uid (deleteParam junk pack).oldPwd =
          false := by
      intro hvalid n hn hfd
      rw [← Bool.not_eq_true]
      exact fun hcheck => hknown ⟨hvalid, n, hn, hfd, hcheck⟩
    have hrefused' := hrefused
    have hsame : deleteRefusal m fd (deleteParam junk pack) =
        deleteRefusal m fd (deleteParam junk pack') := by
      rw [deleteRefusal, deleteRefusal, h.validDelete_eq junk]
    have hok : deleteRefusal m fd (deleteParam junk pack) ≠ .ok := by
      unfold deleteRefusal
      split_ifs <;> decide
    rw [h.oldPwd_eq junk, h.validDelete_eq junk] at hrefused'
    refine spellingIgnored_of_leaves (wp_delete_refused hm hrefused) ?_ fun heq => absurd heq hok
    rw [hsame]
    exact wp_delete_refused hm hrefused'

end Runs

/-- For an account table in lower case, whatever SQLite makes of broken statements: a request
gives the same for two spellings of a user id if and only if it is no deletion, or the deletions
fit. -/
theorem spelling_ignored_iff {ρ : Type} (encryptPwd : CString → CString) (other : Db ρ)
    {m : SessionMod} (hm : Settled (fun _ _ _ => True) m) {rows : List Account}
    (hrows : ∀ a ∈ rows, wordToLower a.uid = a.uid) (o : ρ) {r : Request} {pack' : Pack}
    (h : Respelled r.pack pack') (hne : lastString r.pack "uid" ≠ lastString pack' "uid") :
    (∀ sql, SpellingIgnored (accountDb sql encryptPwd other) (m, rows, o) r pack') ↔
      (r.kind = .accountDelete → DeleteFits encryptPwd rows m r.fd (deleteParam r.junk r.pack)
        (deleteParam r.junk pack')) := by
  obtain ⟨kind, fd, pack, junk⟩ := r
  by_cases hkind : kind = .accountDelete
  · subst hkind
    constructor
    · exact fun hignored _ => h.deleteFits hm hne hignored
    · exact fun hfits sql => h.spellingIgnored_of_deleteFits hm hrows (hfits rfl)
  · exact iff_of_true (fun sql => h.spellingIgnored hm hkind) fun hdelete => absurd hdelete hkind

def deletePack (uid oldPwd : String) : Pack :=
  some [⟨lit "uid", .string (lit uid)⟩, ⟨lit "old_pwd", .string (lit oldPwd)⟩]

theorem respelled_deletePack {uid uid' oldPwd : String}
    (h : wordToLower (lit uid) = wordToLower (lit uid')) :
    Respelled (deletePack uid oldPwd) (deletePack uid' oldPwd) :=
  .cons (.inr ⟨rfl, rfl, h⟩) (.cons (.inl rfl) .nil)

/-- `ann` may not delete `bob`, in whatever case. -/
theorem spelling_ignored_bob : HasSession annLoggedIn 5 ∧
    ∀ sql, SpellingIgnored (accountDb sql id emptyDb) (annLoggedIn, [ann], ())
      ⟨.accountDelete, 5, deletePack "bob" "tea", noJunk⟩ (deletePack "Bob" "tea") := by
  refine ⟨⟨_, List.mem_singleton_self _, rfl⟩, ?_⟩
  refine (spelling_ignored_iff _ _ settled_annLoggedIn (by decide) _
    (respelled_deletePack (by decide)) (by decide)).mpr fun _ _ n hn _ _ => ?_
  obtain rfl := List.mem_singleton.mp hn
  exact ⟨by decide, by decide, .inl rfl⟩

/-- The stack held a one when `ann` logged in. -/
def annFlagged : SessionMod :=
  { annLoggedIn with sessionList := [⟨0, accountMenu, lit "ann", 1, .fd, lit "", 5⟩] }

/-- `ann` deletes herself as `ann`, and may not do so as `Ann`. With the flag of an administrator
she is told that `Bob` is deleted while `bob` is still there. -/
theorem spelling_matters_ann :
    ¬ SpellingIgnored smallDb (annLoggedIn, [ann], ())
      ⟨.accountDelete, 5, deletePack "ann" "tea", noJunk⟩ (deletePack "Ann" "tea") ∧
    ¬ SpellingIgnored smallDb (annFlagged, [ann, { ann with uid := lit "bob" }], ())
      ⟨.accountDelete, 5, deletePack "Bob" "tea", noJunk⟩ (deletePack "bob" "tea") := by
  constructor
  · rintro ⟨reply, m₁, rows₁, o₁, reply', m₂, rows₂, o₂, hexec, hexec', hresult, -⟩
    obtain ⟨rfl, -⟩ := Prod.mk.inj (Option.some.inj hexec)
    obtain ⟨rfl, -⟩ := Prod.mk.inj (Option.some.inj hexec')
    exact absurd hresult (by decide)
  · rintro ⟨reply, m₁, rows₁, o₁, reply', m₂, rows₂, o₂, hexec, -, -, -, -, hremoved⟩
    obtain ⟨rfl, hstate⟩ := Prod.mk.inj (Option.some.inj hexec)
    obtain ⟨-, hstate⟩ := Prod.mk.inj hstate
    obtain ⟨rfl, -⟩ := Prod.mk.inj hstate
    exact hremoved rfl rfl { ann with uid := lit "bob" } (by decide) (by decide)

end Youmenu.Server
