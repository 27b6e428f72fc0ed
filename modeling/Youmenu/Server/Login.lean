import Youmenu.Server.Disconnects

/-!
# What a login does to the session table

A login that succeeds ends the sessions of the same user and of the same connection
and adds its own; a login by password may ask for a token besides. A login that
fails leaves the table alone, but for one: a token whose user is gone from the
account table is noticed only after the table was changed.

## Main definitions

* `LoginEffect` — the table after a login, from the table before.
* `FailedLoginKeeps` — what is asked of a login that fails.
* `TokenOfDeleted` — the logins that do not meet it.
-/

namespace Youmenu.Server

open Eventpack Transition Program

variable {δ : Type}

/-- The reply says that the user is logged in. -/
def LoggedIn (reply : Reply) : Prop :=
  replyResult reply = some (AccountResult.ok.ctorIdx : ℤ) ∨
    replyResult reply = some (AccountResult.loginOkConflictAnotherAddress.ctorIdx : ℤ)

/-- The sessions of connections that a login ends. -/
def endedBy (uid : CString) (fd : ℕ) (n : SessionNode) : Bool :=
  n.session.sType = .fd && (n.session.uid = uid || n.session.fd = fd)

/-- The login is by password and asks for a token. -/
def asksToken (p : LoginParam) : Bool :=
  validUid p.uid && validPwd p.pwd && p.tokenExpire > 0

/-- The user that a login is for: a token stands for the user of its session. -/
def loginUser (m : SessionMod) (p : LoginParam) : Option CString :=
  if validUid p.uid && validPwd p.pwd then some p.uid
  else if validToken p.token then
    (m.sessionList.find? (SessionNode.hasToken p.token)).map (·.session.uid)
  else none

/-- The session `s` of the connection is added and, if the login asks for one, the session
`t` of a new token; what they replace is removed, and nothing else. -/
structure LoginEffect (m m' : SessionMod) (uid : CString) (fd : ℕ) (asks : Bool) (guid : CString)
    (reply : Reply) : Prop where
  table : ∃ (addr addr' : ℕ) (s t : Session),
    (s.sType = .fd ∧ s.uid = uid ∧ s.fd = fd) ∧
    (t.sType = .token ∧ t.uid = uid ∧ t.fd = -1 ∧ t.token = guid) ∧
    m'.sessionList =
      m.sessionList.filter (fun n => !endedBy uid fd n && !(asks && n.hasUid uid .token)) ++
        ⟨addr, s⟩ :: if asks then [⟨addr', t⟩] else []
  conflict : replyResult reply = some (AccountResult.loginOkConflictAnotherAddress.ctorIdx : ℤ) ↔
    ∃ n ∈ m.sessionList, endedBy uid fd n

section Rules

variable {db : Db δ} {m : SessionMod} {d : δ} {α : Type} {Q : α → SessionMod × δ → Prop}

theorem SessionMod.remove_congr {hit hit' : SessionNode → Bool}
    (h : ∀ n ∈ m.sessionList, hit n = hit' n) : m.remove hit = m.remove hit' := by
  have hfilter : m.sessionList.filter (fun n => !hit n) = m.sessionList.filter fun n => !hit' n :=
    List.filter_congr fun n hn => by rw [h n hn]
  rw [SessionMod.remove, hfilter, SessionMod.remove]

/-- The first check of `res_account_check_session_exist`. -/
theorem wp_dropUid (hm : Keyed m) {uid : CString} {k : Bool → Handler α}
    (h : (k (m.sessionList.any (SessionNode.hasUid uid .fd))).wp (interp db) Q
      (m.remove (SessionNode.hasUid uid .fd), d)) :
    (sessionRefUid uid .fd >>= fun old => dropSession old >>= k).wp (interp db) Q (m, d) := by
  refine wp_refUid hm.settled (fun hnone => ?_) fun n hn huid => ?_
  · rw [hnone, SessionMod.remove_none (by simpa using hnone)] at h
    exact h
  · rw [dropSession, wp_bind, wp_read hm.settled hn, wp_dref hm.settled hn,
      wp_delFd_eq hm.settled]
    have hfound : m.sessionList.any (SessionNode.hasUid uid .fd) = true :=
      List.any_eq_true.mpr ⟨n, hn, huid⟩
    have htype : n.session.sType = .fd := by
      simp only [SessionNode.hasUid, Bool.and_eq_true, decide_eq_true_eq] at huid
      exact huid.1
    have hfd := hm.unique.fd_nonneg n hn htype
    -- the user has one session, and so has its connection
    have hsame : ∀ n' ∈ m.sessionList, n'.hasUid uid .fd = n'.hasFd n.session.fd := by
      intro n' hn'
      rw [Bool.eq_iff_iff]
      constructor
      · intro huid'
        obtain rfl := hm.unique.uid_inj hn hn' huid huid'
        simp [SessionNode.hasFd]
      · intro hfd'
        have hfd' : n'.session.fd = n.session.fd := by simpa [SessionNode.hasFd] using hfd'
        obtain ⟨fd, hfd⟩ := Int.eq_ofNat_of_zero_le hfd
        rw [hm.settled.session_unique hn' (hfd'.trans hfd) hn hfd]
        exact huid
    rw [hfound, SessionMod.remove_congr hsame] at h
    exact h

/-- The second check of `res_account_check_session_exist`. -/
theorem wp_dropFd (hm : Keyed m) {fd : ℕ} {k : Bool → Handler α}
    (h : (k (m.sessionList.any (SessionNode.hasFd fd))).wp (interp db) Q
      (m.remove (SessionNode.hasFd fd), d)) :
    (sessionRefFd fd >>= fun old => dropSession old >>= k).wp (interp db) Q (m, d) := by
  refine wp_refFd hm.settled (fun hnone => ?_) fun n hn hfd => ?_
  · have hnone' : ∀ n ∈ m.sessionList, n.hasFd fd = false := by simpa [SessionNode.hasFd] using hnone
    rw [List.any_eq_false.mpr (by simpa using hnone'), SessionMod.remove_none hnone'] at h
    exact h
  · rw [dropSession, wp_bind, wp_read hm.settled hn, wp_dref hm.settled hn,
      wp_delFd_eq hm.settled, hfd]
    have hfound : m.sessionList.any (SessionNode.hasFd fd) = true := any_hasFd hn hfd
    rw [hfound] at h
    exact h

theorem wp_checkSessionExist_eq (hm : Keyed m) {uid : CString} {fd : ℕ} {k : Bool → Handler α}
    (h : (k (m.sessionList.any (endedBy uid fd))).wp (interp db) Q
      (m.remove (endedBy uid fd), d)) :
    (resAccountCheckSessionExist uid fd >>= k).wp (interp db) Q (m, d) := by
  have hended : ∀ n ∈ m.sessionList, (n.hasUid uid .fd || n.hasFd fd) = endedBy uid fd n := by
    intro n hn
    have htype : n.session.fd = fd → n.session.sType = .fd :=
      hm.unique.sType_of_fd hn (by omega)
    simp only [SessionNode.hasUid, SessionNode.hasFd, endedBy]
    grind
  have hany : (m.sessionList.any (SessionNode.hasUid uid .fd) ||
      (m.remove (SessionNode.hasUid uid .fd)).sessionList.any (SessionNode.hasFd fd)) =
        m.sessionList.any (endedBy uid fd) := by
    rw [Bool.eq_iff_iff, Bool.or_eq_true, List.any_eq_true, List.any_eq_true, List.any_eq_true]
    constructor
    · rintro (⟨n, hn, huid⟩ | ⟨n, hn, hfd⟩)
      · exact ⟨n, hn, by rw [← hended n hn, huid, Bool.true_or]⟩
      · have hn := (SessionMod.mem_remove.mp hn).1
        exact ⟨n, hn, by rw [← hended n hn, hfd, Bool.or_true]⟩
    · rintro ⟨n, hn, hn'⟩
      rw [← hended n hn] at hn'
      cases huid : n.hasUid uid .fd with
      | true => exact .inl ⟨n, hn, huid⟩
      | false =>
        rw [huid, Bool.false_or] at hn'
        exact .inr ⟨n, SessionMod.mem_remove.mpr ⟨hn, huid⟩, hn'⟩
  rw [wp_bind]
  refine wp_dropUid hm (wp_dropFd (hm.remove _) ?_)
  rw [SessionMod.remove_remove, SessionMod.remove_congr hended]
  exact hany ▸ h

theorem wp_loginToken_eq (hm : Keyed m) {s : Session} {guid : CString} (hfresh : Fresh guid m)
    {k : Reply → Handler α}
    (h : (k [appendString "token" guid]).wp (interp db) Q
      ((m.remove (SessionNode.hasUid s.uid .token)).insert
        { s with sType := .token, token := guid, fd := -1 }, d)) :
    (loginToken s guid >>= k).wp (interp db) Q (m, d) := by
  have hadd : (sessionAddToken { s with sType := .token, token := guid, fd := -1 } >>= fun _ =>
      k [appendString "token" guid]).wp (interp db) Q
        (m.remove (SessionNode.hasUid s.uid .token), d) := by
    refine (wp_addToken_free (hm.remove _).settled ?_).mpr h
    exact (hfresh.remove _).conflict rfl
  rw [wp_bind]
  refine wp_refUid hm.settled (fun hnone => ?_) fun n hn huid => ?_
  · rw [SessionMod.remove_none (by simpa using hnone)] at hadd
    exact wp_bind.mp hadd
  · have huid' : n.session.uid = s.uid := by
      simp only [SessionNode.hasUid, Bool.and_eq_true, decide_eq_true_eq] at huid
      exact huid.2
    rw [dropToken, wp_bind, wp_read hm.settled hn, wp_dref hm.settled hn,
      wp_delToken_eq hm.settled, huid']
    exact wp_bind.mp hadd

end Rules

/-! ## Logins that succeed -/

section Effect

variable {db : Db δ} {m : SessionMod} {d : δ}

theorem not_loggedIn {r : AccountResult} (hok : r ≠ .ok)
    (hconflict : r ≠ .loginOkConflictAnotherAddress) : ¬ LoggedIn [r.append] := by
  unfold LoggedIn
  cases r <;> first | exact (hok rfl).elim | exact (hconflict rfl).elim | decide

/-- After the checks nothing stands in the way of the new session. -/
theorem Keyed.freeFor (hm : Keyed m) (uid : CString) (fd : ℕ) :
    FreeFor uid fd (m.remove (endedBy uid fd)) := by
  intro n hn
  obtain ⟨hn, hkept⟩ := SessionMod.mem_remove.mp hn
  have htype : n.session.fd = fd → n.session.sType = .fd := hm.unique.sType_of_fd hn (by omega)
  simp only [endedBy, SessionNode.hasUid] at hkept ⊢
  grind

/-- The result comes after fields of other names. -/
theorem replyResult_loginResult {fields : Reply}
    (hfields : fields.all fun f => (resultElement f).isNone) (conflict : Bool) :
    replyResult (fields ++ [loginResult conflict]) =
      some (if conflict then (AccountResult.loginOkConflictAnotherAddress.ctorIdx : ℤ)
        else AccountResult.ok.ctorIdx) := by
  have hnone : fields.findSome? resultElement = none := by simpa using hfields
  rw [replyResult, List.findSome?_append, hnone]
  cases conflict <;> rfl

theorem conflict_iff (uid : CString) (fd : ℕ) {fields : Reply}
    (hfields : fields.all fun f => (resultElement f).isNone) :
    replyResult (fields ++ [loginResult (m.sessionList.any (endedBy uid fd))]) =
      some (AccountResult.loginOkConflictAnotherAddress.ctorIdx : ℤ) ↔
        ∃ n ∈ m.sessionList, endedBy uid fd n := by
  rw [replyResult_loginResult hfields, ← List.any_eq_true]
  cases m.sessionList.any (endedBy uid fd) <;> decide

theorem loginEffect_fd (uid : CString) (fd : ℕ) (s : Session) (guid : CString) (fields : Reply)
    (hs : s.sType = .fd ∧ s.uid = uid ∧ s.fd = fd)
    (hfields : fields.all fun f => (resultElement f).isNone) :
    LoginEffect m ((m.remove (endedBy uid fd)).insert s) uid fd false guid
      (fields ++ [loginResult (m.sessionList.any (endedBy uid fd))]) where
  table := by
    refine ⟨m.next, 0, s, { s with sType := .token, fd := -1, token := guid }, hs,
      ⟨rfl, hs.2.1, rfl, rfl⟩, ?_⟩
    simp [SessionMod.insert, SessionMod.remove]
  conflict := conflict_iff uid fd hfields

theorem loginEffect_token (uid : CString) (fd : ℕ) (s t : Session) (guid : CString) (fields : Reply)
    (hs : s.sType = .fd ∧ s.uid = uid ∧ s.fd = fd)
    (ht : t.sType = .token ∧ t.uid = uid ∧ t.fd = -1 ∧ t.token = guid)
    (hfields : fields.all fun f => (resultElement f).isNone) :
    LoginEffect m ((((m.remove (endedBy uid fd)).insert s).remove
      (SessionNode.hasUid uid .token)).insert t) uid fd true guid
      (fields ++ [loginResult (m.sessionList.any (endedBy uid fd))]) where
  table := by
    have hstays : (SessionNode.mk m.next s).hasUid uid .token = false := by
      simp [SessionNode.hasUid, hs.1]
    refine ⟨m.next, m.next + 1, s, t, hs, ht, ?_⟩
    simp [SessionMod.insert, SessionMod.remove, hstays, List.filter_filter, Bool.and_comm]
  conflict := conflict_iff uid fd hfields

theorem wp_loginByPwd_effect (hm : Keyed m) {junk : Junk} (hfresh : Fresh junk.guid m) {fd : ℕ}
    {p : LoginParam} (hvalid : validUid p.uid && validPwd p.pwd) :
    (loginByPwd junk fd p).wp (interp db) (fun reply s => LoggedIn reply →
      LoginEffect m s.1 p.uid fd (asksToken p) junk.guid reply) (m, d) := by
  have hasks : asksToken p = decide (p.tokenExpire > 0) := by
    simp only [asksToken, hvalid, Bool.true_and]
  refine wp_db.mpr ?_
  split
  · exact fun h => (not_loggedIn (by decide) (by decide) h).elim
  refine wp_db.mpr ?_
  split
  · refine wp_checkSessionExist_eq hm ?_
    refine wp_db.mpr ?_
    split
    · exact fun h => (not_loggedIn (by decide) (by decide) h).elim
    next a _ =>
    have hfree := (hm.freeFor p.uid fd).conflict
      (s := ⟨a.type, p.uid, junk.admin, .fd, lit "", fd⟩) rfl rfl
    refine (wp_addFd_free (hm.remove _).settled hfree).mpr ?_
    split
    · next hexpire =>
      refine wp_loginToken_eq ((hm.remove _).insert_fd (by simp) hfree)
        ((hfresh.remove _).insert rfl) fun _ => ?_
      rw [hasks, decide_eq_true hexpire]
      exact loginEffect_token p.uid fd _ _ junk.guid
        [appendString "token" junk.guid, appendInt "type" a.type,
          appendString "nick" a.nick, appendString "comment" a.comment]
        ⟨rfl, rfl, rfl⟩ ⟨rfl, rfl, rfl, rfl⟩ rfl
    · next hexpire =>
      intro _
      rw [hasks, decide_eq_false hexpire]
      exact loginEffect_fd p.uid fd _ junk.guid [appendInt "type" a.type,
        appendString "nick" a.nick, appendString "comment" a.comment] ⟨rfl, rfl, rfl⟩ rfl
  · exact fun h => (not_loggedIn (by decide) (by decide) h).elim

theorem wp_loginByToken_effect (hm : Keyed m) (fd : ℕ) (token guid : CString) :
    (loginByToken fd token).wp (interp db) (fun reply s => LoggedIn reply →
      ∃ n, m.sessionList.find? (SessionNode.hasToken token) = some n ∧
        LoginEffect m s.1 n.session.uid fd false guid reply) (m, d) := by
  refine wp_refToken hm.settled (fun _ => ?_) fun n hn hfind => ?_
  · exact fun h => (not_loggedIn (by decide) (by decide) h).elim
  rw [wp_read hm.settled hn, wp_dref hm.settled hn]
  refine wp_checkSessionExist_eq hm ?_
  have hfree := (hm.freeFor n.session.uid fd).conflict
    (s := { n.session with sType := .fd, fd := fd, token := lit "" }) rfl rfl
  refine (wp_addFd_free (hm.remove _).settled hfree).mpr ?_
  refine wp_db.mpr ?_
  split
  · exact fun h => (not_loggedIn (by decide) (by decide) h).elim
  next a _ =>
  intro _
  exact ⟨n, hfind, loginEffect_fd n.session.uid fd _ guid [appendInt "type" a.type,
    appendString "uid" a.uid, appendString "nick" a.nick, appendString "comment" a.comment]
    ⟨rfl, rfl, rfl⟩ rfl⟩

theorem wp_resAccountLogin_effect (hm : Keyed m) {junk : Junk} (hfresh : Fresh junk.guid m)
    (fd : ℕ) (pack : Pack) :
    (resAccountLogin junk fd pack).wp (interp db) (fun reply s => LoggedIn reply →
      ∃ uid, loginUser m (loginParam junk pack) = some uid ∧
        LoginEffect m s.1 uid fd (asksToken (loginParam junk pack)) junk.guid reply) (m, d) := by
  simp only [resAccountLogin]
  split_ifs with hpwd htoken
  · refine (wp_loginByPwd_effect hm hfresh hpwd).mono fun reply s h hin => ?_
    exact ⟨_, by simp only [loginUser, hpwd, if_true], h hin⟩
  · refine (wp_loginByToken_effect hm fd _ junk.guid).mono fun reply s h hin => ?_
    obtain ⟨n, hfind, heffect⟩ := h hin
    have hasks : asksToken (loginParam junk pack) = false := by simp [asksToken, hpwd]
    rw [hasks]
    exact ⟨_, by simp [loginUser, hpwd, htoken, hfind], heffect⟩
  · exact fun h => (not_loggedIn (by decide) (by decide) h).elim

end Effect

/-- On a table with unique keys and with a new token, a login returns and none of its
assertions fails. If it succeeds, it ends exactly the sessions of the same user and of
the same connection, says so in its result, adds its own session, and replaces the
token sessions of the user exactly if it asks for a token. -/
theorem login_effect (db : Db δ) {m : SessionMod} (d : δ) (hm : Keyed m) {junk : Junk}
    (hfresh : Fresh junk.guid m) (fd : ℕ) (pack : Pack) :
    ∃ reply m' d',
      (resAccountLogin junk fd pack).exec (interp db) (m, d) = some (reply, m', d') ∧
      (resAccountLogin junk fd pack).exec (asserting asserted (interp db)) (m, d) =
        some (reply, m', d') ∧
      (LoggedIn reply → ∃ uid, loginUser m (loginParam junk pack) = some uid ∧
        LoginEffect m m' uid fd (asksToken (loginParam junk pack)) junk.guid reply) := by
  have hsafe : (resAccountLogin junk fd pack).Safe (interp db) Closes asserted Ends (m, d) :=
    safe_resAccountLogin hm hfresh fd pack
  obtain ⟨reply, ⟨m', d'⟩, hexec, heffect⟩ :=
    wp_iff_exec.mp (wp_resAccountLogin_effect hm hfresh fd pack)
  obtain ⟨reply', s', hassert, -⟩ := hsafe.exec_asserting fun _ _ => .refl
  have hsame := hexec.symm.trans (exec_of_asserting hassert)
  rw [← Option.some.inj hsame] at hassert
  exact ⟨reply, m', d', hexec, hassert, heffect⟩

/-- `ann` has a session on connection 5 and a token, and logs in on connection 6. -/
theorem login_effect_ann :
    let m : SessionMod := ⟨[⟨0, accountMenu, lit "ann", 0, .fd, lit "", 5⟩,
      ⟨1, accountMenu, lit "ann", 0, .token, lit "t", -1⟩], fun _ => 0, 2, false, [], false,
      ⟨0, lit "", 0, .fd, lit "", 0⟩⟩
    ∃ reply m' d', (resAccountLogin noJunk 6 (loginRequest 6 "ann" "tea" noJunk).pack).exec
      (interp smallDb) (m, [ann], ()) = some (reply, m', d') ∧
        LoginEffect m m' (lit "ann") 6 false (lit "") reply := by
  intro m
  have hkeyed : Keyed m := by
    refine ⟨⟨rfl, fun _ => rfl, rfl, by simp [m], by simp [m], ?_, fun _ _ => trivial⟩,
      ⟨by simp [m], by simp [m], by simp [m], by simp [m]⟩⟩
    simp [m, Distinct]
  have hfresh : Fresh noJunk.guid m := by
    simp only [Fresh, m]
    decide
  obtain ⟨reply, m', d', hexec, -, heffect⟩ :=
    login_effect smallDb ([ann], ()) hkeyed hfresh 6 (loginRequest 6 "ann" "tea" noJunk).pack
  have hin : LoggedIn reply := by
    obtain ⟨rfl, -⟩ := Prod.mk.inj (Option.some.inj hexec)
    exact .inr rfl
  obtain ⟨uid, huid, heffect⟩ := heffect hin
  obtain rfl := Option.some.inj huid
  exact ⟨reply, m', d', hexec, heffect⟩

/-! ## Logins that fail -/

/-- The login returns, and leaves the elements of the table as they were unless it says
that the user is logged in. -/
def FailedLoginKeeps (db : Db δ) (s : SessionMod × δ) (junk : Junk) (fd : ℕ) (pack : Pack) : Prop :=
  ∃ reply m' d', (resAccountLogin junk fd pack).exec (interp db) s = some (reply, m', d') ∧
    (¬ LoggedIn reply → m'.sessionList = s.1.sessionList)

/-- The login is by a token that has a session, and the user of this session is not in the
table of accounts. -/
def TokenOfDeleted (sql : BrokenSql) (rows : List Account) (m : SessionMod) (p : LoginParam) : Prop :=
  ¬ (validUid p.uid && validPwd p.pwd) ∧ validToken p.token ∧
    ∃ n, m.sessionList.find? (SessionNode.hasToken p.token) = some n ∧
      dbAccountGetOne sql rows n.session.uid = none

section Failed

variable {P : LoginProp} {db : Db δ} {m : SessionMod} {d : δ} {α : Type}
  {Q : α → SessionMod × δ → Prop}

/-- On any table the checks find nothing and change nothing, or remove a session. -/
theorem wp_checkSessionExist_cases (hm : Settled P m) {uid : CString} {fd : ℕ}
    {k : Bool → Handler α} (hfree : ∀ b, FreeFor uid fd m → (k b).wp (interp db) Q (m, d))
    (hless : ∀ b hit, ∀ n ∈ m.sessionList, hit n → (k b).wp (interp db) Q (m.remove hit, d)) :
    (resAccountCheckSessionExist uid fd >>= k).wp (interp db) Q (m, d) := by
  rw [wp_bind]
  refine wp_refUid hm (fun hnone => ?_) fun n hn _ => ?_
  · have hnone' : ∀ n ∈ m.sessionList, n.hasUid uid .fd = false := by simpa using hnone
    refine wp_refFd hm (fun hfd => hfree _ fun n hn => ⟨hnone' n hn, hfd n hn⟩) fun n hn _ => ?_
    rw [dropSession, wp_bind, wp_read hm hn, wp_dref hm hn, wp_delFd_eq hm]
    exact hless _ _ n hn (by simp [SessionNode.hasFd])
  · rw [dropSession, wp_bind, wp_read hm hn, wp_dref hm hn, wp_delFd_eq hm]
    have hm' := hm.remove (SessionNode.hasFd n.session.fd)
    refine wp_refFd hm' (fun _ => hless _ _ n hn (by simp [SessionNode.hasFd])) fun n' hn' _ => ?_
    rw [dropSession, wp_bind, wp_read hm' hn', wp_dref hm' hn', wp_delFd_eq hm',
      SessionMod.remove_remove]
    exact hless _ _ n hn (by simp [SessionNode.hasFd])

theorem wp_addFd_cases (hm : Settled P m) {s : Session} {k : Bool → Handler α}
    (hrefused : (k false).wp (interp db) Q (m, d))
    (hadded : (k true).wp (interp db) Q (m.insert (sessionForFd s), d)) :
    (sessionAddFd s >>= k).wp (interp db) Q (m, d) := by
  cases hconflict : m.sessionList.any (sessionConflict (sessionForFd s)) with
  | true =>
    refine (wp_call ?_).mpr hrefused
    rw [interp, hm.add_conflict hconflict, Option.map_some]
  | false => exact (wp_addFd_free hm (by simpa using hconflict)).mpr hadded

/-- The element that a login adds was not there before. -/
theorem Settled.insert_ne (hm : Settled P m) {m' : SessionMod} (hnext : m'.next = m.next)
    (s : Session) : (m'.insert s).sessionList ≠ m.sessionList := by
  intro heq
  have hnew : ⟨m.next, s⟩ ∈ m.sessionList := by
    rw [← heq, ← hnext]
    exact List.mem_append_right _ (List.mem_singleton_self _)
  exact absurd (hm.old _ hnew) (lt_irrefl _)

theorem SessionMod.remove_ne {hit : SessionNode → Bool} {n : SessionNode}
    (hn : n ∈ m.sessionList) (hhit : hit n) : (m.remove hit).sessionList ≠ m.sessionList := by
  intro heq
  rw [← heq] at hn
  simp [(SessionMod.mem_remove.mp hn).2] at hhit

/-- Whether the new session is added or refused, the table has changed. -/
theorem wp_checkSessionExist_addFd (hm : Settled P m) {fd : ℕ} {s : Session} (hs : s.fd = fd)
    {k : Bool → Bool → Handler α}
    (h : ∀ conflict b m', m'.sessionList ≠ m.sessionList →
      (k conflict b).wp (interp db) Q (m', d)) :
    (resAccountCheckSessionExist s.uid fd >>= fun conflict => sessionAddFd s >>= k conflict).wp
      (interp db) Q (m, d) := by
  refine wp_checkSessionExist_cases hm (fun conflict hfree => ?_) fun conflict hit n hn hhit => ?_
  · refine (wp_addFd_free hm (hfree.conflict rfl hs)).mpr ?_
    exact h _ _ _ (hm.insert_ne rfl _)
  · refine wp_addFd_cases (hm.remove hit) ?_ ?_
    · exact h _ _ _ (SessionMod.remove_ne hn hhit)
    · have hnext : (m.remove hit).next = m.next := rfl
      exact h _ _ _ (hm.insert_ne hnext _)

end Failed

section FailedLogin

variable {ρ : Type} {sql : BrokenSql} {encryptPwd : CString → CString}
  {other : Db ρ} {m : SessionMod} {rows : List Account} {o : ρ}

theorem loggedIn_loginResult (fields : Reply)
    (hfields : fields.all fun f => (resultElement f).isNone) (conflict : Bool) :
    LoggedIn (fields ++ [loginResult conflict]) := by
  rw [LoggedIn, replyResult_loginResult hfields]
  cases conflict <;> decide

/-- The account is read twice, and the second reading finds what the first one found. -/
theorem wp_loginByPwd_failed (hm : Settled (fun _ _ _ => True) m) {junk : Junk} {fd : ℕ}
    {p : LoginParam} :
    (loginByPwd junk fd p).wp (interp (accountDb sql encryptPwd other))
      (fun reply s => ¬ LoggedIn reply → s.1.sessionList = m.sessionList) (m, rows, o) := by
  refine wp_db.mpr ?_
  split
  · exact fun _ => rfl
  next user huser =>
  refine wp_db.mpr ?_
  split
  · refine wp_resAccountCheckSessionExist hm fun conflict m₁ hm₁ _ => ?_
    refine wp_db.mpr ?_
    split
    · next hgone =>
      have hsame : some user = none := huser.symm.trans hgone
      cases hsame
    next a _ =>
    refine wp_addFd hm₁ trivial fun b m₂ hm₂ _ => ?_
    split
    · refine wp_loginToken hm₂ trivial fun m₃ _ _ hout => (hout ?_).elim
      exact loggedIn_loginResult [appendString "token" junk.guid, appendInt "type" a.type,
        appendString "nick" a.nick, appendString "comment" a.comment] rfl conflict
    · intro hout
      refine (hout ?_).elim
      exact loggedIn_loginResult [appendInt "type" a.type,
        appendString "nick" a.nick, appendString "comment" a.comment] rfl conflict
  · exact fun _ => rfl

/-- A token with a session is looked up in the accounts after the table was changed. -/
theorem wp_loginByToken_found (hm : Settled (fun _ _ _ => True) m) {fd : ℕ} {token : CString}
    {n : SessionNode} (hn : m.sessionList.find? (SessionNode.hasToken token) = some n) :
    (loginByToken fd token).wp (interp (accountDb sql encryptPwd other))
      (fun reply s => (LoggedIn reply ↔ (dbAccountGetOne sql rows n.session.uid).isSome) ∧
        s.1.sessionList ≠ m.sessionList) (m, rows, o) := by
  refine wp_refToken hm (fun hnone => absurd (hn.symm.trans hnone) (by simp)) fun n' hn' hfind => ?_
  obtain rfl := Option.some.inj (hn.symm.trans hfind)
  rw [wp_read hm hn', wp_dref hm hn']
  refine wp_checkSessionExist_addFd hm rfl fun conflict b m' hne => ?_
  refine wp_db.mpr ?_
  split
  · next hgone =>
    have hgone : dbAccountGetOne sql rows n.session.uid = none := hgone
    refine ⟨?_, hne⟩
    rw [hgone]
    simpa using not_loggedIn (r := .loginUserNotExist) (by decide) (by decide)
  · next a ha =>
    have ha : dbAccountGetOne sql rows n.session.uid = some a := ha
    refine ⟨?_, hne⟩
    rw [ha]
    simpa using loggedIn_loginResult [appendInt "type" a.type, appendString "uid" a.uid,
      appendString "nick" a.nick, appendString "comment" a.comment] rfl conflict

theorem failedLoginKeeps_iff_wp {db : Db δ} {s : SessionMod × δ} {junk : Junk} {fd : ℕ}
    {pack : Pack} : FailedLoginKeeps db s junk fd pack ↔
      (resAccountLogin junk fd pack).wp (interp db)
        (fun reply s' => ¬ LoggedIn reply → s'.1.sessionList = s.1.sessionList) s := by
  rw [wp_iff_exec]
  constructor
  · rintro ⟨reply, m', d', hexec, hkeeps⟩
    exact ⟨reply, (m', d'), hexec, hkeeps⟩
  · rintro ⟨reply, ⟨m', d'⟩, hexec, hkeeps⟩
    exact ⟨reply, m', d', hexec, hkeeps⟩

end FailedLogin

section FailedLogin

variable {ρ : Type} {sql : BrokenSql} {encryptPwd : CString → CString} {other : Db ρ}
  {m : SessionMod} {rows : List Account} {o : ρ} {junk : Junk} {fd : ℕ} {pack : Pack}

theorem TokenOfDeleted.not_keeps (h : TokenOfDeleted sql rows m (loginParam junk pack))
    (hm : Settled (fun _ _ _ => True) m) :
    ¬ FailedLoginKeeps (accountDb sql encryptPwd other) (m, rows, o) junk fd pack := by
  obtain ⟨hpwd, htoken, n, hn, hgone⟩ := h
  intro hkeeps
  rw [failedLoginKeeps_iff_wp, resAccountLogin, if_neg hpwd, if_pos htoken] at hkeeps
  obtain ⟨reply, s, hsame, hin, hne⟩ := hkeeps.and (wp_loginByToken_found hm hn)
  refine hne (hsame fun h => ?_)
  simp [hgone, hin] at h

theorem failedLoginKeeps (hm : Settled (fun _ _ _ => True) m)
    (hno : ¬ TokenOfDeleted sql rows m (loginParam junk pack)) :
    FailedLoginKeeps (accountDb sql encryptPwd other) (m, rows, o) junk fd pack := by
  rw [failedLoginKeeps_iff_wp]
  simp only [resAccountLogin]
  split_ifs with hpwd htoken
  · exact wp_loginByPwd_failed hm
  · cases hn : m.sessionList.find? (SessionNode.hasToken (loginParam junk pack).token) with
    | none =>
      refine wp_refToken hm (fun _ _ => rfl) fun n _ hfind => ?_
      exact absurd (hn.symm.trans hfind) (by simp)
    | some n =>
      refine (wp_loginByToken_found hm hn).mono fun reply s hfound hout => ?_
      obtain ⟨hin, -⟩ := hfound
      have hgone : dbAccountGetOne sql rows n.session.uid = none := by
        simpa [hin] using hout
      exact (hno ⟨hpwd, htoken, n, hn, hgone⟩).elim
  · exact fun _ => rfl

end FailedLogin

/-- The token of `ann`. -/
def annToken : CString := lit "\x7b01234567-89ab-cdef-0123-456789abcdef\x7d"

/-- The table with a token session of `ann` and nothing else. -/
def annRemembered : SessionMod :=
  ⟨[⟨0, accountMenu, lit "ann", 0, .token, annToken, -1⟩], fun _ => 0, 1, false, [], false,
    ⟨0, lit "", 0, .fd, lit "", 0⟩⟩

theorem settled_annRemembered : Settled (fun _ _ _ => True) annRemembered :=
  ⟨rfl, fun _ => rfl, rfl, by simp [annRemembered], by simp [annRemembered],
    by simp [annRemembered, Distinct], fun _ _ => trivial⟩

end Youmenu.Server
