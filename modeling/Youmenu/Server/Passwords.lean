import Youmenu.Server.References

/-!
# Who may change a password

`res_account_modify_pwd` is to change the password of the user of the session if the old
one is right. It asks `db_account_pwd_check` for a user whose name is the old password,
so that the answer depends on another row of the table.

## Main definitions

* `KnowsPwd` — a row has the name and the hash of the password.
* `ModifyPwdRight` — what is asked of the handler.
-/

namespace Youmenu.Server

open Eventpack Program

/-- The stored hash of the user is that of the password. -/
def KnowsPwd (encryptPwd : CString → CString) (rows : List Account) (uid pwd : CString) : Prop :=
  ∃ a ∈ rows, a.uid = uid ∧ a.pwd = encryptPwd pwd

/-- The table with a new password for one user. -/
def withPwd (encryptPwd : CString → CString) (rows : List Account) (uid pwd : CString) :
    List Account :=
  rows.map fun a => if a.uid = uid then { a with pwd := encryptPwd pwd } else a

/-- The request has two different passwords of a valid length, and the strings that it
passes to the database have no quote. -/
structure PwdChange (encryptPwd : CString → CString) (p : PwdParam) : Prop where
  valid : validPwd p.oldPwd && validPwd p.newPwd
  ne : p.oldPwd ≠ p.newPwd
  oldPwd : QuoteFree p.oldPwd
  oldHash : QuoteFree (encryptPwd p.oldPwd)
  newHash : QuoteFree (encryptPwd p.newPwd)

section ModifyPwd

variable {ρ : Type} {sql : BrokenSql} {encryptPwd : CString → CString} {other : Db ρ}
  {m : SessionMod} {rows : List Account} {o : ρ} {junk : Junk} {fd : ℕ} {pack : Pack}

/-- The handler returns. If the connection has a session of a user and the old password is
right, exactly the row of this user has the new password and the answer is
`account_r_ok`. Otherwise the table is as it was and the answer is
`account_r_session_expired` or `account_r_old_pwd_incorrect`. -/
def ModifyPwdRight (sql : BrokenSql) (encryptPwd : CString → CString) (other : Db ρ)
    (s : SessionMod × List Account × ρ) (junk : Junk) (fd : ℕ) (pack : Pack) : Prop :=
  ∃ reply m' rows' o', (resAccountModifyPwd junk fd pack).exec
      (interp (accountDb sql encryptPwd other)) s = some (reply, m', rows', o') ∧
    (∀ n ∈ s.1.sessionList, n.session.fd = fd →
      KnowsPwd encryptPwd s.2.1 n.session.uid (modifyPwdParam junk pack).oldPwd →
        rows' = withPwd encryptPwd s.2.1 n.session.uid (modifyPwdParam junk pack).newPwd ∧
          replyResult reply = some (AccountResult.ok.ctorIdx : ℤ)) ∧
    ((∀ n ∈ s.1.sessionList, n.session.fd = fd →
      ¬ KnowsPwd encryptPwd s.2.1 n.session.uid (modifyPwdParam junk pack).oldPwd) →
        rows' = s.2.1 ∧
          (replyResult reply = some (AccountResult.sessionExpired.ctorIdx : ℤ) ∨
            replyResult reply = some (AccountResult.oldPwdIncorrect.ctorIdx : ℤ)))

theorem dbAccountPwdCheck_iff {uid pwd : CString} (huid : QuoteFree uid)
    (hpwd : QuoteFree (encryptPwd pwd)) :
    dbAccountPwdCheck sql encryptPwd rows uid pwd = true ↔ KnowsPwd encryptPwd rows uid pwd := by
  simp [dbAccountPwdCheck, huid, hpwd, KnowsPwd]

theorem dbAccountUpdatePwd_eq {uid pwd : CString} (huid : QuoteFree uid)
    (hpwd : QuoteFree (encryptPwd pwd)) :
    dbAccountUpdatePwd sql encryptPwd rows uid pwd = (true, withPwd encryptPwd rows uid pwd) := by
  simp [dbAccountUpdatePwd, updateColumn, huid, hpwd, withPwd]

/-- What the handler does: all depends on a row under the name of the old password. -/
theorem wp_resAccountModifyPwd_eq (hm : Settled (fun _ _ _ => True) m)
    (hp : PwdChange encryptPwd (modifyPwdParam junk pack))
    (huid : ∀ n ∈ m.sessionList, n.session.fd = fd → QuoteFree n.session.uid)
    {Q : Reply → SessionMod × List Account × ρ → Prop}
    (hnone : (∀ n ∈ m.sessionList, n.session.fd ≠ fd) →
      Q [AccountResult.sessionExpired.append] (m, rows, o))
    (hrefused : ∀ n ∈ m.sessionList, n.session.fd = fd →
      ¬ KnowsPwd encryptPwd rows (modifyPwdParam junk pack).oldPwd
        (modifyPwdParam junk pack).oldPwd → Q [AccountResult.oldPwdIncorrect.append] (m, rows, o))
    (hchanged : ∀ n ∈ m.sessionList, n.session.fd = fd →
      KnowsPwd encryptPwd rows (modifyPwdParam junk pack).oldPwd
        (modifyPwdParam junk pack).oldPwd → Q [AccountResult.ok.append]
          (m, withPwd encryptPwd rows n.session.uid (modifyPwdParam junk pack).newPwd, o)) :
    (resAccountModifyPwd junk fd pack).wp (interp (accountDb sql encryptPwd other)) Q
      (m, rows, o) := by
  have hcheck : dbAccountPwdCheck sql encryptPwd rows (modifyPwdParam junk pack).oldPwd
      (modifyPwdParam junk pack).oldPwd = true ↔ KnowsPwd encryptPwd rows
        (modifyPwdParam junk pack).oldPwd (modifyPwdParam junk pack).oldPwd :=
    dbAccountPwdCheck_iff hp.oldPwd hp.oldHash
  simp only [resAccountModifyPwd, hp.valid, Bool.not_true, Bool.false_eq_true, if_false, hp.ne]
  refine wp_refFd hm hnone fun n hn hfd => ?_
  refine wp_db.mpr ?_
  split
  · next hknown =>
    rw [wp_read hm hn]
    refine wp_db.mpr ?_
    rw [wp_dref hm hn]
    have hupdate : dbAccountUpdatePwd sql encryptPwd rows n.session.uid
        (modifyPwdParam junk pack).newPwd = (true, _) :=
      dbAccountUpdatePwd_eq (huid n hn hfd) hp.newHash
    split
    · have hrows : (dbAccountUpdatePwd sql encryptPwd rows n.session.uid
          (modifyPwdParam junk pack).newPwd).2 = withPwd encryptPwd rows n.session.uid
            (modifyPwdParam junk pack).newPwd := congrArg Prod.snd hupdate
      have hafter := hchanged n hn hfd (hcheck.mp hknown)
      rw [← hrows] at hafter
      exact hafter
    · next hfailed => exact (hfailed (congrArg Prod.fst hupdate)).elim
  · next hknown =>
    rw [wp_dref hm hn]
    exact hrefused n hn hfd fun h => hknown (hcheck.mpr h)

section Right

variable (hm : Settled (fun _ _ _ => True) m)
  (hp : PwdChange encryptPwd (modifyPwdParam junk pack))
  (huid : ∀ n ∈ m.sessionList, n.session.fd = fd → QuoteFree n.session.uid)

include hm hp huid

/-- The answer to a user with a session tells whether the row under the name of the old
password has it. -/
theorem modifyPwd_ok_iff {n : SessionNode} (hn : n ∈ m.sessionList) (hfd : n.session.fd = fd)
    {reply : Reply} {s : SessionMod × List Account × ρ}
    (hexec : (resAccountModifyPwd junk fd pack).exec (interp (accountDb sql encryptPwd other))
      (m, rows, o) = some (reply, s)) :
    replyResult reply = some (AccountResult.ok.ctorIdx : ℤ) ↔
      KnowsPwd encryptPwd rows (modifyPwdParam junk pack).oldPwd
        (modifyPwdParam junk pack).oldPwd := by
  have hreply : (resAccountModifyPwd junk fd pack).wp (interp (accountDb sql encryptPwd other))
      (fun reply _ => replyResult reply = some (AccountResult.ok.ctorIdx : ℤ) ↔
        KnowsPwd encryptPwd rows (modifyPwdParam junk pack).oldPwd
          (modifyPwdParam junk pack).oldPwd) (m, rows, o) := by
    refine wp_resAccountModifyPwd_eq hm hp huid (fun hnone => (hnone n hn hfd).elim)
      (fun _ _ _ hno => iff_of_false (by decide) hno) fun _ _ _ hyes => iff_of_true rfl hyes
  exact hreply.of_exec hexec

theorem ModifyPwdRight.same
    (hright : ModifyPwdRight sql encryptPwd other (m, rows, o) junk fd pack) {n : SessionNode}
    (hn : n ∈ m.sessionList) (hfd : n.session.fd = fd) :
    KnowsPwd encryptPwd rows (modifyPwdParam junk pack).oldPwd (modifyPwdParam junk pack).oldPwd ↔
      KnowsPwd encryptPwd rows n.session.uid (modifyPwdParam junk pack).oldPwd := by
  obtain ⟨reply, m', rows', o', hexec, hknown, hunknown⟩ := hright
  rw [← modifyPwd_ok_iff hm hp huid hn hfd hexec]
  constructor
  · intro hok
    by_contra hno
    have hall : ∀ n' ∈ m.sessionList, n'.session.fd = fd →
        ¬ KnowsPwd encryptPwd rows n'.session.uid (modifyPwdParam junk pack).oldPwd := by
      intro n' hn' hfd'
      rw [hm.session_unique hn' hfd' hn hfd]
      exact hno
    rcases (hunknown hall).2 with hexpired | hincorrect
    · exact absurd (hok.symm.trans hexpired) (by decide)
    · exact absurd (hok.symm.trans hincorrect) (by decide)
  · exact fun hyes => (hknown n hn hfd hyes).2

theorem modifyPwdRight_of_same
    (hsame : ∀ n ∈ m.sessionList, n.session.fd = fd →
      (KnowsPwd encryptPwd rows (modifyPwdParam junk pack).oldPwd
        (modifyPwdParam junk pack).oldPwd ↔
          KnowsPwd encryptPwd rows n.session.uid (modifyPwdParam junk pack).oldPwd)) :
    ModifyPwdRight sql encryptPwd other (m, rows, o) junk fd pack := by
  have hwp : (resAccountModifyPwd junk fd pack).wp (interp (accountDb sql encryptPwd other))
      (fun reply s => (∀ n ∈ m.sessionList, n.session.fd = fd →
        KnowsPwd encryptPwd rows n.session.uid (modifyPwdParam junk pack).oldPwd →
          s.2.1 = withPwd encryptPwd rows n.session.uid (modifyPwdParam junk pack).newPwd ∧
            replyResult reply = some (AccountResult.ok.ctorIdx : ℤ)) ∧
      ((∀ n ∈ m.sessionList, n.session.fd = fd →
        ¬ KnowsPwd encryptPwd rows n.session.uid (modifyPwdParam junk pack).oldPwd) →
          s.2.1 = rows ∧
            (replyResult reply = some (AccountResult.sessionExpired.ctorIdx : ℤ) ∨
              replyResult reply = some (AccountResult.oldPwdIncorrect.ctorIdx : ℤ))))
      (m, rows, o) := by
    refine wp_resAccountModifyPwd_eq hm hp huid (fun hnone => ?_) (fun n hn hfd hno => ?_)
      fun n hn hfd hyes => ?_
    · exact ⟨fun n hn hfd => (hnone n hn hfd).elim, fun _ => ⟨rfl, .inl rfl⟩⟩
    · refine ⟨fun n' hn' hfd' hyes => ?_, fun _ => ⟨rfl, .inr rfl⟩⟩
      exact (hno ((hsame n' hn' hfd').mpr hyes)).elim
    · refine ⟨fun n' hn' hfd' _ => ?_, fun hall => ?_⟩
      · rw [hm.session_unique hn' hfd' hn hfd]
        exact ⟨rfl, rfl⟩
      · exact (hall n hn hfd ((hsame n hn hfd).mp hyes)).elim
  obtain ⟨reply, ⟨m', rows', o'⟩, hexec, hknown, hunknown⟩ := wp_iff_exec.mp hwp
  exact ⟨reply, m', rows', o', hexec, hknown, hunknown⟩

end Right

end ModifyPwd

/-- For two valid and different passwords: the password changes exactly for who knows it if
and only if the row under the name of the old password tells the same as the row of the
user. -/
theorem modifyPwd_right_iff {ρ : Type} (sql : BrokenSql) (encryptPwd : CString → CString)
    (other : Db ρ) {m : SessionMod} (hm : Settled (fun _ _ _ => True) m) (rows : List Account)
    (o : ρ) {junk : Junk} {fd : ℕ} {pack : Pack}
    (hp : PwdChange encryptPwd (modifyPwdParam junk pack))
    (huid : ∀ n ∈ m.sessionList, n.session.fd = fd → QuoteFree n.session.uid) :
    ModifyPwdRight sql encryptPwd other (m, rows, o) junk fd pack ↔
      ∀ n ∈ m.sessionList, n.session.fd = fd →
        (KnowsPwd encryptPwd rows (modifyPwdParam junk pack).oldPwd
          (modifyPwdParam junk pack).oldPwd ↔
            KnowsPwd encryptPwd rows n.session.uid (modifyPwdParam junk pack).oldPwd) := by
  constructor
  · intro hright n hn hfd
    exact hright.same hm hp huid hn hfd
  · exact modifyPwdRight_of_same hm hp huid

/-- The administrator of a new server is logged in; its password is its name. -/
def youmenuLoggedIn : SessionMod :=
  ⟨[⟨0, accountAdmin, lit "youmenu", 0, .fd, lit "", 5⟩], fun _ => 0, 1, false, [], false,
    ⟨0, lit "", 0, .fd, lit "", 0⟩⟩

def modifyPwdPack (oldPwd newPwd : String) : Pack :=
  some [⟨lit "old_pwd", .string (lit oldPwd)⟩, ⟨lit "new_pwd", .string (lit newPwd)⟩]

theorem modifyPwd_right_youmenu :
    ModifyPwdRight ⟨fun _ _ => [], fun _ rows => (false, rows)⟩ id emptyDb
      (youmenuLoggedIn, [⟨accountAdmin, lit "youmenu", lit "youmenu", lit "", lit ""⟩], ()) noJunk 5
      (modifyPwdPack "youmenu" "milk") := by
  have hm : Settled (fun _ _ _ => True) youmenuLoggedIn :=
    ⟨rfl, fun _ => rfl, rfl, by simp [youmenuLoggedIn], by simp [youmenuLoggedIn],
      by simp [youmenuLoggedIn, Distinct], fun _ _ => trivial⟩
  refine (modifyPwd_right_iff _ _ _ hm _ _ ⟨by decide, by decide, by decide, by decide, by decide⟩
    ?_).mpr ?_
  · intro n hn _
    obtain rfl := List.mem_singleton.mp hn
    decide
  · intro n hn _
    obtain rfl := List.mem_singleton.mp hn
    exact Iff.rfl

/-- `ann` gives her password and is told that it is wrong. -/
theorem modifyPwd_refused_ann :
    ¬ ModifyPwdRight ⟨fun _ _ => [], fun _ rows => (false, rows)⟩ id emptyDb
      (annLoggedIn, [ann], ()) noJunk 5 (modifyPwdPack "tea" "milk") := by
  rintro ⟨reply, m', rows', o', hexec, hknown, -⟩
  obtain ⟨rfl, -⟩ := Prod.mk.inj (Option.some.inj hexec)
  have hok := hknown _ (List.mem_singleton_self _) rfl ⟨ann, List.mem_singleton_self _, rfl, rfl⟩
  exact absurd hok.2 (by decide)

end Youmenu.Server
