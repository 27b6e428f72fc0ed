import Youmenu.Server.Connections
import Youmenu.Server.Disconnects

/-!
# Accounts and sessions over whole runs

Two questions about runs of account requests: whether an administrator is always left,
and whether every session is one of an existing account. Both are answered from one
list of what a request can do to the two tables. A run may come to a state in which a
handler has kept the lock; from there nothing changes any more.

## Main definitions

* `Resting` — the session module between two requests, also after the lock was kept.
* `AccountEffect` — what an account request can do.
* `Plain` — requests without a quote in the strings that reach the database.
* `KeepsAdmin`, `KeepsOwners` — the steps that answer the two questions with yes.
-/

namespace Youmenu.Server

open Eventpack Transition Program

/-! ## While the lock is kept -/

section Locked

variable {δ : Type} {db : Db δ} {m : SessionMod} {d : δ} {α : Type}

/-- If the program returns, it has changed nothing. -/
def Harmless (db : Db δ) (s : SessionMod × δ) (p : Handler α) : Prop :=
  ∀ a s', p.exec (interp db) s = some (a, s') → s' = s

theorem harmless_ret (s : SessionMod × δ) (a : α) : Harmless db s (ret a) := by
  intro a' s' hexec
  exact (Prod.mk.inj (Option.some.inj hexec)).2.symm

theorem harmless_call {s : SessionMod × δ} {e : Effect} {k : e.Result → Handler α}
    (h : ∀ r s', interp db e s = some (r, s') → s' = s ∧ Harmless db s (k r)) :
    Harmless db s (.call e k) := by
  intro a s' hexec
  obtain ⟨⟨r, s₁⟩, he, hk⟩ := Option.bind_eq_some_iff.mp hexec
  obtain ⟨rfl, hharmless⟩ := h r s₁ he
  exact hharmless a s' hk

section Calls

variable (hlocked : m.locked = true)

include hlocked

theorem refAll_locked {found : List SessionNode} {r : Option ℕ} {m' : SessionMod}
    (h : m.refAll found = some (r, m')) : r = none ∧ m' = m := by
  have hlock : ∀ (found : List SessionNode) (m : SessionMod), m.locked = true →
      (found.foldl (fun m n => m.prefGet n.addr) m).lock = none := by
    intro found
    induction found with
    | nil => exact fun m hm => by simp [SessionMod.lock, hm]
    | cons n found ih => exact fun m hm => ih (m.prefGet n.addr) hm
  cases hlast : found.getLast? with
  | none =>
    obtain rfl := List.getLast?_eq_none_iff.mp hlast
    obtain ⟨rfl, rfl⟩ := Prod.mk.inj (Option.some.inj h)
    exact ⟨rfl, rfl⟩
  | some n => simp [SessionMod.refAll, hlast, hlock found m hlocked] at h

/-- A lookup that finds a session waits for ever. -/
theorem lookup_locked {found : List SessionNode} {r : Option ℕ} {s' : SessionMod × δ}
    (h : (m.refAll found).map (fun r => (r.1, r.2, d)) = some (r, s')) :
    r = none ∧ s' = (m, d) := by
  obtain ⟨⟨r', m'⟩, href, heq⟩ := Option.map_eq_some_iff.mp h
  obtain ⟨rfl, rfl⟩ := Prod.mk.inj heq
  obtain ⟨rfl, rfl⟩ := refAll_locked hlocked href
  exact ⟨rfl, rfl⟩

theorem harmless_refFd {fd : ℤ} {k : Option ℕ → Handler α} (h : Harmless db (m, d) (k none)) :
    Harmless db (m, d) (sessionRefFd fd >>= k) := by
  refine harmless_call fun r s' he => ?_
  obtain ⟨rfl, rfl⟩ := lookup_locked hlocked he
  exact ⟨rfl, h⟩

theorem harmless_refUid {uid : CString} {type : SessionType} {k : Option ℕ → Handler α}
    (h : Harmless db (m, d) (k none)) : Harmless db (m, d) (sessionRefUid uid type >>= k) := by
  refine harmless_call fun r s' he => ?_
  obtain ⟨rfl, rfl⟩ := lookup_locked hlocked he
  exact ⟨rfl, h⟩

theorem harmless_refToken {token : CString} {k : Option ℕ → Handler α}
    (h : Harmless db (m, d) (k none)) : Harmless db (m, d) (sessionRefToken token >>= k) := by
  refine harmless_call fun r s' he => ?_
  obtain ⟨⟨r', m'⟩, href, heq⟩ := Option.map_eq_some_iff.mp he
  obtain ⟨rfl, rfl⟩ := Prod.mk.inj heq
  unfold SessionMod.refToken at href
  split at href
  · obtain ⟨rfl, rfl⟩ := Prod.mk.inj (Option.some.inj href)
    exact ⟨rfl, h⟩
  · simp [SessionMod.lock, hlocked] at href

theorem harmless_addFd {s : Session} {k : Bool → Handler α} :
    Harmless db (m, d) (sessionAddFd s >>= k) := by
  refine harmless_call fun r s' he => ?_
  simp [interp, SessionMod.add, SessionMod.lock, hlocked] at he

theorem Guarded.harmless {fd : ℕ} {p : Handler Reply} (hp : Guarded fd p) :
    Harmless db (m, d) p := by
  obtain ⟨allowed, expired, denied, k, rfl, hreply, -⟩ := hp
  refine harmless_refFd hlocked ?_
  show Harmless db (m, d) (k (some [expired]))
  rw [hreply]
  exact harmless_ret _ _

end Calls

end Locked

section LockedRequests

variable {ρ : Type} {sql : BrokenSql} {encryptPwd : CString → CString} {other : Db ρ}
  {m : SessionMod} {d : List Account × ρ} {α : Type}

theorem harmless_getOne {uid : CString} {k : Option Account → Handler α}
    (h : ∀ r, Harmless (accountDb sql encryptPwd other) (m, d) (k r)) :
    Harmless (accountDb sql encryptPwd other) (m, d) (db (.accountGetOne uid) >>= k) := by
  refine harmless_call fun r s' he => ?_
  obtain ⟨rfl, rfl⟩ := Prod.mk.inj (Option.some.inj he)
  exact ⟨rfl, h _⟩

theorem harmless_pwdCheck {uid pwd : CString} {k : Bool → Handler α}
    (h : ∀ r, Harmless (accountDb sql encryptPwd other) (m, d) (k r)) :
    Harmless (accountDb sql encryptPwd other) (m, d) (db (.accountPwdCheck uid pwd) >>= k) := by
  refine harmless_call fun r s' he => ?_
  obtain ⟨rfl, rfl⟩ := Prod.mk.inj (Option.some.inj he)
  exact ⟨rfl, h _⟩

theorem harmless_resAccountLogin (hlocked : m.locked = true) (junk : Junk) (fd : ℕ) (pack : Pack) :
    Harmless (accountDb sql encryptPwd other) (m, d) (resAccountLogin junk fd pack) := by
  simp only [resAccountLogin]
  split_ifs
  · refine harmless_getOne fun user => ?_
    split
    · exact harmless_ret _ _
    refine harmless_pwdCheck fun known => ?_
    split
    · refine harmless_refUid hlocked (harmless_refFd hlocked (harmless_getOne fun a => ?_))
      split
      · exact harmless_ret _ _
      · exact harmless_addFd hlocked
    · exact harmless_ret _ _
  · exact harmless_refToken hlocked (harmless_ret _ _)
  · exact harmless_ret _ _

/-- After a handler has kept the lock, no request that returns changes anything. -/
theorem Request.harmless (hlocked : m.locked = true) (r : Request) :
    Harmless (accountDb sql encryptPwd other) (m, d) r.handler := by
  obtain ⟨kind, fd, pack, junk⟩ := r
  cases kind with
  | heartbeat => exact harmless_refFd hlocked (harmless_ret _ _)
  | accountLogin => exact harmless_resAccountLogin hlocked junk fd pack
  | accountLogout => exact harmless_refFd hlocked (harmless_ret _ _)
  | accountCreate =>
    simp only [Request.handler, resAccountCreate]
    split
    · exact harmless_refFd hlocked (harmless_ret _ _)
    · exact harmless_ret _ _
  | accountModifyPwd =>
    simp only [Request.handler, resAccountModifyPwd]
    split_ifs
    · exact harmless_ret _ _
    · exact harmless_ret _ _
    · exact harmless_refFd hlocked (harmless_ret _ _)
  | accountModifyBasic => exact harmless_refFd hlocked (harmless_ret _ _)
  | accountDelete =>
    simp only [Request.handler, resAccountDelete]
    split
    · exact harmless_refFd hlocked (harmless_ret _ _)
    · exact harmless_ret _ _
  | accountList => exact (guarded_resAccountList fd).harmless hlocked
  | dishFetch => exact (guarded_resDishFetch fd pack).harmless hlocked
  | dishBook => exact (guarded_resDishBook junk fd pack).harmless hlocked
  | dishCancel => exact (guarded_resDishCancel fd pack).harmless hlocked
  | dishList => exact (guarded_resDishList fd pack).harmless hlocked
  | seatList => exact harmless_refFd hlocked (harmless_ret _ _)
  | cookAccept => exact (guarded_resCookAccept fd pack).harmless hlocked

theorem serverStep_locked (hlocked : m.locked = true) {e : ServerEvent}
    {s' : SessionMod × List Account × ρ}
    (hstep : serverStep (accountDb sql encryptPwd other) (m, d) e = some s') : s' = (m, d) := by
  cases e with
  | request r =>
    obtain ⟨⟨reply, s⟩, hexec, rfl⟩ := Option.map_eq_some_iff.mp hstep
    exact r.harmless hlocked reply s hexec
  | disconnect fd => simp [serverStep, SessionMod.delAll, SessionMod.lock, hlocked] at hstep

end LockedRequests

/-! ## What an account request does -/

/-- The session module between two requests. Once a handler has kept the lock the module
stays as that handler held it. -/
def Resting (P : LoginProp) (m : SessionMod) : Prop :=
  Settled P m ∨ ∃ m₀ addr, Settled P m₀ ∧ m = m₀.hold addr

theorem Settled.resting {P : LoginProp} {m : SessionMod} (hm : Settled P m) : Resting P m :=
  .inl hm

theorem Settled.hold_resting {P : LoginProp} {m : SessionMod} (hm : Settled P m) (addr : ℕ) :
    Resting P (m.hold addr) :=
  .inr ⟨m, addr, hm, rfl⟩

theorem Resting.sessions {P : LoginProp} {m : SessionMod} (hm : Resting P m) :
    ∀ n ∈ m.sessionList, P.Holds n.session := by
  rcases hm with hm | ⟨m₀, addr, hm₀, rfl⟩
  · exact hm.sessions
  · exact hm₀.sessions

theorem Settled.imp {P P' : LoginProp} {m : SessionMod} (hm : Settled P m)
    (himp : ∀ n ∈ m.sessionList, P.Holds n.session → P'.Holds n.session) : Settled P' m :=
  ⟨hm.unlocked, hm.counts, hm.unused, hm.addrs, hm.old, hm.distinct,
    fun n hn => himp n hn (hm.sessions n hn)⟩

theorem Resting.imp {P P' : LoginProp} {m : SessionMod} (hm : Resting P m)
    (himp : ∀ n ∈ m.sessionList, P.Holds n.session → P'.Holds n.session) : Resting P' m := by
  rcases hm with hm | ⟨m₀, addr, hm₀, rfl⟩
  · exact .inl (hm.imp himp)
  · exact .inr ⟨m₀, addr, hm₀.imp himp, rfl⟩

/-- The user of a session has no quote in its name. -/
def quoteFreeUser : LoginProp := fun _ uid _ => QuoteFree uid

section Effects

variable {ρ : Type} (sql : BrokenSql) (encryptPwd : CString → CString) (r : Request)

/-- What an account request does to the two tables. A deletion knows the session of its
connection and that this user has given its password. -/
inductive AccountEffect (m : SessionMod) (rows : List Account) :
    SessionMod → List Account → Prop
  /-- The new sessions of a login are of users that have an account or had a session. -/
  | reads {m' : SessionMod} (huids : ∀ n ∈ m'.sessionList,
      (∃ n₀ ∈ m.sessionList, n₀.session.uid = n.session.uid) ∨
        ∃ a ∈ rows, a.uid = n.session.uid) : AccountEffect m rows m' rows
  | adds {m' : SessionMod} (hlist : m'.sessionList = m.sessionList) (a : Account)
      (hnew : ∀ b ∈ rows, b.uid ≠ a.uid) : AccountEffect m rows m' (rows ++ [a])
  | updates {m' : SessionMod} (hlist : m'.sessionList = m.sessionList) (f : Account → Account)
      (hkeys : ∀ a, (f a).uid = a.uid ∧ (f a).type = a.type) :
      AccountEffect m rows m' (rows.map f)
  | deletesOwn (hkind : r.kind = .accountDelete) {n : SessionNode} (hn : n ∈ m.sessionList)
      (hfd : n.session.fd = r.fd)
      (hpwd : dbAccountPwdCheck sql encryptPwd rows n.session.uid
        (deleteParam r.junk r.pack).oldPwd)
      (huid : n.session.uid = (deleteParam r.junk r.pack).uid)
      (hcount : n.session.aType = accountAdmin → 1 < rows.countP (·.type = accountAdmin)) :
      AccountEffect m rows ((m.remove (SessionNode.hasFd r.fd)).remove
        (SessionNode.hasUid (deleteParam r.junk r.pack).uid .token))
        (rows.filter (·.uid ≠ (deleteParam r.junk r.pack).uid))
  | deletesOther (hkind : r.kind = .accountDelete) {n : SessionNode} (hn : n ∈ m.sessionList)
      (hfd : n.session.fd = r.fd)
      (hpwd : dbAccountPwdCheck sql encryptPwd rows n.session.uid
        (deleteParam r.junk r.pack).oldPwd)
      (huid : n.session.uid ≠ (deleteParam r.junk r.pack).uid) (hflag : n.session.admin ≠ 0) :
      AccountEffect m rows m (rows.filter (·.uid ≠ (deleteParam r.junk r.pack).uid))

/-- The request is one about accounts, and the strings that it passes to the database have
no quote. -/
def Plain : Prop :=
  match r.kind with
  | .accountLogin => QuoteFree (loginParam r.junk r.pack).uid
  | .accountLogout => True
  | .accountCreate =>
    let a := createParam r.junk r.pack
    QuoteFree (wordToLower a.uid) && QuoteFree (encryptPwd a.pwd) && QuoteFree a.nick &&
      QuoteFree a.comment
  | .accountModifyPwd => QuoteFree (encryptPwd (modifyPwdParam r.junk r.pack).newPwd)
  | .accountModifyBasic =>
    QuoteFree (modifyBasicParam r.junk r.pack).nick &&
      QuoteFree (modifyBasicParam r.junk r.pack).comment
  | .accountDelete => QuoteFree (deleteParam r.junk r.pack).uid
  | _ => False

variable {sql encryptPwd r} {other : Db ρ} {m : SessionMod} {rows : List Account} {o : ρ}

theorem AccountEffect.same {m' : SessionMod} (hlist : m'.sessionList = m.sessionList) :
    AccountEffect sql encryptPwd r m rows m' rows :=
  .reads fun n hn => .inl ⟨n, hlist ▸ hn, rfl⟩

/-- The state after an account request. -/
def Does (sql : BrokenSql) (encryptPwd : CString → CString) (r : Request) (m : SessionMod)
    (rows : List Account) (_ : Reply) (s : SessionMod × List Account × ρ) : Prop :=
  Resting quoteFreeUser s.1 ∧ AccountEffect sql encryptPwd r m rows s.1 s.2.1

theorem Does.same {reply : Reply} {m' : SessionMod} (hm : Resting quoteFreeUser m')
    (hlist : m'.sessionList = m.sessionList) :
    Does sql encryptPwd r m rows reply (m', rows, o) :=
  ⟨hm, .same hlist⟩

/-! ### Logins and logouts -/

/-- Calls that leave the database alone. -/
def Reads : Effect → Prop
  | .db (.accountGetOne _) | .db (.accountPwdCheck _ _) => True
  | .db _ => False
  | _ => True

theorem OnSessions.reads : ∀ e, OnSessions e → Reads e
  | .addFd _, h | .db _, h => h.elim
  | .refFd _, _ | .refUid _ _, _ | .refToken _, _ | .dref _, _ | .read _, _ | .delFd _, _
  | .delToken _, _ | .addToken _, _ => trivial

theorem reads_loginByPwd (junk : Junk) (fd : ℕ) (p : LoginParam) :
    (loginByPwd junk fd p).Only Reads := by
  refine only_perform trivial fun user => ?_
  split
  · trivial
  refine only_perform trivial fun known => ?_
  split
  · refine Only.bind ?_ fun conflict => only_perform trivial fun account => ?_
    · exact (only_resAccountCheckSessionExist _ _).mono OnSessions.reads
    split
    · trivial
    refine only_perform trivial fun _ => ?_
    simp only
    split
    · exact ((only_loginToken _ _).mono OnSessions.reads).bind fun token => trivial
    · trivial
  · trivial

theorem reads_loginByToken (fd : ℕ) (token : CString) : (loginByToken fd token).Only Reads := by
  refine only_perform trivial fun old => ?_
  split
  · trivial
  refine only_perform trivial fun s => only_perform trivial fun _ => ?_
  refine Only.bind ?_ fun conflict => only_perform trivial fun _ => ?_
  · exact (only_resAccountCheckSessionExist _ _).mono OnSessions.reads
  refine only_perform trivial fun account => ?_
  split
  · trivial
  · trivial

theorem reads_resAccountLogin (junk : Junk) (fd : ℕ) (pack : Pack) :
    (resAccountLogin junk fd pack).Only Reads := by
  simp only [resAccountLogin]
  split_ifs
  · exact reads_loginByPwd junk fd _
  · exact reads_loginByToken fd _
  · trivial

theorem Reads.exec {p : Handler Reply} (hp : p.Only Reads) {reply : Reply}
    {s s' : SessionMod × List Account × ρ}
    (hexec : p.exec (interp (accountDb sql encryptPwd other)) s = some (reply, s')) :
    s'.2 = s.2 := by
  refine hp.exec (I := fun s' => s'.2 = s.2) ?_ rfl hexec
  intro e he s₁ r s₂ hs₁ hcall
  cases e with
  | db op =>
    cases op with
    | accountGetOne uid =>
      obtain ⟨-, rfl⟩ := Prod.mk.inj (Option.some.inj hcall)
      exact hs₁
    | accountPwdCheck uid pwd =>
      obtain ⟨-, rfl⟩ := Prod.mk.inj (Option.some.inj hcall)
      exact hs₁
    | _ => exact he.elim
  | dref session =>
    obtain ⟨-, rfl⟩ := Prod.mk.inj (Option.some.inj hcall)
    exact hs₁
  | read session =>
    obtain ⟨-, rfl⟩ := Prod.mk.inj (Option.some.inj hcall)
    exact hs₁
  | _ =>
    obtain ⟨x, -, heq⟩ := Option.map_eq_some_iff.mp hcall
    obtain ⟨-, rfl⟩ := Prod.mk.inj heq
    exact hs₁

/-- A session of a user that has an account or had a session. -/
def knownUser (m : SessionMod) (rows : List Account) : LoginProp := fun _ uid _ =>
  QuoteFree uid ∧ ((∃ n₀ ∈ m.sessionList, n₀.session.uid = uid) ∨ ∃ a ∈ rows, a.uid = uid)

theorem Settled.knownUser (hm : Settled quoteFreeUser m) : Settled (knownUser m rows) m :=
  hm.imp fun n hn hfree => ⟨hfree, .inl ⟨n, hn, rfl⟩⟩

/-- What keeps the users known and the database does an allowed thing. -/
theorem does_of_keeps {p : Handler Reply} (hp : p.Only Reads)
    (hwp : p.wp (interp (accountDb sql encryptPwd other)) (Keeps (knownUser m rows) m)
      (m, rows, o)) :
    p.wp (interp (accountDb sql encryptPwd other)) (Does sql encryptPwd r m rows)
      (m, rows, o) := by
  obtain ⟨reply, ⟨m', rows', o'⟩, hexec, hm', -⟩ := wp_iff_exec.mp hwp
  refine wp_iff_exec.mpr ⟨reply, (m', rows', o'), hexec, ?_⟩
  obtain ⟨rfl, rfl⟩ := Prod.mk.inj (Reads.exec hp hexec)
  exact ⟨.inl (hm'.imp fun n _ h => h.1), .reads fun n hn => (hm'.sessions n hn).2⟩

theorem dbAccountGetOne_some {uid : CString} {a : Account} (hfree : QuoteFree uid)
    (h : dbAccountGetOne sql rows uid = some a) : a ∈ rows ∧ a.uid = uid := by
  rw [dbAccountGetOne, if_pos hfree] at h
  exact ⟨List.mem_of_find?_eq_some h, by simpa using List.find?_some h⟩

theorem loginAccount_some {p : LoginParam} {a : Account} (hfree : QuoteFree p.uid)
    (h : loginAccount (accountDb sql encryptPwd other) (rows, o) p = some a) :
    a ∈ rows ∧ a.uid = p.uid := by
  simp only [loginAccount] at h
  split_ifs at h
  exact dbAccountGetOne_some hfree h

theorem does_resAccountLogin (hm : Settled quoteFreeUser m) {junk : Junk} {fd : ℕ} {pack : Pack}
    (hfree : QuoteFree (loginParam junk pack).uid) :
    (resAccountLogin junk fd pack).wp (interp (accountDb sql encryptPwd other))
      (Does sql encryptPwd r m rows) (m, rows, o) := by
  refine does_of_keeps (reads_resAccountLogin junk fd pack) ?_
  refine wp_resAccountLogin hm.knownUser fun a ha => ?_
  obtain ⟨hmem, huid⟩ := loginAccount_some hfree ha
  exact ⟨hfree, .inr ⟨a, hmem, huid⟩⟩

theorem does_resAccountLogout (hm : Settled quoteFreeUser m) (fd : ℕ) :
    (resAccountLogout fd).wp (interp (accountDb sql encryptPwd other))
      (Does sql encryptPwd r m rows) (m, rows, o) := by
  refine does_of_keeps ?_ (wp_resAccountLogout hm.knownUser fd)
  refine only_perform trivial fun session => ?_
  split
  · trivial
  · exact only_perform trivial fun _ => only_perform trivial fun _ => trivial

/-! ### Changes of the accounts -/

theorem does_createAccount {m' : SessionMod} (hm' : Settled quoteFreeUser m')
    (hlist : m'.sessionList = m.sessionList) {a : Account}
    (hfree : QuoteFree (wordToLower a.uid) && QuoteFree (encryptPwd a.pwd) && QuoteFree a.nick &&
      QuoteFree a.comment) :
    (createAccount a).wp (interp (accountDb sql encryptPwd other))
      (Does sql encryptPwd r m rows) (m', rows, o) := by
  refine wp_db.mpr ?_
  split
  · exact .same hm'.resting hlist
  -- the row is added unless its key is there already
  have hadd : AccountEffect sql encryptPwd r m rows m'
      (dbAccountAdd sql encryptPwd rows { a with uid := wordToLower a.uid }).2 := by
    rw [dbAccountAdd, if_pos hfree]
    split
    · exact .same hlist
    · next hnew => exact .adds hlist _ (by simpa using hnew)
  refine wp_db.mpr ?_
  split
  · exact ⟨hm'.resting, hadd⟩
  · exact ⟨hm'.resting, hadd⟩

theorem does_resAccountCreate (hm : Settled quoteFreeUser m) {junk : Junk} {fd : ℕ} {pack : Pack}
    (hfree : QuoteFree (wordToLower (createParam junk pack).uid) &&
      QuoteFree (encryptPwd (createParam junk pack).pwd) &&
      QuoteFree (createParam junk pack).nick && QuoteFree (createParam junk pack).comment) :
    (resAccountCreate junk fd pack).wp (interp (accountDb sql encryptPwd other))
      (Does sql encryptPwd r m rows) (m, rows, o) := by
  simp only [resAccountCreate]
  split
  · refine wp_refFd hm (fun _ => .same hm.resting rfl) fun n hn _ => ?_
    rw [wp_read hm hn, wp_dref hm hn, wp_read_stale hm hn]
    split
    · exact .same hm.stale.resting rfl
    · exact does_createAccount (m := m) hm.stale rfl hfree
  · exact .same hm.resting rfl

theorem updateColumn_map {column : String} {value uid : CString} {set : Account → Account}
    (hvalue : QuoteFree value) (huid : QuoteFree uid) :
    (updateColumn sql rows column value uid set).2 =
      rows.map fun a => if a.uid = uid then set a else a := by
  simp [updateColumn, hvalue, huid]

/-- An update of one column keeps the keys and the types. -/
theorem updates_column {m' : SessionMod} (hlist : m'.sessionList = m.sessionList) {uid : CString}
    {set : Account → Account} (hset : ∀ a, (set a).uid = a.uid ∧ (set a).type = a.type) :
    AccountEffect sql encryptPwd r m rows m'
      (rows.map fun a => if a.uid = uid then set a else a) := by
  refine .updates hlist _ fun a => ?_
  split
  · exact hset a
  · exact ⟨rfl, rfl⟩

theorem does_resAccountModifyPwd (hm : Settled quoteFreeUser m) {junk : Junk} {fd : ℕ} {pack : Pack}
    (hfree : QuoteFree (encryptPwd (modifyPwdParam junk pack).newPwd)) :
    (resAccountModifyPwd junk fd pack).wp (interp (accountDb sql encryptPwd other))
      (Does sql encryptPwd r m rows) (m, rows, o) := by
  simp only [resAccountModifyPwd]
  split_ifs
  · exact .same hm.resting rfl
  · exact .same hm.resting rfl
  refine wp_refFd hm (fun _ => .same hm.resting rfl) fun n hn _ => ?_
  refine wp_db.mpr ?_
  split
  · rw [wp_read hm hn]
    refine wp_db.mpr ?_
    rw [wp_dref hm hn]
    have hupdate : AccountEffect sql encryptPwd r m rows m
        (dbAccountUpdatePwd sql encryptPwd rows n.session.uid
          (modifyPwdParam junk pack).newPwd).2 := by
      rw [dbAccountUpdatePwd, updateColumn_map hfree (hm.sessions n hn)]
      exact updates_column rfl fun a => ⟨rfl, rfl⟩
    split
    · exact ⟨hm.resting, hupdate⟩
    · exact ⟨hm.resting, hupdate⟩
  · rw [wp_dref hm hn]
    exact .same hm.resting rfl

/-- The lock is kept, after the first update or after both. -/
theorem does_resAccountModifyBasic (hm : Settled quoteFreeUser m) {junk : Junk} {fd : ℕ}
    {pack : Pack} (hfree : QuoteFree (modifyBasicParam junk pack).nick &&
      QuoteFree (modifyBasicParam junk pack).comment) :
    (resAccountModifyBasic junk fd pack).wp (interp (accountDb sql encryptPwd other))
      (Does sql encryptPwd r m rows) (m, rows, o) := by
  obtain ⟨hnick, hcomment⟩ := Bool.and_eq_true_iff.mp hfree
  refine wp_refFd hm (fun _ => .same hm.resting rfl) fun n hn _ => ?_
  have huid : QuoteFree n.session.uid := hm.sessions n hn
  have hlist : (m.hold n.addr).sessionList = m.sessionList := rfl
  rw [wp_read hm hn]
  refine wp_db.mpr ?_
  split
  · rw [wp_read hm hn]
    refine wp_db.mpr ?_
    have hupdate : AccountEffect sql encryptPwd r m rows (m.hold n.addr)
        (dbAccountUpdateComment sql (dbAccountUpdateNick sql rows n.session.uid
          (modifyBasicParam junk pack).nick).2 n.session.uid
          (modifyBasicParam junk pack).comment).2 := by
      rw [dbAccountUpdateComment, updateColumn_map hcomment huid, dbAccountUpdateNick,
        updateColumn_map hnick huid, List.map_map]
      refine .updates hlist _ fun a => ?_
      simp only [Function.comp]
      split
      · exact ⟨rfl, rfl⟩
      · exact ⟨rfl, rfl⟩
    split
    · exact ⟨hm.hold_resting _, hupdate⟩
    · exact ⟨hm.hold_resting _, hupdate⟩
  · have hupdate : AccountEffect sql encryptPwd r m rows (m.hold n.addr)
        (dbAccountUpdateNick sql rows n.session.uid (modifyBasicParam junk pack).nick).2 := by
      rw [dbAccountUpdateNick, updateColumn_map hnick huid]
      exact updates_column hlist fun a => ⟨rfl, rfl⟩
    exact ⟨hm.hold_resting _, hupdate⟩

/-- After a wrong password the lock is kept. -/
theorem does_resAccountDelete (hm : Settled quoteFreeUser m) (hkind : r.kind = .accountDelete)
    (hfree : QuoteFree (deleteParam r.junk r.pack).uid) :
    (resAccountDelete r.junk r.fd r.pack).wp (interp (accountDb sql encryptPwd other))
      (Does sql encryptPwd r m rows) (m, rows, o) := by
  have hdel : (dbAccountDel sql rows (deleteParam r.junk r.pack).uid).2 =
      rows.filter (·.uid ≠ (deleteParam r.junk r.pack).uid) := by
    rw [dbAccountDel, if_pos hfree]
  refine wp_resAccountDelete_eq hm (fun _ => .same hm.resting rfl)
    (fun _ _ => .same hm.resting rfl) (fun _ _ _ _ _ => .same (hm.hold_resting _) rfl)
    fun _ n hn hfd hpwd => ?_
  split
  · next huid =>
    refine wp_deleteOwn hm hn (fun d' hd' => ?_) fun d' hd' hcount => ?_
    · obtain rfl : d' = (rows, o) := by rcases hd' with rfl | rfl <;> rfl
      exact .same hm.resting rfl
    · obtain rfl : d' = (rows, o) := by rcases hd' with rfl | rfl <;> rfl
      refine ⟨((hm.remove _).remove _).resting, ?_⟩
      have heffect : AccountEffect sql encryptPwd r m rows _ _ :=
        .deletesOwn hkind hn hfd hpwd huid hcount
      rw [← hdel] at heffect
      exact heffect
  · next huid =>
    refine wp_deleteOther hm hn (fun _ => .same hm.resting rfl) fun hflag => ?_
    refine ⟨hm.resting, ?_⟩
    have heffect : AccountEffect sql encryptPwd r m rows _ _ :=
      .deletesOther hkind hn hfd hpwd huid hflag
    rw [← hdel] at heffect
    exact heffect

theorem does_handler (hm : Settled quoteFreeUser m) (hplain : Plain encryptPwd r) :
    r.handler.wp (interp (accountDb sql encryptPwd other)) (Does sql encryptPwd r m rows)
      (m, rows, o) := by
  unfold Plain at hplain
  cases hkind : r.kind with
  | accountLogin =>
    rw [hkind] at hplain
    rw [Request.handler, hkind]
    exact does_resAccountLogin hm hplain
  | accountLogout =>
    rw [Request.handler, hkind]
    exact does_resAccountLogout hm _
  | accountCreate =>
    rw [hkind] at hplain
    rw [Request.handler, hkind]
    exact does_resAccountCreate hm hplain
  | accountModifyPwd =>
    rw [hkind] at hplain
    rw [Request.handler, hkind]
    exact does_resAccountModifyPwd hm hplain
  | accountModifyBasic =>
    rw [hkind] at hplain
    rw [Request.handler, hkind]
    exact does_resAccountModifyBasic hm hplain
  | accountDelete =>
    rw [hkind] at hplain
    rw [Request.handler, hkind]
    exact does_resAccountDelete hm hkind hplain
  | _ => simp [hkind] at hplain

/-- One request of a run. -/
theorem Resting.request (hm : Resting quoteFreeUser m) (hplain : Plain encryptPwd r)
    {s' : SessionMod × List Account × ρ}
    (hstep : serverStep (accountDb sql encryptPwd other) (m, rows, o) (.request r) = some s') :
    Resting quoteFreeUser s'.1 ∧ AccountEffect sql encryptPwd r m rows s'.1 s'.2.1 := by
  rcases hm with hm | ⟨m₀, addr, hm₀, rfl⟩
  · obtain ⟨⟨reply, s⟩, hexec, rfl⟩ := Option.map_eq_some_iff.mp hstep
    exact (does_handler hm hplain).of_exec hexec
  · obtain rfl := serverStep_locked rfl hstep
    exact ⟨hm₀.hold_resting addr, .same rfl⟩

end Effects

/-- A disconnect of a run: it waits while the lock is kept. -/
theorem Resting.disconnect {δ : Type} {db : Db δ} {P : LoginProp} {m : SessionMod} {d : δ}
    (hm : Resting P m) {fd : ℕ} {s' : SessionMod × δ}
    (hstep : serverStep db (m, d) (.disconnect fd) = some s') :
    Resting P s'.1 ∧ s' = (m.remove (SessionNode.hasFd fd), d) := by
  rcases hm with hm | ⟨m₀, addr, hm₀, rfl⟩
  · simp only [serverStep, hm.delAll, Option.map_some] at hstep
    obtain rfl := Option.some.inj hstep
    exact ⟨.inl (hm.remove _), rfl⟩
  · simp [serverStep, SessionMod.delAll, SessionMod.lock, SessionMod.hold] at hstep

/-! ## An administrator is left -/

def HasAdmin (rows : List Account) : Prop := ∃ a ∈ rows, a.type = accountAdmin

/-- The primary key of the table of accounts. -/
def DistinctUids (rows : List Account) : Prop := (rows.map (·.uid)).Nodup

section Admin

variable {ρ : Type} {sql : BrokenSql} {encryptPwd : CString → CString} {r : Request}
  {m m' : SessionMod} {rows rows' : List Account}

theorem AccountEffect.distinctUids (h : AccountEffect sql encryptPwd r m rows m' rows')
    (hkeys : DistinctUids rows) : DistinctUids rows' := by
  cases h with
  | reads huids => exact hkeys
  | adds hlist a hnew =>
    rw [DistinctUids, List.map_append, List.nodup_append]
    refine ⟨hkeys, by simp, fun uid huid uid' huid' => ?_⟩
    obtain ⟨b, hb, rfl⟩ := List.mem_map.mp huid
    obtain rfl := List.mem_singleton.mp huid'
    exact hnew b hb
  | updates hlist f hf =>
    have hmap : (rows.map f).map (·.uid) = rows.map (·.uid) := by
      rw [List.map_map]
      exact List.map_congr_left fun a _ => (hf a).1
    rw [DistinctUids, hmap]
    exact hkeys
  | deletesOwn => exact hkeys.sublist (List.filter_sublist.map _)
  | deletesOther => exact hkeys.sublist (List.filter_sublist.map _)

/-- Of two administrators one is left. -/
theorem hasAdmin_filter {uid : CString} (hkeys : DistinctUids rows)
    (hcount : 1 < rows.countP (·.type = accountAdmin)) : HasAdmin (rows.filter (·.uid ≠ uid)) := by
  by_contra hnone
  have hall : ∀ u ∈ (rows.filter (·.type = accountAdmin)).map (·.uid), u = uid := by
    intro u hu
    obtain ⟨a, ha, rfl⟩ := List.mem_map.mp hu
    obtain ⟨hmem, htype⟩ := List.mem_filter.mp ha
    by_contra hne
    exact hnone ⟨a, List.mem_filter.mpr ⟨hmem, by simpa using hne⟩, by simpa using htype⟩
  have hnodup : ((rows.filter (·.type = accountAdmin)).map (·.uid)).Nodup :=
    hkeys.sublist (List.filter_sublist.map _)
  rw [List.eq_replicate_length.mpr hall, List.nodup_replicate, List.length_map,
    ← List.countP_eq_length_filter] at hnodup
  omega

/-- A deletion that reaches the table of accounts is one of an administrator that counts
the administrators first, or leaves another administrator. -/
def SparesAdmin (sql : BrokenSql) (encryptPwd : CString → CString) (m : SessionMod)
    (rows : List Account) (r : Request) : Prop :=
  r.kind = .accountDelete → ∀ n ∈ m.sessionList, n.session.fd = r.fd →
    dbAccountPwdCheck sql encryptPwd rows n.session.uid (deleteParam r.junk r.pack).oldPwd →
      (n.session.uid = (deleteParam r.junk r.pack).uid ∧ n.session.aType = accountAdmin) ∨
        (n.session.uid ≠ (deleteParam r.junk r.pack).uid ∧ n.session.admin = 0) ∨
          ∃ a ∈ rows, a.type = accountAdmin ∧ a.uid ≠ (deleteParam r.junk r.pack).uid

theorem AccountEffect.hasAdmin (h : AccountEffect sql encryptPwd r m rows m' rows')
    (hspares : SparesAdmin sql encryptPwd m rows r) (hkeys : DistinctUids rows)
    (hadmin : HasAdmin rows) : HasAdmin rows' := by
  -- another administrator is in the table that is left
  have hother : (∃ a ∈ rows, a.type = accountAdmin ∧ a.uid ≠ (deleteParam r.junk r.pack).uid) →
      HasAdmin (rows.filter (·.uid ≠ (deleteParam r.junk r.pack).uid)) := by
    rintro ⟨a, ha, htype, hne⟩
    exact ⟨a, List.mem_filter.mpr ⟨ha, by simpa using hne⟩, htype⟩
  obtain ⟨a, ha, htype⟩ := hadmin
  cases h with
  | reads huids => exact ⟨a, ha, htype⟩
  | adds hlist b hnew => exact ⟨a, List.mem_append_left _ ha, htype⟩
  | updates hlist f hf => exact ⟨f a, List.mem_map_of_mem ha, (hf a).2.trans htype⟩
  | @deletesOwn hkind n hn hfd hpwd huid hcount =>
    rcases hspares hkind n hn hfd hpwd with ⟨-, hatype⟩ | ⟨hne, -⟩ | hleft
    · exact hasAdmin_filter hkeys (hcount hatype)
    · exact (hne huid).elim
    · exact hother hleft
  | @deletesOther hkind n hn hfd hpwd huid hflag =>
    rcases hspares hkind n hn hfd hpwd with ⟨heq, -⟩ | ⟨-, hzero⟩ | hleft
    · exact (huid heq).elim
    · exact (hflag hzero).elim
    · exact hother hleft

/-- The steps that leave an administrator. -/
def KeepsAdmin (sql : BrokenSql) (encryptPwd : CString → CString)
    (s : SessionMod × List Account × ρ) : ServerEvent → Prop
  | .request r => Plain encryptPwd r ∧ SparesAdmin sql encryptPwd s.1 s.2.1 r
  | .disconnect _ => True

end Admin

/-- From a table with an administrator, and over account requests and disconnects: as long
as no quote reaches the database and no deletion passes the count by, an administrator
is left. -/
theorem admin_remains {ρ : Type} {sql : BrokenSql} {encryptPwd : CString → CString} {other : Db ρ}
    {freed : Session} {rows₀ : List Account} {o₀ : ρ} (hkeys : DistinctUids rows₀)
    (hadmin : HasAdmin rows₀) {s : SessionMod × List Account × ρ}
    (h : Reaches (serverStep (accountDb sql encryptPwd other)) (KeepsAdmin sql encryptPwd)
      (.init freed, rows₀, o₀) s) : HasAdmin s.2.1 := by
  have hinv : Resting quoteFreeUser s.1 ∧ DistinctUids s.2.1 ∧ HasAdmin s.2.1 := by
    refine h.invariant (P := fun s => Resting quoteFreeUser s.1 ∧ DistinctUids s.2.1 ∧
      HasAdmin s.2.1) ⟨.inl (.init _ _), hkeys, hadmin⟩ ?_
    rintro ⟨m, rows, o⟩ e s' ⟨hm, hkeys, hadmin⟩ hok hstep
    cases e with
    | request r =>
      obtain ⟨hplain, hspares⟩ := hok
      obtain ⟨hm', heffect⟩ := hm.request hplain hstep
      exact ⟨hm', heffect.distinctUids hkeys, heffect.hasAdmin hspares hkeys hadmin⟩
    | disconnect fd =>
      obtain ⟨hm', rfl⟩ := hm.disconnect hstep
      exact ⟨hm', hkeys, hadmin⟩
  exact hinv.2.2

/-- The account that `server_init_db` makes sure of. -/
def youmenu : Account := ⟨accountAdmin, lit "youmenu", lit "youmenu", lit "youmenu", lit ""⟩

def deleteRequest (fd : ℕ) (uid pwd : String) : Request :=
  ⟨.accountDelete, fd, some [⟨lit "uid", .string (lit uid)⟩, ⟨lit "old_pwd", .string (lit pwd)⟩],
    noJunk⟩

/-- `ann` logs in and asks to delete the only administrator. -/
theorem admin_remains_ann :
    ∃ s : SessionMod × List Account × Unit,
      Reaches (serverStep smallDb) (KeepsAdmin ⟨fun _ _ => [], fun _ rows => (false, rows)⟩ id)
        (.init ⟨0, lit "", 0, .fd, lit "", 0⟩, [youmenu, ann], ()) s ∧ HasAdmin s.2.1 := by
  have hlogin : Reaches (serverStep smallDb)
      (KeepsAdmin ⟨fun _ _ => [], fun _ rows => (false, rows)⟩ id)
      (.init ⟨0, lit "", 0, .fd, lit "", 0⟩, [youmenu, ann], ())
      (annLoggedIn, [youmenu, ann], ()) := by
    refine .head (e := .request (loginRequest 5 "ann" "tea" noJunk)) ⟨?_, nofun⟩ rfl .refl
    show QuoteFree _ = true
    decide
  have hspares : KeepsAdmin ⟨fun _ _ => [], fun _ rows => (false, rows)⟩ id
      (annLoggedIn, [youmenu, ann], ()) (.request (deleteRequest 5 "youmenu" "tea")) := by
    refine ⟨show QuoteFree _ = true by decide, fun _ n hn _ _ => .inr (.inl ?_)⟩
    obtain rfl := List.mem_singleton.mp hn
    exact ⟨by decide, rfl⟩
  have hkeys : DistinctUids [youmenu, ann] := by
    unfold DistinctUids
    decide
  have hdelete := Reaches.tail hlogin hspares rfl
  exact ⟨_, hdelete, admin_remains hkeys ⟨youmenu, by simp, rfl⟩ hdelete⟩

/-- `ann` logs in while the stack holds a one, and deletes the only administrator. -/
theorem admin_deleted_by_waiter :
    ∃ s : SessionMod × List Account × Unit, Reaches (serverStep smallDb) anyStep
      (.init ⟨0, lit "", 0, .fd, lit "", 0⟩, [youmenu, ann], ()) s ∧ ¬ HasAdmin s.2.1 := by
  refine ⟨_, reaches_of_exec [.request (loginRequest 5 "ann" "tea" { noJunk with admin := 1 }),
    .request (deleteRequest 5 "youmenu" "tea")] rfl, ?_⟩
  rintro ⟨a, ha, htype⟩
  obtain rfl : a = ann := List.mem_singleton.mp ha
  exact absurd htype (by decide)

/-! ## Sessions are of existing accounts -/

section Unique

variable {δ : Type} {db : Db δ} {m m' : SessionMod}

theorem SessionMod.delAll_sublist {hit : SessionNode → Bool} {b : Bool}
    (h : m.delAll hit = some (b, m')) : m'.sessionList.Sublist m.sessionList := by
  rw [delAll_eq h]
  exact List.filter_sublist

theorem SessionMod.add_unique {s : Session} {b : Bool} (h : m.add s = some (b, m'))
    (hfd : s.sType = .fd → 0 ≤ s.fd) (htoken : s.sType = .token → s.fd = -1)
    (hunique : Unique m.sessionList) : Unique m'.sessionList := by
  obtain ⟨m₁, hlock, h⟩ := Option.bind_eq_some_iff.mp h
  rw [← (lock_table hlock).1] at hunique
  split_ifs at h with hconflict
  · obtain ⟨-, rfl⟩ := Prod.mk.inj (Option.some.inj h)
    exact hunique
  · obtain ⟨-, rfl⟩ := Prod.mk.inj (Option.some.inj h)
    exact hunique.add hfd htoken (by simpa using hconflict)

/-- A call keeps the keys unique, whether or not the module is settled. -/
theorem interp_unique {e : Effect} (hfd : ∀ s, e = .addFd s → 0 ≤ s.fd) {d d' : δ} {r : e.Result}
    (h : interp db e (m, d) = some (r, m', d')) (hunique : Unique m.sessionList) :
    Unique m'.sessionList := by
  cases e with
  | refFd fd =>
    obtain ⟨⟨r₁, m₁⟩, href, ⟨⟩⟩ := Option.map_eq_some_iff.mp h
    exact (SessionMod.refAll_table href).1 ▸ hunique
  | refUid uid type =>
    obtain ⟨⟨r₁, m₁⟩, href, ⟨⟩⟩ := Option.map_eq_some_iff.mp h
    exact (SessionMod.refAll_table href).1 ▸ hunique
  | refToken token =>
    obtain ⟨⟨r₁, m₁⟩, href, ⟨⟩⟩ := Option.map_eq_some_iff.mp h
    exact (SessionMod.refToken_table href).1 ▸ hunique
  | dref session =>
    obtain ⟨⟩ := Option.some.inj h
    rw [(SessionMod.dref_table session).1]
    exact hunique
  | read session =>
    obtain ⟨⟩ := Option.some.inj h
    exact hunique
  | delFd fd =>
    obtain ⟨⟨b, m₁⟩, hdel, ⟨⟩⟩ := Option.map_eq_some_iff.mp h
    exact hunique.sublist (SessionMod.delAll_sublist hdel)
  | delToken uid =>
    obtain ⟨⟨b, m₁⟩, hdel, ⟨⟩⟩ := Option.map_eq_some_iff.mp h
    exact hunique.sublist (SessionMod.delAll_sublist hdel)
  | addFd s =>
    obtain ⟨⟨b, m₁⟩, hadd, ⟨⟩⟩ := Option.map_eq_some_iff.mp h
    exact SessionMod.add_unique hadd (fun _ => hfd s rfl) nofun hunique
  | addToken s =>
    obtain ⟨⟨b, m₁⟩, hadd, ⟨⟩⟩ := Option.map_eq_some_iff.mp h
    exact SessionMod.add_unique hadd nofun (fun _ => rfl) hunique
  | db op =>
    obtain ⟨⟩ := Option.some.inj h
    exact hunique

theorem Request.exec_unique (r : Request) {d d' : δ} {reply : Reply}
    (hexec : r.handler.exec (interp db) (m, d) = some (reply, m', d'))
    (hunique : Unique m.sessionList) : Unique m'.sessionList := by
  have honly := Task.only_handler ⟨⟨r.fd, 0⟩, .request r.kind r.pack r.junk⟩
  refine honly.exec (I := fun s => Unique s.1.sessionList) ?_ hunique hexec
  rintro e he ⟨m₁, d₁⟩ x ⟨m₂, d₂⟩ hunique hcall
  refine interp_unique ?_ hcall hunique
  rintro s rfl
  have hfd : s.fd = r.fd := he.2
  omega

theorem serverStep_unique {d : δ} {e : ServerEvent} {s' : SessionMod × δ}
    (hstep : serverStep db (m, d) e = some s') (hunique : Unique m.sessionList) :
    Unique s'.1.sessionList := by
  cases e with
  | request r =>
    obtain ⟨⟨reply, s⟩, hexec, rfl⟩ := Option.map_eq_some_iff.mp hstep
    exact r.exec_unique hexec hunique
  | disconnect fd =>
    obtain ⟨⟨b, m₁⟩, hdel, rfl⟩ := Option.map_eq_some_iff.mp hstep
    exact hunique.sublist (SessionMod.delAll_sublist hdel)

end Unique

/-- Every session, of a connection or of a token, is one of an account. -/
def SessionsOwned (m : SessionMod) (rows : List Account) : Prop :=
  ∀ n ∈ m.sessionList, ∃ a ∈ rows, a.uid = n.session.uid

section Owned

variable {ρ : Type} {sql : BrokenSql} {encryptPwd : CString → CString} {r : Request}
  {m m' : SessionMod} {rows rows' : List Account}

/-- A deletion of somebody else's account that reaches the table is one of a user without
sessions. -/
def SparesUsers (sql : BrokenSql) (encryptPwd : CString → CString) (m : SessionMod)
    (rows : List Account) (r : Request) : Prop :=
  r.kind = .accountDelete → ∀ n ∈ m.sessionList, n.session.fd = r.fd →
    dbAccountPwdCheck sql encryptPwd rows n.session.uid (deleteParam r.junk r.pack).oldPwd →
      n.session.uid ≠ (deleteParam r.junk r.pack).uid → n.session.admin ≠ 0 →
        ∀ n' ∈ m.sessionList, n'.session.uid ≠ (deleteParam r.junk r.pack).uid

/-- No session of a user is left after the user has deleted itself. -/
theorem Unique.deleteOwn (hunique : Unique m.sessionList) {n : SessionNode}
    (hn : n ∈ m.sessionList) {fd : ℕ} (hfd : n.session.fd = fd) {n' : SessionNode}
    (hn' : n' ∈ ((m.remove (SessionNode.hasFd fd)).remove
      (SessionNode.hasUid n.session.uid .token)).sessionList) :
    n' ∈ m.sessionList ∧ n'.session.uid ≠ n.session.uid := by
  obtain ⟨hn', htoken⟩ := SessionMod.mem_remove.mp hn'
  obtain ⟨hn', hfd'⟩ := SessionMod.mem_remove.mp hn'
  refine ⟨hn', fun heq => ?_⟩
  have htype : n.session.sType = .fd := hunique.sType_of_fd hn (by omega) hfd
  cases htype' : n'.session.sType with
  | fd =>
    have huid : n.hasUid n.session.uid .fd := by simp [SessionNode.hasUid, htype]
    have huid' : n'.hasUid n.session.uid .fd := by simp [SessionNode.hasUid, htype', heq]
    obtain rfl := hunique.uid_inj hn hn' huid huid'
    simp [SessionNode.hasFd, hfd] at hfd'
  | token => simp [SessionNode.hasUid, htype', heq] at htoken

theorem AccountEffect.sessionsOwned (h : AccountEffect sql encryptPwd r m rows m' rows')
    (hspares : SparesUsers sql encryptPwd m rows r) (hunique : Unique m.sessionList)
    (howned : SessionsOwned m rows) : SessionsOwned m' rows' := by
  cases h with
  | reads huids =>
    intro n hn
    rcases huids n hn with ⟨n₀, hn₀, huid⟩ | howner
    · obtain ⟨a, ha, heq⟩ := howned n₀ hn₀
      exact ⟨a, ha, heq.trans huid⟩
    · exact howner
  | adds hlist b hnew =>
    intro n hn
    obtain ⟨a, ha, huid⟩ := howned n (hlist ▸ hn)
    exact ⟨a, List.mem_append_left _ ha, huid⟩
  | updates hlist f hf =>
    intro n hn
    obtain ⟨a, ha, huid⟩ := howned n (hlist ▸ hn)
    exact ⟨f a, List.mem_map_of_mem ha, (hf a).1.trans huid⟩
  | @deletesOwn hkind n hn hfd hpwd huid hcount =>
    intro n' hn'
    rw [← huid] at hn' ⊢
    obtain ⟨hn', hne⟩ := hunique.deleteOwn hn hfd hn'
    obtain ⟨a, ha, huid'⟩ := howned n' hn'
    exact ⟨a, List.mem_filter.mpr ⟨ha, by simpa [huid'] using hne⟩, huid'⟩
  | @deletesOther hkind n hn hfd hpwd huid hflag =>
    intro n' hn'
    have hne := hspares hkind n hn hfd hpwd huid hflag n' hn'
    obtain ⟨a, ha, huid'⟩ := howned n' hn'
    exact ⟨a, List.mem_filter.mpr ⟨ha, by simpa [huid'] using hne⟩, huid'⟩

/-- The steps that leave the sessions with their accounts. -/
def KeepsOwners (sql : BrokenSql) (encryptPwd : CString → CString)
    (s : SessionMod × List Account × ρ) : ServerEvent → Prop
  | .request r => Plain encryptPwd r ∧ SparesUsers sql encryptPwd s.1 s.2.1 r
  | .disconnect _ => True

end Owned

/-- Over account requests and disconnects: as long as no quote reaches the database and
nobody deletes the account of another user who has a session, every session is one of
an existing account. -/
theorem sessions_owned {ρ : Type} {sql : BrokenSql} {encryptPwd : CString → CString} {other : Db ρ}
    {freed : Session} {d₀ : List Account × ρ} {s : SessionMod × List Account × ρ}
    (h : Reaches (serverStep (accountDb sql encryptPwd other)) (KeepsOwners sql encryptPwd)
      (.init freed, d₀) s) : SessionsOwned s.1 s.2.1 := by
  have hinv : Resting quoteFreeUser s.1 ∧ Unique s.1.sessionList ∧ SessionsOwned s.1 s.2.1 := by
    refine h.invariant (P := fun s => Resting quoteFreeUser s.1 ∧ Unique s.1.sessionList ∧
      SessionsOwned s.1 s.2.1) ⟨.inl (.init _ _), .nil, nofun⟩ ?_
    rintro ⟨m, rows, o⟩ e s' ⟨hm, hunique, howned⟩ hok hstep
    have hunique' := serverStep_unique hstep hunique
    cases e with
    | request r =>
      obtain ⟨hplain, hspares⟩ := hok
      obtain ⟨hm', heffect⟩ := hm.request hplain hstep
      exact ⟨hm', hunique', heffect.sessionsOwned hspares hunique howned⟩
    | disconnect fd =>
      obtain ⟨hm', rfl⟩ := hm.disconnect hstep
      exact ⟨hm', hunique', fun n hn => howned n (SessionMod.mem_remove.mp hn).1⟩
  exact hinv.2.2

/-- `ann` logs in and deletes her own account. -/
theorem sessions_owned_ann :
    ∃ s : SessionMod × List Account × Unit,
      Reaches (serverStep smallDb) (KeepsOwners ⟨fun _ _ => [], fun _ rows => (false, rows)⟩ id)
        (.init ⟨0, lit "", 0, .fd, lit "", 0⟩, [youmenu, ann], ()) s ∧
          s.2.1 = [youmenu] ∧ SessionsOwned s.1 s.2.1 := by
  have hlogin : Reaches (serverStep smallDb)
      (KeepsOwners ⟨fun _ _ => [], fun _ rows => (false, rows)⟩ id)
      (.init ⟨0, lit "", 0, .fd, lit "", 0⟩, [youmenu, ann], ())
      (annLoggedIn, [youmenu, ann], ()) := by
    refine .head (e := .request (loginRequest 5 "ann" "tea" noJunk)) ⟨?_, nofun⟩ rfl .refl
    show QuoteFree _ = true
    decide
  have hspares : KeepsOwners ⟨fun _ _ => [], fun _ rows => (false, rows)⟩ id
      (annLoggedIn, [youmenu, ann], ()) (.request (deleteRequest 5 "ann" "tea")) := by
    refine ⟨show QuoteFree _ = true by decide, fun _ n hn _ _ hne => ?_⟩
    obtain rfl := List.mem_singleton.mp hn
    exact absurd rfl hne
  have hdelete := Reaches.tail hlogin hspares rfl
  exact ⟨_, hdelete, rfl, sessions_owned hdelete⟩

/-- The administrator logs in with its flag set and deletes `ann`, who is logged in. -/
theorem deleted_user_keeps_session :
    ∃ s : SessionMod × List Account × Unit, Reaches (serverStep smallDb) anyStep
      (.init ⟨0, lit "", 0, .fd, lit "", 0⟩, [youmenu, ann], ()) s ∧
        ¬ SessionsOwned s.1 s.2.1 := by
  refine ⟨_, reaches_of_exec [.request (loginRequest 5 "ann" "tea" noJunk),
    .request (loginRequest 6 "youmenu" "youmenu" { noJunk with admin := 1 }),
    .request (deleteRequest 6 "ann" "youmenu")] rfl, fun howned => ?_⟩
  obtain ⟨a, ha, huid⟩ := howned _ List.mem_cons_self
  obtain rfl : a = youmenu := List.mem_singleton.mp ha
  exact absurd huid (by decide)

end Youmenu.Server
