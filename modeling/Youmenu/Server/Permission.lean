import Youmenu.Server.References

/-!
# Who may manage accounts

`res_account_create` and `res_account_delete` decide by the field `admin` of the
session. No login writes it: a login by password leaves in it what the stack held,
and a login by token copies it.

## Main definitions

* `TableEvent`, `tableStep` — how the session table comes about.
* `AdminOnly` — what is asked of the two handlers.
* `FlagSet` — the logins whose flag happens to be right.
-/

namespace Youmenu.Server

open Eventpack Transition Program

/-- Logins, logouts and disconnects; in between the accounts may change. -/
inductive TableEvent where
  | login (fd : ℕ) (pack : Pack) (junk : Junk)
  | logout (fd : ℕ)
  | disconnect (fd : ℕ)
  | accounts (rows : List Account)

section Permission

variable {ρ : Type} (db : Db (List Account × ρ))

def tableStep (s : SessionMod × List Account × ρ) :
    TableEvent → Option (SessionMod × List Account × ρ)
  | .login fd pack junk => ((resAccountLogin junk fd pack).exec (interp db) s).map (·.2)
  | .logout fd => ((resAccountLogout fd).exec (interp db) s).map (·.2)
  | .disconnect fd => (s.1.delAll (SessionNode.hasFd fd)).map fun r => (r.2, s.2)
  | .accounts rows => some (s.1, rows, s.2.2)

/-- The connection has a session of an administrator. -/
def AdminSession (m : SessionMod) (fd : ℕ) : Prop :=
  ∃ n ∈ m.sessionList, n.session.fd = fd ∧ n.session.aType = accountAdmin

/-- The connection has a session of the user. -/
def UserSession (m : SessionMod) (fd : ℕ) (uid : CString) : Prop :=
  ∃ n ∈ m.sessionList, n.session.fd = fd ∧ n.session.uid = uid

/-- `res_account_create` returns. It changes the accounts only for an administrator, and
does not refuse an administrator whose parameters are valid. -/
def CreateAdminOnly (s : SessionMod × List Account × ρ) (fd : ℕ) (pack : Pack) (junk : Junk) :
    Prop :=
  ∃ reply m' rows' o',
    (resAccountCreate junk fd pack).exec (interp db) s = some (reply, m', rows', o') ∧
      (¬ AdminSession s.1 fd → rows' = s.2.1) ∧
      (AdminSession s.1 fd → validAccount (createParam junk pack) →
        reply ≠ [AccountResult.noPermission.append])

/-- `res_account_delete` returns. Only for an administrator does it remove accounts that
are not the user's own, and it does not refuse an administrator whose parameters are
valid. -/
def DeleteAdminOnly (s : SessionMod × List Account × ρ) (fd : ℕ) (pack : Pack) (junk : Junk) :
    Prop :=
  ∃ reply m' rows' o',
    (resAccountDelete junk fd pack).exec (interp db) s = some (reply, m', rows', o') ∧
      (¬ AdminSession s.1 fd → ∀ a ∈ s.2.1, ¬ UserSession s.1 fd a.uid → a ∈ rows') ∧
      (AdminSession s.1 fd → validDelete (deleteParam junk pack) →
        reply ≠ [AccountResult.noPermission.append])

/-- At a login by password the field `admin` of the new session, which nobody writes,
is nonzero exactly for an administrator. -/
def FlagSet (s : SessionMod × List Account × ρ) : TableEvent → Prop
  | .login _ pack junk =>
    ∀ a, loginAccount db s.2 (loginParam junk pack) = some a →
      (junk.admin ≠ 0 ↔ a.type = accountAdmin)
  | _ => True

/-- A user other than an administrator does not delete its own account under a name
with a quote in it. -/
def NoQuote (m : SessionMod) (fd : ℕ) (uid : CString) : Prop :=
  ¬ AdminSession m fd → UserSession m fd uid → QuoteFree uid

/-- The flag tells the administrators. -/
def flagRight : LoginProp := fun type _ admin => admin ≠ 0 ↔ type = accountAdmin

variable {db} {m : SessionMod} {d : List Account × ρ}

theorem Settled.tableStep (hm : Settled flagRight m) {e : TableEvent}
    {s' : SessionMod × List Account × ρ} (hok : FlagSet db (m, d) e)
    (hstep : tableStep db (m, d) e = some s') : Settled flagRight s'.1 := by
  have hkeeps : ∀ {h : Handler Reply}, h.wp (interp db) (Keeps flagRight m) (m, d) →
      (h.exec (interp db) (m, d)).map (·.2) = some s' → Settled flagRight s'.1 := by
    intro h hwp hexec
    obtain ⟨⟨reply, s⟩, hrun, rfl⟩ := Option.map_eq_some_iff.mp hexec
    obtain ⟨hs', -⟩ := hwp.of_exec hrun
    exact hs'
  cases e with
  | login fd pack junk => exact hkeeps (wp_resAccountLogin hm hok) hstep
  | logout fd => exact hkeeps (wp_resAccountLogout hm fd) hstep
  | disconnect fd =>
    simp only [Server.tableStep, hm.delAll] at hstep
    obtain rfl := Option.some.inj hstep
    exact hm.remove _
  | accounts rows =>
    obtain rfl := Option.some.inj hstep
    exact hm

end Permission

/-! ## The two handlers -/

section Handlers

variable {ρ : Type} {sql : BrokenSql} {encryptPwd : CString → CString} {other : Db ρ}
  {m : SessionMod} {rows : List Account} {o : ρ}

/-- The session of a connection is the one that decides. -/
theorem Settled.adminSession_iff (hm : Settled flagRight m) {fd : ℕ} {n : SessionNode}
    (hn : n ∈ m.sessionList) (hfd : n.session.fd = fd) :
    AdminSession m fd ↔ n.session.admin ≠ 0 := by
  have hflag : n.session.admin ≠ 0 ↔ n.session.aType = accountAdmin := hm.sessions n hn
  rw [hflag]
  constructor
  · rintro ⟨n', hn', hfd', htype⟩
    rwa [hm.session_unique hn hfd hn' hfd']
  · exact fun htype => ⟨n, hn, hfd, htype⟩

theorem append_ne_noPermission {r : AccountResult} (h : r ≠ .noPermission) :
    [r.append] ≠ [AccountResult.noPermission.append] := by
  cases r <;> first | decide | exact (h rfl).elim

theorem deleted_ne_noPermission (r : Bool) :
    deleted r ≠ [AccountResult.noPermission.append] := by
  cases r <;> decide

theorem wp_createAccount_reply (a : Account) {d : List Account × ρ} :
    (createAccount a).wp (interp (accountDb sql encryptPwd other))
      (fun reply _ => reply ≠ [AccountResult.noPermission.append]) (m, d) := by
  refine wp_db.mpr ?_
  split
  · exact append_ne_noPermission (by decide)
  refine wp_db.mpr ?_
  split
  · exact append_ne_noPermission (by decide)
  · exact append_ne_noPermission (by decide)

theorem Settled.createAdminOnly (hm : Settled flagRight m) (fd : ℕ) (pack : Pack) (junk : Junk) :
    CreateAdminOnly (accountDb sql encryptPwd other) (m, rows, o) fd pack junk := by
  have hwp : (resAccountCreate junk fd pack).wp (interp (accountDb sql encryptPwd other))
      (fun reply s => (¬ AdminSession m fd → s.2.1 = rows) ∧
        (AdminSession m fd → validAccount (createParam junk pack) →
          reply ≠ [AccountResult.noPermission.append])) (m, rows, o) := by
    simp only [resAccountCreate]
    split
    · refine wp_refFd hm (fun hnone => ?_) fun n hn hfd => ?_
      · refine ⟨fun _ => rfl, ?_⟩
        rintro ⟨n, hn, hfd, -⟩
        exact (hnone n hn hfd).elim
      · rw [wp_read hm hn, wp_dref hm hn, wp_read_stale hm hn]
        have hadmin := hm.adminSession_iff hn hfd
        split
        · next hzero =>
          refine ⟨fun _ => rfl, fun h => ?_⟩
          exact (hadmin.mp h hzero).elim
        · next hflag =>
          refine (wp_createAccount_reply _).mono fun reply s hreply => ?_
          exact ⟨fun h => (h (hadmin.mpr hflag)).elim, fun _ _ => hreply⟩
    · next hvalid => exact ⟨fun _ => rfl, fun _ h => (hvalid h).elim⟩
  obtain ⟨reply, ⟨m', rows', o'⟩, hexec, hQ⟩ := wp_iff_exec.mp hwp
  exact ⟨reply, m', rows', o', hexec, hQ⟩

theorem Settled.deleteAdminOnly (hm : Settled flagRight m) (fd : ℕ) (pack : Pack) (junk : Junk)
    (hquote : NoQuote m fd (deleteParam junk pack).uid) :
    DeleteAdminOnly (accountDb sql encryptPwd other) (m, rows, o) fd pack junk := by
  have hwp : (resAccountDelete junk fd pack).wp (interp (accountDb sql encryptPwd other))
      (fun reply s =>
        (¬ AdminSession m fd → ∀ a ∈ rows, ¬ UserSession m fd a.uid → a ∈ s.2.1) ∧
        (AdminSession m fd → validDelete (deleteParam junk pack) →
          reply ≠ [AccountResult.noPermission.append])) (m, rows, o) := by
    have hkept : ∀ {r : AccountResult} {addr}, r ≠ .noPermission →
        (fun (reply : Reply) (s : SessionMod × List Account × ρ) =>
          (¬ AdminSession m fd → ∀ a ∈ rows, ¬ UserSession m fd a.uid → a ∈ s.2.1) ∧
            (AdminSession m fd → validDelete (deleteParam junk pack) →
              reply ≠ [AccountResult.noPermission.append])) [r.append] (addr, rows, o) :=
      fun hr => ⟨fun _ a ha _ => ha, fun _ _ => append_ne_noPermission hr⟩
    refine wp_resAccountDelete_eq hm (fun _ => hkept (by decide)) (fun _ _ => hkept (by decide))
      (fun _ _ _ _ _ => hkept (by decide)) fun _ n hn hfd _ => ?_
    split
    · next huid =>
      have hread : ∀ {d'}, (d' = (rows, o) ∨
          d' = (accountDb sql encryptPwd other .accountGet (rows, o)).2) → d' = (rows, o) := by
        rintro d' (rfl | rfl) <;> rfl
      refine wp_deleteOwn hm hn (fun d' hd' => ?_) fun d' hd' _ => ?_
      · obtain rfl := hread hd'
        exact hkept (by decide)
      · obtain rfl := hread hd'
        refine ⟨fun hno a ha hother => ?_, fun _ _ => deleted_ne_noPermission _⟩
        have huser : UserSession m fd (deleteParam junk pack).uid := ⟨n, hn, hfd, huid⟩
        have hne : a.uid ≠ (deleteParam junk pack).uid := by
          intro heq
          exact hother (heq ▸ huser)
        simp only [accountDb, dbAccountDel, hquote hno huser, if_true]
        exact List.mem_filter.mpr ⟨ha, by simp [hne]⟩
    · have hadmin := hm.adminSession_iff hn hfd
      refine wp_deleteOther hm hn (fun hzero => ?_) fun hflag => ?_
      · exact ⟨fun _ a ha _ => ha, fun h => (hadmin.mp h hzero).elim⟩
      · exact ⟨fun h => (h (hadmin.mpr hflag)).elim, fun _ _ => deleted_ne_noPermission _⟩
  obtain ⟨reply, ⟨m', rows', o'⟩, hexec, hQ⟩ := wp_iff_exec.mp hwp
  exact ⟨reply, m', rows', o', hexec, hQ⟩

end Handlers

/-- If every login by password finds the right flag on the stack, then in every session
table that logins, logouts and disconnects lead to, only administrators manage
accounts, as long as no user deletes itself under a name with a quote in it. -/
theorem account_admin_only {ρ : Type} {sql : BrokenSql} {encryptPwd : CString → CString}
    {other : Db ρ} {freed : Session} {d₀ : List Account × ρ} {s : SessionMod × List Account × ρ}
    (h : Reaches (tableStep (accountDb sql encryptPwd other))
      (FlagSet (accountDb sql encryptPwd other)) (.init freed, d₀) s)
    (fd : ℕ) (pack : Pack) (junk : Junk) :
    CreateAdminOnly (accountDb sql encryptPwd other) s fd pack junk ∧
      (NoQuote s.1 fd (deleteParam junk pack).uid →
        DeleteAdminOnly (accountDb sql encryptPwd other) s fd pack junk) := by
  have hsettled : Settled flagRight s.1 :=
    h.invariant (P := fun s => Settled flagRight s.1) (.init _ _) fun hs hok hstep =>
      hs.tableStep hok hstep
  exact ⟨hsettled.createAdminOnly fd pack junk, hsettled.deleteAdminOnly fd pack junk⟩

/-- `ann` is logged in with the flag clear and deletes herself. -/
theorem account_admin_only_ann :
    let pack : Pack := some [⟨lit "uid", .string (lit "ann")⟩, ⟨lit "old_pwd", .string (lit "tea")⟩]
    Reaches (tableStep smallDb) (FlagSet smallDb)
        (.init ⟨0, lit "", 0, .fd, lit "", 0⟩, [ann], ()) (annLoggedIn, [ann], ()) ∧
      CreateAdminOnly smallDb (annLoggedIn, [ann], ()) 5 pack noJunk ∧
      DeleteAdminOnly smallDb (annLoggedIn, [ann], ()) 5 pack noJunk := by
  have hrun : Reaches (tableStep smallDb) (FlagSet smallDb)
      (.init ⟨0, lit "", 0, .fd, lit "", 0⟩, [ann], ()) (annLoggedIn, [ann], ()) := by
    refine .head (e := .login 5 (loginRequest 5 "ann" "tea" noJunk).pack noJunk) ?_ rfl .refl
    intro a ha
    obtain rfl : ann = a := Option.some.inj ha
    decide
  have h := account_admin_only hrun 5
    (some [⟨lit "uid", .string (lit "ann")⟩, ⟨lit "old_pwd", .string (lit "tea")⟩]) noJunk
  exact ⟨hrun, h.1, h.2 fun _ _ => by decide⟩

/-- `ann` logs in while the stack holds a one, and adds an account. -/
theorem account_created_by_waiter :
    ∃ s : SessionMod × List Account × Unit, Reaches (tableStep smallDb) anyStep
      (.init ⟨0, lit "", 0, .fd, lit "", 0⟩, [ann], ()) s ∧
        ∃ fd pack junk, ¬ CreateAdminOnly smallDb s fd pack junk := by
  refine ⟨_, reaches_of_exec [.login 5 (loginRequest 5 "ann" "tea" noJunk).pack
    { noJunk with admin := 1 }] rfl, 5, some [⟨lit "uid", .string (lit "bob")⟩,
      ⟨lit "pwd", .string (lit "tip")⟩, ⟨lit "type", .int 1⟩], noJunk, ?_⟩
  rintro ⟨reply, m', rows', o', hexec, hno, -⟩
  have hadded : rows' = [ann, ⟨1, lit "bob", lit "tip", lit "", lit ""⟩] := by
    obtain ⟨-, h⟩ := Prod.mk.inj (Option.some.inj hexec)
    obtain ⟨-, h⟩ := Prod.mk.inj h
    exact (Prod.mk.inj h).1.symm
  have hsame : rows' = [ann] := by
    refine hno ?_
    rintro ⟨n, hn, -, htype⟩
    rw [List.mem_singleton.mp hn] at htype
    exact absurd htype (by decide)
  rw [hadded] at hsame
  cases hsame

end Youmenu.Server
