import Youmenu.Server.Table
import Mathlib.Logic.Relation

/-!
# Logins and logouts among disconnects

The handlers run one at a time, but `service_event_cb` deletes the session of a closed
connection on another thread. It waits for `session_lock`, so that it comes before
or after the stretch from `session_ref_*` to `session_dref`, and it can come between
that stretch and the deletion of the session that was looked up there.

## Main definitions

* `asserted` — the checks `assert(r == 1)` of the handlers.
* `Concurrent` — a handler that runs call by call among disconnects.
* `Patient` — no connection is closed just before the handler deletes its session.
-/

namespace Youmenu.Server

open Eventpack Transition Program

/-- What `assert(r == 1)` says of a result: it follows each of these calls in
`res_account_check_session_exist`, `res_account_login` and `res_account_logout`. -/
def asserted : (e : Effect) → e.Result → Bool
  | .delFd _, r => r
  | .delToken _, r => r
  | .addFd _, r => r
  | .addToken _, r => r
  | _, _ => true

variable {δ : Type}

/-- `service_event_cb` for a closed connection. -/
def disconnect (s : SessionMod × δ) (fd : ℕ) : Option (SessionMod × δ) :=
  (s.1.delAll (SessionNode.hasFd fd)).map fun r => (r.2, s.2)

/-- The disconnects that may come before a call: all but that of the connection whose
session the call deletes. -/
def Closes (e : Effect) : SessionMod × δ → SessionMod × δ → Prop :=
  Relation.ReflTransGen fun s s' => ∃ fd : ℕ, e ≠ .delFd fd ∧ disconnect s fd = some s'

/-! ## Calls among disconnects -/

section Rules

variable {db : Db δ} {m : SessionMod} {d : δ} {α : Type} {Q : α → SessionMod × δ → Prop}

/-- The sessions that disconnects before the call may remove. -/
def Spares (e : Effect) (m : SessionMod) (hit : SessionNode → Bool) : Prop :=
  ∀ n ∈ m.sessionList, hit n → 0 ≤ n.session.fd ∧ e ≠ .delFd n.session.fd

theorem SessionMod.remove_none {hit : SessionNode → Bool} (h : ∀ n ∈ m.sessionList, hit n = false) :
    m.remove hit = m := by
  have hall : m.sessionList.filter (fun n => !hit n) = m.sessionList :=
    List.filter_eq_self.mpr fun n hn => by simp [h n hn]
  rw [SessionMod.remove, hall]

theorem SessionMod.remove_remove (hit hit' : SessionNode → Bool) :
    (m.remove hit).remove hit' = m.remove fun n => hit n || hit' n := by
  simp only [SessionMod.remove, List.filter_filter]
  congr 2
  funext n
  cases hit n <;> cases hit' n <;> rfl

theorem SessionMod.mem_remove {hit : SessionNode → Bool} {n : SessionNode} :
    n ∈ (m.remove hit).sessionList ↔ n ∈ m.sessionList ∧ hit n = false := by
  simp [SessionMod.remove]

theorem Closes.remove {e : Effect} {s : SessionMod × δ} (h : Closes e (m, d) s) (hm : Keyed m) :
    ∃ hit, Spares e m hit ∧ s = (m.remove hit, d) := by
  induction h with
  | refl => exact ⟨fun _ => false, by simp [Spares], by rw [SessionMod.remove_none (by simp)]⟩
  | tail _ hstep ih =>
    obtain ⟨hit, hspares, rfl⟩ := ih
    obtain ⟨fd, hne, hdel⟩ := hstep
    simp only [disconnect, (hm.remove hit).settled.delAll, Option.map_some] at hdel
    obtain rfl := Option.some.inj hdel
    refine ⟨fun n => hit n || n.hasFd fd, ?_, by rw [SessionMod.remove_remove]⟩
    intro n hn hhit
    rcases Bool.or_eq_true_iff.mp hhit with hhit | hfd
    · exact hspares n hn hhit
    · obtain hfd : n.session.fd = fd := by simpa [SessionNode.hasFd] using hfd
      rw [hfd]
      exact ⟨by omega, hne⟩

/-- While the lock is taken a disconnect waits. -/
theorem Closes.locked {e : Effect} {s s' : SessionMod × δ} (h : Closes e s s')
    (hlocked : s.1.locked = true) : s' = s := by
  induction h with
  | refl => rfl
  | tail _ hstep ih =>
    obtain ⟨fd, -, hdel⟩ := hstep
    rw [ih] at hdel
    simp [disconnect, SessionMod.delAll, SessionMod.lock, hlocked] at hdel

/-- A call between two stretches under the lock. -/
theorem safe_call (hm : Keyed m) {e : Effect} {k : e.Result → Handler α}
    (h : ∀ hit, Spares e m hit → (perform e : Handler e.Result).wp (interp db)
      (fun r s => asserted e r ∧ (k r).Safe (interp db) Closes asserted Q s) (m.remove hit, d)) :
    (perform e >>= k).Safe (interp db) Closes asserted Q (m, d) := by
  intro s hs
  obtain ⟨hit, hspares, rfl⟩ := hs.remove hm
  exact h hit hspares

/-- A call under the lock. -/
theorem safe_held {e : Effect} {k : e.Result → Handler α} (hlocked : m.locked = true)
    (h : (perform e : Handler e.Result).wp (interp db)
      (fun r s => asserted e r ∧ (k r).Safe (interp db) Closes asserted Q s) (m, d)) :
    (perform e >>= k).Safe (interp db) Closes asserted Q (m, d) := by
  intro s hs
  obtain rfl := hs.locked hlocked
  exact h

theorem safe_db (hm : Keyed m) {op : DbOp} {k : op.Result → Handler α}
    (h : ∀ hit, (k (db op d).1).Safe (interp db) Closes asserted Q (m.remove hit, (db op d).2)) :
    (Server.db op >>= k).Safe (interp db) Closes asserted Q (m, d) :=
  safe_call hm fun hit _ => wp_db.mpr ⟨rfl, h hit⟩

theorem safe_refFd (hm : Keyed m) {fd : ℕ} {k : Option ℕ → Handler α}
    (hnone : ∀ hit, (∀ n ∈ (m.remove hit).sessionList, n.session.fd ≠ fd) →
      (k none).Safe (interp db) Closes asserted Q (m.remove hit, d))
    (hsome : ∀ hit, ∀ n ∈ (m.remove hit).sessionList, n.session.fd = fd →
      (k (some n.addr)).Safe (interp db) Closes asserted Q ((m.remove hit).hold n.addr, d)) :
    (sessionRefFd fd >>= k).Safe (interp db) Closes asserted Q (m, d) :=
  safe_call hm fun hit _ => wp_refFd (k := ret) (hm.remove hit).settled
    (fun h => ⟨rfl, hnone hit h⟩) fun n hn hfd => ⟨rfl, hsome hit n hn hfd⟩

theorem safe_refUid (hm : Keyed m) {uid : CString} {type : SessionType} {k : Option ℕ → Handler α}
    (hnone : ∀ hit, (m.remove hit).sessionList.any (SessionNode.hasUid uid type) = false →
      (k none).Safe (interp db) Closes asserted Q (m.remove hit, d))
    (hsome : ∀ hit, ∀ n ∈ (m.remove hit).sessionList, n.hasUid uid type →
      (k (some n.addr)).Safe (interp db) Closes asserted Q ((m.remove hit).hold n.addr, d)) :
    (sessionRefUid uid type >>= k).Safe (interp db) Closes asserted Q (m, d) :=
  safe_call hm fun hit _ => wp_refUid (k := ret) (hm.remove hit).settled
    (fun h => ⟨rfl, hnone hit h⟩) fun n hn huid => ⟨rfl, hsome hit n hn huid⟩

theorem safe_refToken (hm : Keyed m) {token : CString} {k : Option ℕ → Handler α}
    (hnone : ∀ hit, (k none).Safe (interp db) Closes asserted Q (m.remove hit, d))
    (hsome : ∀ hit, ∀ n ∈ (m.remove hit).sessionList,
      (k (some n.addr)).Safe (interp db) Closes asserted Q ((m.remove hit).hold n.addr, d)) :
    (sessionRefToken token >>= k).Safe (interp db) Closes asserted Q (m, d) :=
  safe_call hm fun hit _ => wp_refToken (k := ret) (hm.remove hit).settled
    (fun _ => ⟨rfl, hnone hit⟩) fun n hn _ => ⟨rfl, hsome hit n hn⟩

/-- A session that was looked up is still there when it is deleted. -/
theorem safe_delFd (hm : Keyed m) {n : SessionNode} (hn : n ∈ m.sessionList)
    {k : Bool → Handler α}
    (h : ∀ hit, (∀ n' ∈ m.sessionList, n'.session.fd = n.session.fd → hit n') →
      (k true).Safe (interp db) Closes asserted Q (m.remove hit, d)) :
    (sessionDelFd n.session.fd >>= k).Safe (interp db) Closes asserted Q (m, d) := by
  refine safe_call hm fun hit hspares => ?_
  have hstays : n ∈ (m.remove hit).sessionList := by
    refine SessionMod.mem_remove.mpr ⟨hn, ?_⟩
    by_contra hhit
    exact (hspares n hn (by simpa using hhit)).2 rfl
  have hfound : (m.remove hit).sessionList.any (SessionNode.hasFd n.session.fd) = true :=
    List.any_eq_true.mpr ⟨n, hstays, by simp [SessionNode.hasFd]⟩
  refine (wp_delFd_eq (k := ret) (hm.remove hit).settled).mpr ?_
  rw [hfound]
  refine ⟨rfl, ?_⟩
  rw [SessionMod.remove_remove]
  exact h _ fun n' _ hfd => by simp [SessionNode.hasFd, hfd]

/-- No closed connection has a token. -/
theorem safe_delToken (hm : Keyed m) {uid : CString}
    (hfound : m.sessionList.any (SessionNode.hasUid uid .token)) {k : Bool → Handler α}
    (h : ∀ hit, (k true).Safe (interp db) Closes asserted Q (m.remove hit, d)) :
    (sessionDelToken uid >>= k).Safe (interp db) Closes asserted Q (m, d) := by
  refine safe_call hm fun hit hspares => ?_
  obtain ⟨n, hn, huid⟩ := List.any_eq_true.mp hfound
  have htype : n.session.sType = .token := by
    simp only [SessionNode.hasUid, Bool.and_eq_true, decide_eq_true_eq] at huid
    exact huid.1
  have hstays : n ∈ (m.remove hit).sessionList := by
    refine SessionMod.mem_remove.mpr ⟨hn, ?_⟩
    by_contra hhit
    have hfd := (hspares n hn (by simpa using hhit)).1
    rw [hm.unique.token_fd n hn htype] at hfd
    omega
  have hfound' : (m.remove hit).sessionList.any (SessionNode.hasUid uid .token) = true :=
    List.any_eq_true.mpr ⟨n, hstays, huid⟩
  refine (wp_delToken_eq (k := ret) (hm.remove hit).settled).mpr ?_
  rw [hfound']
  refine ⟨rfl, ?_⟩
  rw [SessionMod.remove_remove]
  exact h _

/-- What nothing stands in the way of is added, whatever is removed before. -/
theorem safe_addFd (hm : Keyed m) {s : Session}
    (hfree : ∀ n ∈ m.sessionList, sessionConflict (sessionForFd s) n = false)
    {k : Bool → Handler α}
    (h : ∀ hit, (k true).Safe (interp db) Closes asserted Q
      ((m.remove hit).insert (sessionForFd s), d)) :
    (sessionAddFd s >>= k).Safe (interp db) Closes asserted Q (m, d) := by
  refine safe_call hm fun hit _ => ?_
  have hfree' : ∀ n ∈ (m.remove hit).sessionList, sessionConflict (sessionForFd s) n = false :=
    fun n hn => hfree n (SessionMod.mem_remove.mp hn).1
  exact (wp_addFd_free (k := ret) (hm.remove hit).settled hfree').mpr ⟨rfl, h hit⟩

theorem safe_addToken (hm : Keyed m) {s : Session}
    (hfree : ∀ n ∈ m.sessionList, sessionConflict (sessionForToken s) n = false)
    {k : Bool → Handler α}
    (h : ∀ hit, (k true).Safe (interp db) Closes asserted Q
      ((m.remove hit).insert (sessionForToken s), d)) :
    (sessionAddToken s >>= k).Safe (interp db) Closes asserted Q (m, d) := by
  refine safe_call hm fun hit _ => ?_
  have hfree' : ∀ n ∈ (m.remove hit).sessionList, sessionConflict (sessionForToken s) n = false :=
    fun n hn => hfree n (SessionMod.mem_remove.mp hn).1
  exact (wp_addToken_free (k := ret) (hm.remove hit).settled hfree').mpr ⟨rfl, h hit⟩

/-- Reading the session and giving it back under the lock. -/
theorem safe_read (hm : Keyed m) {n : SessionNode} (hn : n ∈ m.sessionList)
    {k : Session → Handler α}
    (h : (k n.session).Safe (interp db) Closes asserted Q (m.hold n.addr, d)) :
    (sessionRead n.addr >>= k).Safe (interp db) Closes asserted Q (m.hold n.addr, d) := by
  refine safe_held rfl ?_
  exact (wp_read (k := ret) hm.settled hn).mpr ⟨rfl, h⟩

theorem safe_dref (hm : Keyed m) {n : SessionNode} (hn : n ∈ m.sessionList)
    {k : Unit → Handler α} (h : (k ()).Safe (interp db) Closes asserted Q (m, d)) :
    (sessionDref n.addr >>= k).Safe (interp db) Closes asserted Q (m.hold n.addr, d) := by
  refine safe_held rfl ?_
  exact (wp_dref (k := ret) hm.settled hn).mpr ⟨rfl, h⟩

end Rules

/-! ## The two handlers -/

section Handlers

variable {db : Db δ} {m : SessionMod} {d : δ} {α : Type} {Q : α → SessionMod × δ → Prop}

/-- Nothing stands in the way of a session of the user on the connection. -/
def FreeFor (uid : CString) (fd : ℕ) (m : SessionMod) : Prop :=
  ∀ n ∈ m.sessionList, n.hasUid uid .fd = false ∧ n.session.fd ≠ fd

theorem FreeFor.conflict {uid : CString} {fd : ℕ} (h : FreeFor uid fd m) {s : Session}
    (huid : s.uid = uid) (hfd : s.fd = fd) :
    ∀ n ∈ m.sessionList, sessionConflict (sessionForFd s) n = false := by
  intro n hn
  obtain ⟨hne, hfd'⟩ := h n hn
  have hne' : n.session.sType = .fd → n.session.uid ≠ uid := by
    simpa [SessionNode.hasUid] using hne
  simpa [sessionConflict, sessionForFd, huid, hfd, hfd'] using hne'

theorem safe_resAccountCheckSessionExist (hm : Keyed m) {uid : CString} {fd : ℕ}
    {k : Bool → Handler α}
    (h : ∀ b hit, FreeFor uid fd (m.remove hit) →
      (k b).Safe (interp db) Closes asserted Q (m.remove hit, d)) :
    (resAccountCheckSessionExist uid fd >>= k).Safe (interp db) Closes asserted Q (m, d) := by
  -- the second check, after the sessions of the user are gone
  have hsame : ∀ (another : Bool) hit,
      (∀ n ∈ (m.remove hit).sessionList, n.hasUid uid .fd = false) →
      (sessionRefFd fd >>= fun old => dropSession old >>= fun same => ret (another || same)).Safe
        (interp db) Closes asserted (fun b s => (k b).Safe (interp db) Closes asserted Q s)
        (m.remove hit, d) := by
    intro another hit huid
    have huid' : ∀ {hit'} n, n ∈ ((m.remove hit).remove hit').sessionList →
        n.hasUid uid .fd = false :=
      fun n hn => huid n (SessionMod.mem_remove.mp hn).1
    refine safe_refFd (hm.remove hit) (fun hit' hnone => ?_) fun hit' n hn hfd => ?_
    · have hfree := fun n hn => And.intro (huid' n hn) (hnone n hn)
      rw [SessionMod.remove_remove] at hfree ⊢
      exact h _ _ hfree
    · rw [dropSession]
      refine safe_bind.mpr ?_
      refine safe_read ((hm.remove hit).remove hit') hn ?_
      refine safe_dref ((hm.remove hit).remove hit') hn ?_
      refine safe_delFd ((hm.remove hit).remove hit') hn fun hit'' hgone => ?_
      have hfree : FreeFor uid fd (((m.remove hit).remove hit').remove hit'') := by
        intro n' hn'
        obtain ⟨hn', hleft⟩ := SessionMod.mem_remove.mp hn'
        refine ⟨huid' n' hn', fun hfd' => ?_⟩
        simp [hgone n' hn' (hfd'.trans hfd.symm)] at hleft
      rw [SessionMod.remove_remove, SessionMod.remove_remove] at hfree ⊢
      exact h _ _ hfree
  refine safe_bind.mpr ?_
  refine safe_refUid hm (fun hit hnone => ?_) fun hit n hn huid => ?_
  · exact hsame _ hit (by simpa using hnone)
  · rw [dropSession]
    refine safe_bind.mpr ?_
    refine safe_read (hm.remove hit) hn ?_
    refine safe_dref (hm.remove hit) hn ?_
    refine safe_delFd (hm.remove hit) hn fun hit' hgone => ?_
    have hfree : ∀ n' ∈ ((m.remove hit).remove hit').sessionList, n'.hasUid uid .fd = false := by
      intro n' hn'
      obtain ⟨hn', hleft⟩ := SessionMod.mem_remove.mp hn'
      by_contra huid'
      obtain rfl := (hm.remove hit).unique.uid_inj hn hn' huid (by simpa using huid')
      simp [hgone n hn rfl] at hleft
    rw [SessionMod.remove_remove] at hfree ⊢
    exact hsame _ _ hfree

/-- No session has the token that `guid_generate` makes. -/
def Fresh (guid : CString) (m : SessionMod) : Prop :=
  ∀ n ∈ m.sessionList, n.session.sType = .token → n.session.token ≠ guid

theorem Fresh.remove {guid : CString} (h : Fresh guid m) (hit : SessionNode → Bool) :
    Fresh guid (m.remove hit) :=
  fun n hn => h n (SessionMod.mem_remove.mp hn).1

theorem Fresh.insert {guid : CString} (h : Fresh guid m) {s : Session} (hs : s.sType = .fd) :
    Fresh guid (m.insert s) := by
  intro n hn htype
  rcases List.mem_append.mp hn with hn | hn
  · exact h n hn htype
  · obtain rfl := List.mem_singleton.mp hn
    exact absurd (hs.symm.trans htype) (by decide)

theorem Fresh.conflict {guid : CString} (h : Fresh guid m) {s : Session} (hs : s.token = guid) :
    ∀ n ∈ m.sessionList, sessionConflict (sessionForToken s) n = false := by
  intro n hn
  simpa [sessionConflict, sessionForToken, hs] using h n hn

theorem Keyed.insert_fd (hm : Keyed m) {s : Session} (hs : 0 ≤ s.fd)
    (hfree : ∀ n ∈ m.sessionList, sessionConflict (sessionForFd s) n = false) :
    Keyed (m.insert (sessionForFd s)) :=
  hm.insert (fun _ => hs) (by simp [sessionForFd]) hfree

theorem Keyed.insert_token (hm : Keyed m) {s : Session}
    (hfree : ∀ n ∈ m.sessionList, sessionConflict (sessionForToken s) n = false) :
    Keyed (m.insert (sessionForToken s)) :=
  hm.insert (by simp [sessionForToken]) (fun _ => rfl) hfree

/-- At the end of a handler nothing is held and the keys are unique. -/
def Ends (_ : α) (s : SessionMod × δ) : Prop := Keyed s.1

theorem safe_loginToken (hm : Keyed m) {s : Session} {guid : CString} (hfresh : Fresh guid m) :
    (loginToken s guid).Safe (interp db) Closes asserted Ends (m, d) := by
  have hadd : ∀ hit, (sessionAddToken { s with sType := .token, token := guid, fd := -1 } >>=
      fun _ => ret [appendString "token" guid]).Safe (interp db) Closes asserted Ends
        (m.remove hit, d) := by
    intro hit
    have hfree := (hfresh.remove hit).conflict
      (s := { s with sType := .token, token := guid, fd := -1 }) rfl
    refine safe_addToken (hm.remove hit) hfree fun hit' => ?_
    exact ((hm.remove hit).remove hit').insert_token
      fun n hn => hfree n (SessionMod.mem_remove.mp hn).1
  refine safe_refUid hm (fun hit _ => hadd hit) fun hit n hn huid => ?_
  have huid' : n.session.uid = s.uid := by
    simp only [SessionNode.hasUid, Bool.and_eq_true, decide_eq_true_eq] at huid
    exact huid.2
  rw [dropToken]
  refine safe_bind.mpr ?_
  refine safe_read (hm.remove hit) hn ?_
  refine safe_dref (hm.remove hit) hn ?_
  refine safe_delToken (hm.remove hit) ?_ fun hit' => ?_
  · exact List.any_eq_true.mpr ⟨n, hn, huid' ▸ huid⟩
  · rw [SessionMod.remove_remove]
    exact hadd _

theorem safe_loginByPwd (hm : Keyed m) {junk : Junk} (hfresh : Fresh junk.guid m) {fd : ℕ}
    {p : LoginParam} :
    (loginByPwd junk fd p).Safe (interp db) Closes asserted Ends (m, d) := by
  refine safe_db hm fun hit₁ => ?_
  split
  · exact hm.remove hit₁
  refine safe_db (hm.remove hit₁) fun hit₂ => ?_
  rw [SessionMod.remove_remove]
  split
  · refine safe_resAccountCheckSessionExist (hm.remove _) fun conflict hit₃ hfree => ?_
    rw [SessionMod.remove_remove] at hfree ⊢
    refine safe_db (hm.remove _) fun hit₄ => ?_
    split
    · exact (hm.remove _).remove _
    next a _ =>
    have hfree' : ∀ n ∈ ((m.remove _).remove hit₄).sessionList,
        sessionConflict (sessionForFd ⟨a.type, p.uid, junk.admin, .fd, lit "", fd⟩) n = false :=
      fun n hn => hfree.conflict rfl rfl n (SessionMod.mem_remove.mp hn).1
    rw [SessionMod.remove_remove] at hfree' ⊢
    refine safe_addFd (hm.remove _) hfree' fun hit₅ => ?_
    have hadded := ((hm.remove _).remove hit₅).insert_fd (s :=
      ⟨a.type, p.uid, junk.admin, .fd, lit "", fd⟩) (by simp)
      fun n hn => hfree' n (SessionMod.mem_remove.mp hn).1
    split
    · refine safe_bind.mpr ?_
      exact safe_loginToken hadded (((hfresh.remove _).remove _).insert rfl)
    · exact hadded
  · exact hm.remove _

theorem safe_loginByToken (hm : Keyed m) (fd : ℕ) (token : CString) :
    (loginByToken fd token).Safe (interp db) Closes asserted Ends (m, d) := by
  refine safe_refToken hm (fun hit => hm.remove hit) fun hit n hn => ?_
  refine safe_read (hm.remove hit) hn ?_
  refine safe_dref (hm.remove hit) hn ?_
  refine safe_resAccountCheckSessionExist (hm.remove hit) fun conflict hit₁ hfree => ?_
  have hm₁ := (hm.remove hit).remove hit₁
  have hfree' := hfree.conflict
    (s := { n.session with sType := .fd, fd := fd, token := lit "" }) rfl rfl
  refine safe_addFd hm₁ hfree' fun hit₂ => ?_
  have hadded := (hm₁.remove hit₂).insert_fd
    (s := { n.session with sType := .fd, fd := fd, token := lit "" }) (by simp)
    fun n hn => hfree' n (SessionMod.mem_remove.mp hn).1
  refine safe_db hadded fun hit₃ => ?_
  split
  · exact hadded.remove hit₃
  · exact hadded.remove hit₃

theorem safe_resAccountLogin (hm : Keyed m) {junk : Junk} (hfresh : Fresh junk.guid m) (fd : ℕ)
    (pack : Pack) : (resAccountLogin junk fd pack).Safe (interp db) Closes asserted Ends (m, d) := by
  simp only [resAccountLogin]
  split_ifs
  · exact safe_loginByPwd hm hfresh
  · exact safe_loginByToken hm fd _
  · exact hm

theorem safe_resAccountLogout (hm : Keyed m) (fd : ℕ) :
    (resAccountLogout fd).Safe (interp db) Closes asserted Ends (m, d) := by
  refine safe_refFd hm (fun hit _ => hm.remove hit) fun hit n hn hfd => ?_
  refine safe_dref (hm.remove hit) hn ?_
  rw [← hfd]
  exact safe_delFd (hm.remove hit) hn fun hit' _ => (hm.remove hit).remove hit'

end Handlers

/-! ## Every interleaving -/

/-- `running` is the handler that holds the dispatch lock, at its next call. -/
structure Concurrent (δ : Type) where
  mod : SessionMod
  data : δ
  running : Option (Handler Reply)

inductive ConcurrentEvent where
  | login (fd : ℕ) (pack : Pack) (junk : Junk)
  | logout (fd : ℕ)
  /-- The handler makes its next call, or has ended. -/
  | call
  | disconnect (fd : ℕ)

namespace Concurrent

def init (freed : Session) (d : δ) : Concurrent δ := ⟨.init freed, d, none⟩

/-- A worker that gets the dispatch lock. -/
def start (s : Concurrent δ) (h : Handler Reply) : Option (Concurrent δ) :=
  if s.running.isNone then some { s with running := some h } else none

def step (db : Db δ) (s : Concurrent δ) : ConcurrentEvent → Option (Concurrent δ)
  | .login fd pack junk => s.start (resAccountLogin junk fd pack)
  | .logout fd => s.start (resAccountLogout fd)
  | .call =>
    match s.running with
    | none => none
    | some (.ret _) => some { s with running := none }
    | some (.call e k) =>
      (interp db e (s.mod, s.data)).map fun r => ⟨r.2.1, r.2.2, some (k r.1)⟩
  | .disconnect fd =>
    (Server.disconnect (s.mod, s.data) fd).map fun r => { s with mod := r.1, data := r.2 }

/-- The next call of the handler returns, and the assertion after it holds. -/
def AssertHolds (db : Db δ) (s : Concurrent δ) : Prop :=
  ∀ e k, s.running = some (.call e k) →
    ∃ r s', interp db e (s.mod, s.data) = some (r, s') ∧ asserted e r

/-- The connection whose session the handler has looked up and deletes next. -/
def deleting (s : Concurrent δ) : Option ℤ :=
  match s.running with
  | some (.call (.delFd fd) _) => some fd
  | _ => none

/-- A connection is not closed after a handler looked up its session and before the
handler deletes it, and a new token is in no session. -/
def Patient (s : Concurrent δ) : ConcurrentEvent → Prop
  | .login _ _ junk => Fresh junk.guid s.mod
  | .disconnect fd => s.deleting ≠ some (fd : ℤ)
  | _ => True

/-- The rest of the handler is safe. -/
def Sound (db : Db δ) (s : Concurrent δ) : Prop :=
  match s.running with
  | none => Keyed s.mod
  | some p => p.Safe (interp db) Closes asserted Ends (s.mod, s.data)

variable {db : Db δ} {s s' : Concurrent δ}

theorem Sound.start (h : Sound db s) {p : Handler Reply}
    (hp : Keyed s.mod → p.Safe (interp db) Closes asserted Ends (s.mod, s.data))
    (hstart : s.start p = some s') : Sound db s' := by
  unfold Concurrent.start at hstart
  split_ifs at hstart with hidle
  obtain rfl := Option.some.inj hstart
  refine hp ?_
  rw [Sound, Option.isNone_iff_eq_none.mp hidle] at h
  exact h

theorem Sound.call (h : Sound db s) (hstep : s.step db .call = some s') : Sound db s' := by
  obtain ⟨mod, data, _ | ⟨a⟩ | ⟨e, k⟩⟩ := s
  · cases hstep
  · obtain rfl := Option.some.inj hstep
    exact h
  · obtain ⟨⟨r, s''⟩, he, rfl⟩ := Option.map_eq_some_iff.mp hstep
    obtain ⟨r', s''', he', -, hsafe⟩ := h _ .refl
    obtain ⟨rfl, rfl⟩ := Prod.mk.inj (Option.some.inj (he.symm.trans he'))
    exact hsafe

theorem Sound.disconnect (h : Sound db s) {fd : ℕ} (hok : Patient s (.disconnect fd))
    (hstep : s.step db (.disconnect fd) = some s') : Sound db s' := by
  obtain ⟨⟨m', d'⟩, hdel, rfl⟩ := Option.map_eq_some_iff.mp hstep
  obtain ⟨m, d, running⟩ := s
  -- between two calls the keys are unique, so that the deletion is a plain removal
  have hkeyed : Keyed m → Keyed m' := by
    intro hm
    simp only [Server.disconnect, hm.settled.delAll, Option.map_some] at hdel
    obtain ⟨rfl, rfl⟩ := Prod.mk.inj (Option.some.inj hdel)
    exact hm.remove _
  match running with
  | none => exact hkeyed h
  | some (.ret a) => exact hkeyed h
  | some (.call e k) =>
    have hne : e ≠ .delFd fd := by
      rintro rfl
      exact hok rfl
    exact Safe.interfere h fun s'' hs'' => .head ⟨fd, hne, hdel⟩ hs''

theorem Sound.step (h : Sound db s) {e : ConcurrentEvent} (hok : Patient s e)
    (hstep : s.step db e = some s') : Sound db s' := by
  cases e with
  | login fd pack junk => exact h.start (fun hm => safe_resAccountLogin hm hok fd pack) hstep
  | logout fd => exact h.start (fun hm => safe_resAccountLogout hm fd) hstep
  | call => exact h.call hstep
  | disconnect fd => exact h.disconnect hok hstep

theorem Sound.assertHolds (h : Sound db s) : AssertHolds db s := by
  intro e k hrunning
  rw [Sound, hrunning] at h
  obtain ⟨r, s', he, hr, -⟩ := h _ .refl
  exact ⟨r, s', he, hr⟩

end Concurrent

/-- If no connection is closed between the lookup of its session and the deletion by the
handler that looked it up, then in every interleaving each deletion and each addition
of a login or a logout succeeds. -/
theorem login_logout_asserts {db : Db δ} {freed : Session} {d₀ : δ} {s : Concurrent δ}
    (h : Reaches (Concurrent.step db) Concurrent.Patient (.init freed d₀) s) :
    s.AssertHolds db :=
  (h.invariant (P := Concurrent.Sound db) (Keyed.init freed) fun hs hok hstep =>
    hs.step hok hstep).assertHolds

instance (s : Concurrent δ) : (e : ConcurrentEvent) → Decidable (s.Patient e)
  | .login _ _ junk =>
    inferInstanceAs (Decidable (∀ n ∈ s.mod.sessionList, n.session.sType = .token →
      n.session.token ≠ junk.guid))
  | .disconnect fd => inferInstanceAs (Decidable (s.deleting ≠ some (fd : ℤ)))
  | .logout _ | .call => inferInstanceAs (Decidable True)

/-- `ann` logs in on connection 5: two queries, two lookups, one more query, the new
session and the end. Then she starts to log out. -/
def annLeaving : List ConcurrentEvent :=
  [.login 5 (loginRequest 5 "ann" "tea" noJunk).pack noJunk, .call, .call, .call, .call, .call,
    .call, .call, .logout 5, .call, .call]

/-- Connection 6 closes before her session is deleted. -/
theorem login_logout_asserts_ann :
    ∃ s, Reaches (Concurrent.step smallDb) Concurrent.Patient
      (.init ⟨0, lit "", 0, .fd, lit "", 0⟩ ([ann], ())) s ∧
        s.deleting = some 5 ∧ s.AssertHolds smallDb := by
  have hrun : ∃ s, Reaches (Concurrent.step smallDb) Concurrent.Patient
      (.init ⟨0, lit "", 0, .fd, lit "", 0⟩ ([ann], ())) s ∧ s.deleting = some 5 :=
    ⟨_, reaches_of_exec (annLeaving ++ [.disconnect 6]) rfl, rfl⟩
  obtain ⟨s, hreaches, hdeleting⟩ := hrun
  exact ⟨s, hreaches, hdeleting, login_logout_asserts hreaches⟩

/-- Her own connection closes there. -/
theorem logout_disconnected :
    ∃ s, Reaches (Concurrent.step smallDb) anyStep
      (.init ⟨0, lit "", 0, .fd, lit "", 0⟩ ([ann], ())) s ∧ ¬ s.AssertHolds smallDb := by
  refine ⟨_, reaches_of_exec (annLeaving ++ [.disconnect 5]) rfl, fun h => ?_⟩
  obtain ⟨r, s', he, hr⟩ := h _ _ rfl
  obtain ⟨rfl, -⟩ := Prod.mk.inj (Option.some.inj he)
  exact absurd hr (by decide)

end Youmenu.Server
