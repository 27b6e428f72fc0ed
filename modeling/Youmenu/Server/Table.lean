import Youmenu.Server.References
import Mathlib.Data.List.Pairwise

/-!
# Keys of the session table

One list holds the sessions of connections and the sessions of tokens. A connection
and a user have at most one of the first kind, and a token has at most one of the
second. The checks of `session_add` keep it so, in any order of the calls that
change the table.

## Main definitions

* `Unique` — the keys of the table.
* `SessionCall` — the calls that change it.
-/

namespace Youmenu.Server

open Eventpack Transition

/-- Sessions of connections differ in connection and user, sessions of tokens in the
token, and the two kinds can be told apart by the connection. -/
structure Unique (list : List SessionNode) : Prop where
  fds : list.Pairwise fun n n' => n.session.sType = .fd → n'.session.sType = .fd →
    n.session.fd ≠ n'.session.fd ∧ n.session.uid ≠ n'.session.uid
  tokens : list.Pairwise fun n n' => n.session.sType = .token → n'.session.sType = .token →
    n.session.token ≠ n'.session.token
  token_fd : ∀ n ∈ list, n.session.sType = .token → n.session.fd = -1
  fd_nonneg : ∀ n ∈ list, n.session.sType = .fd → 0 ≤ n.session.fd

namespace Unique

variable {list : List SessionNode}

theorem nil : Unique [] := ⟨.nil, .nil, by simp, by simp⟩

theorem sublist (h : Unique list) {list' : List SessionNode} (hsub : list'.Sublist list) :
    Unique list' where
  fds := h.fds.sublist hsub
  tokens := h.tokens.sublist hsub
  token_fd n hn := h.token_fd n (hsub.subset hn)
  fd_nonneg n hn := h.fd_nonneg n (hsub.subset hn)

/-- What `session_add` does not refuse may be added. -/
theorem add (h : Unique list) {n : SessionNode} (hfd : n.session.sType = .fd → 0 ≤ n.session.fd)
    (htoken : n.session.sType = .token → n.session.fd = -1)
    (hfree : ∀ n' ∈ list, sessionConflict n.session n' = false) : Unique (list ++ [n]) where
  fds := pairwise_add h.fds fun n' hn' htype' htype => by
    have hne := hfree n' hn'
    simpa [sessionConflict, htype, htype'] using hne
  tokens := pairwise_add h.tokens fun n' hn' htype' htype => by
    have hne := hfree n' hn'
    simpa [sessionConflict, htype, htype'] using hne
  token_fd := List.forall_mem_append.mpr ⟨h.token_fd, List.forall_mem_singleton.mpr htoken⟩
  fd_nonneg := List.forall_mem_append.mpr ⟨h.fd_nonneg, List.forall_mem_singleton.mpr hfd⟩

/-- A session that is found by its connection is the session of a connection. -/
theorem sType_of_fd (h : Unique list) {n : SessionNode} (hn : n ∈ list) {fd : ℤ} (hfd : 0 ≤ fd)
    (heq : n.session.fd = fd) : n.session.sType = .fd := by
  cases htype : n.session.sType with
  | fd => rfl
  | token =>
    have := h.token_fd n hn htype
    omega

/-- A user has one session of a connection. -/
theorem uid_inj (h : Unique list) {uid : CString} {n n' : SessionNode} (hn : n ∈ list)
    (hn' : n' ∈ list) (huid : n.hasUid uid .fd) (huid' : n'.hasUid uid .fd) : n = n' := by
  simp only [SessionNode.hasUid, Bool.and_eq_true, decide_eq_true_eq] at huid huid'
  by_contra hne
  have hsymm : Std.Symm fun n n' : SessionNode => n.session.sType = .fd →
      n'.session.sType = .fd → n.session.fd ≠ n'.session.fd ∧ n.session.uid ≠ n'.session.uid :=
    ⟨fun n n' hpair htype' htype => (hpair htype htype').imp Ne.symm Ne.symm⟩
  have hpair := h.fds.forall hn hn' hne huid.1 huid'.1
  exact hpair.2 (huid.2.trans huid'.2.symm)

end Unique

/-! ## The calls that change the table -/

/-- Each call runs under `session_lock`. -/
inductive SessionCall where
  | addFd (session : Session)
  | addToken (session : Session)
  | delFd (fd : ℤ)
  | delToken (uid : CString)

namespace SessionCall

def exec : SessionCall → SessionMod → Option (Bool × SessionMod)
  | addFd s, m => m.add (sessionForFd s)
  | addToken s, m => m.add (sessionForToken s)
  | delFd fd, m => m.delAll (SessionNode.hasFd fd)
  | delToken uid, m => m.delAll (SessionNode.hasUid uid .token)

def step (m : SessionMod) (c : SessionCall) : Option SessionMod := (c.exec m).map (·.2)

/-- A file descriptor is not negative and a token is not empty. -/
def Valid : SessionCall → Prop
  | addFd s => 0 ≤ s.fd
  | addToken s => s.token.bytes ≠ []
  | delFd fd => 0 ≤ fd
  | delToken _ => True

def isAdd : SessionCall → Bool
  | addFd _ | addToken _ => true
  | delFd _ | delToken _ => false

end SessionCall

/-- Nothing is held between two calls, and the keys are unique. -/
structure Keyed (m : SessionMod) : Prop where
  settled : Settled (fun _ _ _ => True) m
  unique : Unique m.sessionList

namespace Keyed

variable {m : SessionMod}

theorem init (freed : Session) : Keyed (.init freed) := ⟨.init _ _, .nil⟩

theorem remove (h : Keyed m) (hit : SessionNode → Bool) : Keyed (m.remove hit) :=
  ⟨h.settled.remove hit, h.unique.sublist List.filter_sublist⟩

theorem insert (h : Keyed m) {s : Session} (hfd : s.sType = .fd → 0 ≤ s.fd)
    (htoken : s.sType = .token → s.fd = -1)
    (hfree : ∀ n ∈ m.sessionList, sessionConflict s n = false) : Keyed (m.insert s) := by
  have hunique : Unique (m.insert s).sessionList := h.unique.add hfd htoken hfree
  refine ⟨h.settled.insert ?_ trivial, hunique⟩
  by_cases htype : s.sType = .fd
  · exact .inr ⟨htype, hfree⟩
  · refine .inl (htoken ?_)
    cases hs : s.sType <;> simp_all

/-- A session is added, or refused with the module as it was. -/
theorem add (h : Keyed m) {s : Session} (hfd : s.sType = .fd → 0 ≤ s.fd)
    (htoken : s.sType = .token → s.fd = -1) :
    ∃ b m', m.add s = some (b, m') ∧ Keyed m' ∧ (b = false → m' = m) := by
  cases hconflict : m.sessionList.any (sessionConflict s) with
  | true => exact ⟨false, m, h.settled.add_conflict hconflict, h, fun _ => rfl⟩
  | false =>
    have hfree : ∀ n ∈ m.sessionList, sessionConflict s n = false := by simpa using hconflict
    exact ⟨true, m.insert s, h.settled.add_free hfree, h.insert hfd htoken hfree, by simp⟩

/-- One call returns and keeps the keys unique. -/
theorem exec (h : Keyed m) {c : SessionCall} (hc : c.Valid) :
    ∃ b m', c.exec m = some (b, m') ∧ Keyed m' ∧ (c.isAdd → b = false → m' = m) := by
  cases c with
  | addFd s =>
    obtain ⟨b, m', hadd, hm', hsame⟩ :=
      h.add (s := sessionForFd s) (fun _ => hc) (by simp [sessionForFd])
    exact ⟨b, m', hadd, hm', fun _ => hsame⟩
  | addToken s =>
    obtain ⟨b, m', hadd, hm', hsame⟩ :=
      h.add (s := sessionForToken s) (by simp [sessionForToken]) fun _ => rfl
    exact ⟨b, m', hadd, hm', fun _ => hsame⟩
  | delFd fd => exact ⟨_, _, h.settled.delAll _, h.remove _, by simp [SessionCall.isAdd]⟩
  | delToken uid => exact ⟨_, _, h.settled.delAll _, h.remove _, by simp [SessionCall.isAdd]⟩

theorem step (h : Keyed m) {c : SessionCall} (hc : c.Valid) {m' : SessionMod}
    (hstep : SessionCall.step m c = some m') : Keyed m' := by
  obtain ⟨b, m'', hexec, hm'', -⟩ := h.exec hc
  simp only [SessionCall.step, hexec, Option.map_some] at hstep
  obtain rfl := Option.some.inj hstep
  exact hm''

/-- `session_ref_fd` finds at most one session. -/
theorem length_hasFd (h : Keyed m) {fd : ℤ} (hfd : 0 ≤ fd) :
    (m.sessionList.filter (SessionNode.hasFd fd)).length ≤ 1 := by
  rcases h.settled.distinct.filter_hasFd (show fd ≠ -1 by omega) with hnil | ⟨n, -, -, hone⟩
  · simp [hnil]
  · simp [hone]

/-- `session_del_fd` removes no token. -/
theorem delFd_removes (h : Keyed m) {fd : ℤ} (hfd : 0 ≤ fd) {n : SessionNode}
    (hn : n ∈ m.sessionList) (hgone : n ∉ (m.remove (SessionNode.hasFd fd)).sessionList) :
    n.session.sType = .fd := by
  have hhit : n.hasFd fd = true := by
    by_contra hmiss
    exact hgone (List.mem_filter.mpr ⟨hn, by simpa using hmiss⟩)
  exact h.unique.sType_of_fd hn hfd (by simpa [SessionNode.hasFd] using hhit)

end Keyed

/-- In every table that the calls lead to, the keys are unique, `session_ref_fd` finds at
most one session, `session_del_fd` removes only sessions of connections, and every
call returns, leaving the module as it was where it refuses a session. -/
theorem session_table_unique {freed : Session} {m : SessionMod}
    (h : Reaches SessionCall.step (fun _ c => c.Valid) (.init freed) m) :
    Unique m.sessionList ∧
      (∀ fd, 0 ≤ fd → (m.sessionList.filter (SessionNode.hasFd fd)).length ≤ 1) ∧
      (∀ c : SessionCall, c.Valid → ∃ b m', c.exec m = some (b, m') ∧
        (c.isAdd → b = false → m' = m) ∧
        (∀ fd, c = .delFd fd → ∀ n ∈ m.sessionList, n ∉ m'.sessionList →
          n.session.sType = .fd)) := by
  have hkeyed : Keyed m := h.invariant (.init freed) fun hm hc hstep => hm.step hc hstep
  refine ⟨hkeyed.unique, fun fd hfd => hkeyed.length_hasFd hfd, fun c hc => ?_⟩
  obtain ⟨b, m', hexec, -, hsame⟩ := hkeyed.exec hc
  refine ⟨b, m', hexec, hsame, ?_⟩
  rintro fd rfl n hn hgone
  obtain ⟨rfl, rfl⟩ := Prod.mk.inj (Option.some.inj ((hkeyed.settled.delAll _).symm.trans hexec))
  exact hkeyed.delFd_removes hc hn hgone

/-- A session on connection 5 and a token for `ann`; the second session is refused. -/
theorem session_table_unique_ann :
    let s : Session := ⟨accountMenu, lit "ann", 0, .fd, lit "t", 5⟩
    ∃ m, Reaches SessionCall.step (fun _ c => c.Valid) (.init s) m ∧
      m.sessionList.map (·.session.fd) = [5, -1] ∧ Unique m.sessionList := by
  intro s
  have hrun : Reaches SessionCall.step (fun _ c => c.Valid) (.init s)
      ⟨[⟨0, sessionForFd s⟩, ⟨1, sessionForToken s⟩],
        Function.update (Function.update (fun _ => 0) 0 0) 1 0, 2, false, [], false, s⟩ := by
    refine .head (e := .addFd s) (show (0 : ℤ) ≤ 5 by decide) rfl ?_
    refine .head (e := .addToken s) (show s.token.bytes ≠ [] by decide) rfl ?_
    exact .head (e := .addFd s) (show (0 : ℤ) ≤ 5 by decide) rfl .refl
  exact ⟨_, hrun, rfl, (session_table_unique hrun).1⟩

end Youmenu.Server
