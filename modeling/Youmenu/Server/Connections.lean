import Youmenu.Server.References

/-!
# Connections: `ep_socket.c`, `ep_service.c` and `ep_io_processor`

The event loop accepts, reads and closes, the sender closes a connection on which
it cannot write, and the workers handle requests. The source names a connection by
its file descriptor, and a number comes back after `close`; here every connection
also has a generation, which no function of the source reads.

A step of a handler is one call of the session module or of the database, as
`References` has them.

## Main definitions

* `Network`, `Network.step` — the threads and what they share.
* `RepliesOwn` — replies are queued for the connection of their request.
* `SessionsOwn` — sessions belong to open connections.
* `Unhurried` — no login is under way when its connection is closed, and no number
  comes back too early.
-/

namespace Youmenu.Server

open Eventpack Transition

/-! ## The source -/

/-- A connection: the `gen`-th that was accepted, under the number `fd`. -/
structure Conn where
  fd : ℕ
  gen : ℕ
deriving DecidableEq

/-- What was received. `res_version_check` and the exchange of keys use neither the
sessions nor the database. -/
inductive Body where
  | request (kind : Kind) (pack : Pack) (junk : Junk)
  | other (reply : Reply)

def Body.isLogin : Body → Bool
  | .request .accountLogin _ _ => true
  | _ => false

/-- `ep_io_task_t`; the source only has the number of the connection. -/
structure Task where
  conn : Conn
  body : Body

/-- What `ep_disp_processor` calls. -/
def Task.handler (t : Task) : Handler Reply :=
  match t.body with
  | .request kind pack junk => Request.handler ⟨kind, t.conn.fd, pack, junk⟩
  | .other reply => .ret reply

/-- Where a worker stands to the lock of `ep_disp_processor`. -/
inductive Stage where
  | before
  | inside
  | after
deriving DecidableEq

/-- A thread of the pool inside `ep_io_processor`, with what is left of the handler. -/
structure Worker where
  task : Task
  stage : Stage
  rest : Handler Reply

/-- The two threads that close connections. -/
inductive Closer where
  | loop
  | sender
deriving DecidableEq

/-- What a thread still has to do to a connection. -/
inductive CloseAct where
  /-- `close`. -/
  | closeFd
  /-- `ep_io_del` as `ep_service_on_read` calls it. -/
  | ioDel
  /-- `ep_service_on_close` up to its call of `service_event_cb`. -/
  | onClose
  /-- `service_event_cb`. -/
  | event
deriving DecidableEq

structure Closing where
  fd : ℕ
  acts : List CloseAct

/-- A reply in the send queue of an element of `io_list`: the connection of the request,
the generation for which the element was made and the one that has the number. -/
structure Queued where
  request : Conn
  element : ℕ
  receiver : Option ℕ

/-- `current` is the generation of the last connection with a number and `opened` says
if it is still open. `io_list` never has two elements with the same number, so it is
a map. `owner` has the request whose handler added a session, by address. -/
structure Network (δ : Type) where
  current : ℕ → Option ℕ
  opened : ℕ → Bool
  nextGen : ℕ
  ioList : ℕ → Option ℕ
  tasks : List Task
  workers : List Worker
  closing : Closer → Option Closing
  mod : SessionMod
  contents : δ
  owner : ℕ → Option Task
  queued : List Queued

inductive NetworkEvent where
  /-- `aeAcceptTcpHandler`. -/
  | accept (fd : ℕ)
  /-- `aeReadFromClient` gets whole requests. -/
  | read (fd : ℕ) (bodies : List Body)
  /-- `aeReadFromClient` gets an error or the end of the connection, also where the send thread
  has just closed it. -/
  | hangUp (fd : ℕ)
  /-- `aeReadFromClient` gets whole requests and then a bad one. -/
  | refuse (fd : ℕ) (bodies : List Body)
  /-- `service_core_send` cannot write. -/
  | sendFail (fd : ℕ)
  /-- The next act of a thread that closes a connection. -/
  | act (closer : Closer)
  /-- A worker takes the first task. -/
  | take
  /-- A worker takes the first task and cannot decode it. -/
  | discard
  /-- A worker gets the lock of the dispatcher: handlers run one at a time. -/
  | enter (i : ℕ)
  /-- The next call of a worker. -/
  | work (i : ℕ)
  /-- The handler returns. -/
  | leave (i : ℕ)
  /-- The end of `ep_io_processor`. -/
  | reply (i : ℕ)
  /-- The same for a request that wants no reply, or whose reply cannot be encoded. -/
  | drop (i : ℕ)

/-- The size of the thread pool. -/
def nprocessors : ℕ := 10

namespace Network

variable {δ : Type}

/-- After `server_init_network`. -/
def init (freed : Session) (d : δ) : Network δ :=
  ⟨fun _ => none, fun _ => false, 0, fun _ => none, [], [], fun _ => none, .init freed, d,
    fun _ => none, []⟩

/-- The thread is not in the middle of a close. -/
def idle (s : Network δ) (closer : Closer) : Bool := (s.closing closer).isNone

def setClosing (s : Network δ) (closer : Closer) (fd : ℕ) (acts : List CloseAct) : Network δ :=
  { s with
    closing := Function.update s.closing closer (if acts = [] then none else some ⟨fd, acts⟩) }

/-- `ep_service_on_accept`. -/
def accept (s : Network δ) (fd : ℕ) : Network δ :=
  { s with current := Function.update s.current fd (some s.nextGen)
           opened := Function.update s.opened fd true
           nextGen := s.nextGen + 1
           ioList := Function.update s.ioList fd (some ((s.ioList fd).getD s.nextGen)) }

/-- `ep_io_request_dispatcher`. -/
def dispatch (s : Network δ) (conn : Conn) (bodies : List Body) : Network δ :=
  { s with tasks := s.tasks ++ bodies.map (⟨conn, ·⟩) }

/-- One act on a connection, with the acts that are left. -/
def closeAct (s : Network δ) (fd : ℕ) (acts : List CloseAct) :
    CloseAct → Option (Network δ × List CloseAct)
  | .closeFd => some ({ s with opened := Function.update s.opened fd false }, acts)
  | .ioDel => some ({ s with ioList := Function.update s.ioList fd none }, acts)
  | .onClose =>
    match s.ioList fd with
    | none => some (s, acts)
    | some _ => some ({ s with ioList := Function.update s.ioList fd none }, .event :: acts)
  | .event => (s.mod.delAll (SessionNode.hasFd fd)).map fun r => ({ s with mod := r.2 }, acts)

/-- The owner of the session that a call may add. -/
def ownerAfter (s : Network δ) (t : Task) : Effect → ℕ → Option Task
  | .addFd _ => Function.update s.owner s.mod.next (some t)
  | _ => s.owner

/-- A worker makes one call. -/
def call (db : Db δ) (s : Network δ) (i : ℕ) (t : Task) (e : Effect)
    (k : e.Result → Handler Reply) : Option (Network δ) :=
  (interp db e (s.mod, s.contents)).map fun r =>
    { s with mod := r.2.1
             contents := r.2.2
             workers := s.workers.set i ⟨t, .inside, k r.1⟩
             owner := s.ownerAfter t e }

/-- The worker is done. -/
def finish (s : Network δ) (i : ℕ) : Network δ := { s with workers := s.workers.eraseIdx i }

/-- `ep_io_find` and `ep_queue_push`. -/
def push (s : Network δ) (c : Conn) : Network δ :=
  match s.ioList c.fd with
  | none => s
  | some gen =>
    { s with queued := s.queued ++ [⟨c, gen, s.current c.fd⟩] }

def step (db : Db δ) (s : Network δ) : NetworkEvent → Option (Network δ)
  | .accept fd => if s.idle .loop ∧ s.opened fd = false then some (s.accept fd) else none
  | .read fd bodies => do
    let gen ← s.current fd
    if s.idle .loop ∧ s.opened fd ∧ (s.ioList fd).isSome then
      some (s.dispatch ⟨fd, gen⟩ bodies)
    else none
  | .hangUp fd =>
    if s.idle .loop then some (s.setClosing .loop fd [.closeFd, .onClose]) else none
  | .refuse fd bodies => do
    let gen ← s.current fd
    if s.idle .loop ∧ s.opened fd ∧ ((s.ioList fd).isSome ∨ bodies.isEmpty) then
      some ((s.dispatch ⟨fd, gen⟩ bodies).setClosing .loop fd
        [.ioDel, .event, .closeFd, .onClose])
    else none
  -- `ep_io_routine` calls `ep_service_on_close` once more
  | .sendFail fd =>
    if s.idle .sender ∧ s.queued.any (·.request.fd = fd) then
      some (s.setClosing .sender fd [.closeFd, .onClose, .onClose])
    else none
  | .act closer =>
    match s.closing closer with
    | some ⟨fd, a :: acts⟩ => (s.closeAct fd acts a).map fun r => r.1.setClosing closer fd r.2
    | _ => none
  | .take =>
    match s.tasks with
    | [] => none
    | t :: tasks =>
      if s.workers.length < nprocessors then
        some { s with tasks := tasks, workers := s.workers ++ [⟨t, .before, t.handler⟩] }
      else none
  | .discard =>
    match s.tasks with
    | [] => none
    | _ :: tasks =>
      if s.workers.length < nprocessors then some { s with tasks := tasks } else none
  | .enter i =>
    match s.workers[i]? with
    | some ⟨t, .before, p⟩ =>
      if s.workers.all (·.stage ≠ .inside) then
        some { s with workers := s.workers.set i ⟨t, .inside, p⟩ }
      else none
    | _ => none
  | .work i =>
    match s.workers[i]? with
    | some ⟨t, .inside, .call e k⟩ => s.call db i t e k
    | _ => none
  | .leave i =>
    match s.workers[i]? with
    | some ⟨t, .inside, .ret reply⟩ =>
      some { s with workers := s.workers.set i ⟨t, .after, .ret reply⟩ }
    | _ => none
  | .reply i =>
    match s.workers[i]? with
    | some ⟨t, .after, _⟩ => some ((s.push t.conn).finish i)
    | _ => none
  | .drop i =>
    match s.workers[i]? with
    | some ⟨_, .after, _⟩ => some (s.finish i)
    | _ => none

/-! ## Replies and sessions -/

/-- Requests that are queued or being handled. -/
def inFlight (s : Network δ) : List Task := s.tasks ++ s.workers.map (·.task)

/-- A thread is about to close the connection with this number. -/
def ClosingOn (s : Network δ) (fd : ℕ) : Prop :=
  ∃ closer k, s.closing closer = some k ∧ k.fd = fd

/-- A connection is open until its close has returned. -/
def IsOpen (s : Network δ) (c : Conn) : Prop :=
  s.current c.fd = some c.gen ∧ (s.opened c.fd = true ∨ s.ClosingOn c.fd)

/-- Every reply was queued for the connection on which its request was received. -/
def RepliesOwn (s : Network δ) : Prop :=
  ∀ q ∈ s.queued, q.element = q.request.gen ∧ q.receiver = some q.request.gen

/-- Every session of a connection was added by a login that was received on it, and the
connection is open. -/
def SessionsOwn (s : Network δ) : Prop :=
  ∀ n ∈ s.mod.sessionList, n.session.sType = .fd →
    ∃ t, s.owner n.addr = some t ∧ t.body.isLogin ∧ n.session.fd = t.conn.fd ∧ s.IsOpen t.conn

/-- A close begins when no login of the connection is queued or being handled, none is
read while it lasts, and the number is not given to another connection before the close is
over and all requests of the old one are done. -/
def Unhurried (s : Network δ) : NetworkEvent → Prop
  | .accept fd => ¬ s.ClosingOn fd ∧ ∀ t ∈ s.inFlight, t.conn.fd ≠ fd
  | .read fd bodies => s.ClosingOn fd → ∀ b ∈ bodies, b.isLogin = false
  | .hangUp fd => ∀ t ∈ s.inFlight, t.conn.fd = fd → t.body.isLogin = false
  | .sendFail fd => ∀ t ∈ s.inFlight, t.conn.fd = fd → t.body.isLogin = false
  | .refuse fd bodies =>
    (∀ t ∈ s.inFlight, t.conn.fd = fd → t.body.isLogin = false) ∧
      ∀ b ∈ bodies, b.isLogin = false
  | _ => True

end Network

/-! ## The table of sessions -/

section Table

variable {δ : Type} {db : Db δ} {m m' : SessionMod}

theorem SessionMod.lock_table (h : m.lock = some m') :
    m'.sessionList = m.sessionList ∧ m'.next = m.next := by
  unfold lock at h
  split_ifs at h
  obtain rfl := Option.some.inj h
  exact ⟨rfl, rfl⟩

theorem SessionMod.refAll_table {found : List SessionNode} {r : Option ℕ}
    (h : m.refAll found = some (r, m')) :
    m'.sessionList = m.sessionList ∧ m'.next = m.next := by
  have hget : ∀ (found : List SessionNode) (m : SessionMod),
      (found.foldl (fun m n => m.prefGet n.addr) m).sessionList = m.sessionList ∧
        (found.foldl (fun m n => m.prefGet n.addr) m).next = m.next := by
    intro found
    induction found with
    | nil => exact fun m => ⟨rfl, rfl⟩
    | cons n found ih => exact fun m => ih (m.prefGet n.addr)
  simp only [refAll] at h
  split at h
  · obtain ⟨-, rfl⟩ := Prod.mk.inj (Option.some.inj h)
    exact hget found m
  · obtain ⟨m₁, hlock, heq⟩ := Option.map_eq_some_iff.mp h
    obtain ⟨-, rfl⟩ := Prod.mk.inj heq
    obtain ⟨hlist, hnext⟩ := lock_table hlock
    exact ⟨hlist.trans (hget found m).1, hnext.trans (hget found m).2⟩

theorem SessionMod.refToken_table {token : CString} {r : Option ℕ}
    (h : m.refToken token = some (r, m')) :
    m'.sessionList = m.sessionList ∧ m'.next = m.next := by
  unfold refToken at h
  split at h
  · obtain ⟨-, rfl⟩ := Prod.mk.inj (Option.some.inj h)
    exact ⟨rfl, rfl⟩
  · obtain ⟨m₁, hlock, heq⟩ := Option.map_eq_some_iff.mp h
    obtain ⟨-, rfl⟩ := Prod.mk.inj heq
    exact ⟨(lock_table hlock).1, (lock_table hlock).2⟩

theorem SessionMod.dref_table (session : ℕ) :
    (m.dref session).sessionList = m.sessionList ∧ (m.dref session).next = m.next := by
  unfold dref
  split
  · exact ⟨rfl, rfl⟩
  · exact ⟨rfl, rfl⟩

/-- A deletion leaves no session that it was looking for. -/
theorem SessionMod.delAll_table {hit : SessionNode → Bool} {b : Bool}
    (h : m.delAll hit = some (b, m')) :
    m'.next = m.next ∧ ∀ n ∈ m'.sessionList, n ∈ m.sessionList ∧ hit n = false := by
  rw [SessionMod.delAll_eq h]
  refine ⟨rfl, fun n hn => ?_⟩
  obtain ⟨hmem, hkept⟩ := List.mem_filter.mp hn
  refine ⟨hmem, Bool.eq_false_iff.mpr fun hhit => ?_⟩
  simpa using List.all_eq_true.mp hkept n (List.mem_filter.mpr ⟨hmem, hhit⟩)

theorem SessionMod.add_table {s : Session} {b : Bool} (h : m.add s = some (b, m')) :
    m.next ≤ m'.next ∧ ∀ n ∈ m'.sessionList,
      n ∈ m.sessionList ∨ n = ⟨m.next, s⟩ ∧ m.next < m'.next := by
  obtain ⟨m₁, hlock, h⟩ := Option.bind_eq_some_iff.mp h
  obtain ⟨hlist, hnext⟩ := lock_table hlock
  split_ifs at h
  · obtain ⟨-, rfl⟩ := Prod.mk.inj (Option.some.inj h)
    exact ⟨hnext.ge, fun n hn => .inl (hlist ▸ hn)⟩
  · obtain ⟨-, rfl⟩ := Prod.mk.inj (Option.some.inj h)
    refine ⟨by simp [hnext], fun n hn => ?_⟩
    rcases List.mem_append.mp hn with hn | hn
    · exact .inl (hlist ▸ hn)
    · rw [List.mem_singleton] at hn
      exact .inr ⟨by rw [hn, hnext], by simp [hnext]⟩

/-- A call adds at most one session, at a new address, and one for a connection only if
the call is `session_add_fd`. -/
theorem interp_table {e : Effect} {d d' : δ} {r : e.Result}
    (h : interp db e (m, d) = some (r, m', d')) :
    m.next ≤ m'.next ∧ ∀ n ∈ m'.sessionList, n ∈ m.sessionList ∨
      (n.addr = m.next ∧ m.next < m'.next ∧
        (n.session.sType = .fd → ∃ s, e = .addFd s ∧ n.session.fd = s.fd)) := by
  have hsame : m'.sessionList = m.sessionList ∧ m'.next = m.next →
      m.next ≤ m'.next ∧ ∀ n ∈ m'.sessionList, n ∈ m.sessionList ∨
        (n.addr = m.next ∧ m.next < m'.next ∧
          (n.session.sType = .fd → ∃ s, e = .addFd s ∧ n.session.fd = s.fd)) :=
    fun ⟨hlist, hnext⟩ => ⟨hnext.ge, fun n hn => .inl (hlist ▸ hn)⟩
  cases e with
  | refFd fd =>
    obtain ⟨⟨r₁, m₁⟩, href, ⟨⟩⟩ := Option.map_eq_some_iff.mp h
    exact hsame (SessionMod.refAll_table href)
  | refUid uid type =>
    obtain ⟨⟨r₁, m₁⟩, href, ⟨⟩⟩ := Option.map_eq_some_iff.mp h
    exact hsame (SessionMod.refAll_table href)
  | refToken token =>
    obtain ⟨⟨r₁, m₁⟩, href, ⟨⟩⟩ := Option.map_eq_some_iff.mp h
    exact hsame (SessionMod.refToken_table href)
  | dref session =>
    obtain ⟨⟩ := Option.some.inj h
    exact hsame (SessionMod.dref_table session)
  | read session =>
    obtain ⟨⟩ := Option.some.inj h
    exact hsame ⟨rfl, rfl⟩
  | delFd fd =>
    obtain ⟨⟨b, m₁⟩, hdel, ⟨⟩⟩ := Option.map_eq_some_iff.mp h
    obtain ⟨hnext, hlist⟩ := SessionMod.delAll_table hdel
    exact ⟨hnext.ge, fun n hn => .inl (hlist n hn).1⟩
  | delToken uid =>
    obtain ⟨⟨b, m₁⟩, hdel, ⟨⟩⟩ := Option.map_eq_some_iff.mp h
    obtain ⟨hnext, hlist⟩ := SessionMod.delAll_table hdel
    exact ⟨hnext.ge, fun n hn => .inl (hlist n hn).1⟩
  | addFd s =>
    obtain ⟨⟨b, m₁⟩, hadd, ⟨⟩⟩ := Option.map_eq_some_iff.mp h
    obtain ⟨hnext, hlist⟩ := SessionMod.add_table hadd
    refine ⟨hnext, fun n hn => (hlist n hn).imp_right ?_⟩
    rintro ⟨rfl, hlt⟩
    exact ⟨rfl, hlt, fun _ => ⟨s, rfl, rfl⟩⟩
  | addToken s =>
    obtain ⟨⟨b, m₁⟩, hadd, ⟨⟩⟩ := Option.map_eq_some_iff.mp h
    obtain ⟨hnext, hlist⟩ := SessionMod.add_table hadd
    refine ⟨hnext, fun n hn => (hlist n hn).imp_right ?_⟩
    rintro ⟨rfl, hlt⟩
    exact ⟨rfl, hlt, nofun⟩
  | db op =>
    obtain ⟨⟩ := Option.some.inj h
    exact hsame ⟨rfl, rfl⟩

end Table

/-! ## Handlers that add sessions -/

section Handlers

open Program

/-- Only a login adds a session of a connection, and only for its own. -/
def AddsFor (t : Task) : Effect → Prop
  | .addFd s => t.body.isLogin ∧ s.fd = t.conn.fd
  | _ => True

def NoAddFd : Effect → Prop
  | .addFd _ => False
  | _ => True

theorem NoAddFd.addsFor (t : Task) : ∀ e, NoAddFd e → AddsFor t e
  | .addFd _, h => h.elim
  | .refFd _, _ | .refUid _ _, _ | .refToken _, _ | .dref _, _ | .read _, _ | .delFd _, _
  | .delToken _, _ | .addToken _, _ | .db _, _ => trivial

theorem IsDb.noAddFd : ∀ e, IsDb e → NoAddFd e := by
  rintro _ ⟨op, rfl⟩
  trivial

theorem only_resHeartbeat (fd : ℕ) : (resHeartbeat fd).Only NoAddFd := by
  refine only_perform trivial fun session => ?_
  split
  · trivial
  · exact only_perform trivial fun _ => only_perform trivial fun _ => trivial

theorem only_resAccountLogout (fd : ℕ) : (resAccountLogout fd).Only NoAddFd := by
  refine only_perform trivial fun session => ?_
  split
  · trivial
  · exact only_perform trivial fun _ => only_perform trivial fun _ => trivial

theorem only_resAccountCreate (junk : Junk) (fd : ℕ) (pack : Pack) :
    (resAccountCreate junk fd pack).Only NoAddFd := by
  simp only [resAccountCreate]
  split
  · refine only_perform trivial fun session => ?_
    split
    · trivial
    refine only_perform trivial fun _ => only_perform trivial fun _ => ?_
    refine only_perform trivial fun s => ?_
    split
    · trivial
    · exact (only_createAccount _).mono IsDb.noAddFd
  · trivial

theorem only_resAccountModifyPwd (junk : Junk) (fd : ℕ) (pack : Pack) :
    (resAccountModifyPwd junk fd pack).Only NoAddFd := by
  simp only [resAccountModifyPwd]
  split_ifs
  · trivial
  · trivial
  refine only_perform trivial fun session => ?_
  split
  · trivial
  refine only_perform trivial fun known => ?_
  split
  · refine only_perform trivial fun s => only_perform trivial fun updated => ?_
    refine only_perform trivial fun _ => ?_
    split
    · trivial
    · trivial
  · exact only_perform trivial fun _ => trivial

theorem only_resAccountModifyBasic (junk : Junk) (fd : ℕ) (pack : Pack) :
    (resAccountModifyBasic junk fd pack).Only NoAddFd := by
  refine only_perform trivial fun session => ?_
  split
  · trivial
  refine only_perform trivial fun s => only_perform trivial fun nick => ?_
  split
  · refine only_perform trivial fun s => only_perform trivial fun comment => ?_
    split
    · trivial
    · trivial
  · trivial

theorem only_deleteOwn (fd : ℕ) (uid : CString) (session : ℕ) :
    (deleteOwn fd uid session).Only NoAddFd := by
  refine only_perform trivial fun s => Only.bind ?_ fun last => ?_
  · unfold lastAdmin
    split
    · exact only_perform trivial fun _ => trivial
    · trivial
  split
  · exact only_perform trivial fun _ => trivial
  · refine only_perform trivial fun _ => only_perform trivial fun _ => ?_
    exact only_perform trivial fun _ => only_perform trivial fun _ => trivial

theorem only_deleteOther (uid : CString) (session : ℕ) :
    (deleteOther uid session).Only NoAddFd := by
  refine only_perform trivial fun s => ?_
  split
  · exact only_perform trivial fun _ => trivial
  · exact only_perform trivial fun _ => only_perform trivial fun _ => trivial

theorem only_resAccountDelete (junk : Junk) (fd : ℕ) (pack : Pack) :
    (resAccountDelete junk fd pack).Only NoAddFd := by
  simp only [resAccountDelete]
  split
  · refine only_perform trivial fun session => ?_
    split
    · trivial
    refine only_perform trivial fun s => only_perform trivial fun known => ?_
    split
    · refine only_perform trivial fun s => ?_
      split
      · exact only_deleteOwn fd _ _
      · exact only_deleteOther _ _
    · trivial
  · trivial

theorem Guarded.only {fd : ℕ} {p : Handler Reply} (hp : Guarded fd p) : p.Only NoAddFd := by
  obtain ⟨allowed, expired, denied, k, rfl, hreply, hnone⟩ := hp
  refine Only.bind (only_perform trivial fun session => ?_) ?_
  · split
    · trivial
    · exact only_perform trivial fun _ => only_perform trivial fun _ => trivial
  · rintro (_ | reply)
    · exact hnone.mono IsDb.noAddFd
    · rw [hreply]
      trivial

theorem only_resSeatList (fd : ℕ) : (resSeatList fd).Only NoAddFd := by
  refine only_perform trivial fun session => ?_
  split
  · trivial
  refine only_perform trivial fun _ => only_perform trivial fun seats => ?_
  split
  · trivial
  · trivial

/-- Calls of the session module other than `session_add_fd`. -/
def OnSessions : Effect → Prop
  | .addFd _ | .db _ => False
  | _ => True

theorem OnSessions.addsFor (t : Task) : ∀ e, OnSessions e → AddsFor t e
  | .addFd _, h | .db _, h => h.elim
  | .refFd _, _ | .refUid _ _, _ | .refToken _, _ | .dref _, _ | .read _, _ | .delFd _, _
  | .delToken _, _ | .addToken _, _ => trivial

theorem only_dropSession (old : Option ℕ) : (dropSession old).Only OnSessions := by
  cases old with
  | none => trivial
  | some old =>
    refine only_perform trivial fun _ => only_perform trivial fun _ => ?_
    exact only_perform trivial fun _ => trivial

theorem only_resAccountCheckSessionExist (uid : CString) (fd : ℕ) :
    (resAccountCheckSessionExist uid fd).Only OnSessions := by
  refine only_perform trivial fun old => Only.bind (only_dropSession old) fun another => ?_
  exact only_perform trivial fun old => Only.bind (only_dropSession old) fun same => trivial

theorem only_loginToken (s : Session) (guid : CString) : (loginToken s guid).Only OnSessions := by
  refine only_perform trivial fun old => Only.bind ?_ fun _ => ?_
  · cases old with
    | none => trivial
    | some old =>
      refine only_perform trivial fun _ => only_perform trivial fun _ => ?_
      exact only_perform trivial fun _ => trivial
  · exact only_perform trivial fun _ => trivial

section Login

variable {t : Task} (ht : t.body.isLogin)

include ht

theorem only_loginByPwd (junk : Junk) (p : LoginParam) :
    (loginByPwd junk t.conn.fd p).Only (AddsFor t) := by
  refine only_perform trivial fun user => ?_
  split
  · trivial
  refine only_perform trivial fun known => ?_
  split
  · refine Only.bind ?_ fun conflict => only_perform trivial fun account => ?_
    · exact (only_resAccountCheckSessionExist _ _).mono (OnSessions.addsFor t)
    split
    · trivial
    refine only_perform ⟨ht, rfl⟩ fun _ => ?_
    simp only
    split
    · exact ((only_loginToken _ _).mono (OnSessions.addsFor t)).bind fun token => trivial
    · trivial
  · trivial

theorem only_loginByToken (token : CString) :
    (loginByToken t.conn.fd token).Only (AddsFor t) := by
  refine only_perform trivial fun old => ?_
  split
  · trivial
  refine only_perform trivial fun s => only_perform trivial fun _ => ?_
  refine Only.bind ?_ fun conflict => only_perform ⟨ht, rfl⟩ fun _ => ?_
  · exact (only_resAccountCheckSessionExist _ _).mono (OnSessions.addsFor t)
  refine only_perform trivial fun account => ?_
  split
  · trivial
  · trivial

theorem only_resAccountLogin (junk : Junk) (pack : Pack) :
    (resAccountLogin junk t.conn.fd pack).Only (AddsFor t) := by
  simp only [resAccountLogin]
  split_ifs
  · exact only_loginByPwd ht junk _
  · exact only_loginByToken ht _
  · trivial

end Login

theorem Task.only_handler (t : Task) : t.handler.Only (AddsFor t) := by
  obtain ⟨conn, ⟨kind, pack, junk⟩ | reply⟩ := t
  · have hother : ∀ {p : Handler Reply}, p.Only NoAddFd →
        p.Only (AddsFor ⟨conn, .request kind pack junk⟩) := fun hp => hp.mono (NoAddFd.addsFor _)
    cases kind with
    | accountLogin =>
      exact only_resAccountLogin (t := ⟨conn, .request .accountLogin pack junk⟩) rfl junk pack
    | heartbeat => exact hother (only_resHeartbeat _)
    | accountLogout => exact hother (only_resAccountLogout _)
    | accountCreate => exact hother (only_resAccountCreate _ _ _)
    | accountModifyPwd => exact hother (only_resAccountModifyPwd _ _ _)
    | accountModifyBasic => exact hother (only_resAccountModifyBasic _ _ _)
    | accountDelete => exact hother (only_resAccountDelete _ _ _)
    | accountList => exact hother (guarded_resAccountList _).only
    | dishFetch => exact hother (guarded_resDishFetch _ _).only
    | dishBook => exact hother (guarded_resDishBook _ _ _).only
    | dishCancel => exact hother (guarded_resDishCancel _ _).only
    | dishList => exact hother (guarded_resDishList _ _).only
    | seatList => exact hother (only_resSeatList _)
    | cookAccept => exact hother (guarded_resCookAccept _ _).only
  · trivial

end Handlers

/-! ## The invariant -/

/-- `ep_io_del` is followed by an event and `close` by `ep_service_on_close`. -/
def Complete : List CloseAct → Prop
  | [] => True
  | .closeFd :: acts => .onClose ∈ acts ∧ Complete acts
  | .ioDel :: acts => .event ∈ acts ∧ Complete acts
  | .onClose :: acts | .event :: acts => Complete acts

namespace Network

variable {δ : Type} {db : Db δ} {s : Network δ} {closer : Closer} {fd : ℕ} {acts : List CloseAct}

/-- A thread still has to do this to the connection. -/
def Pending (s : Network δ) (fd : ℕ) (a : CloseAct) : Prop :=
  ∃ closer k, s.closing closer = some k ∧ k.fd = fd ∧ a ∈ k.acts

/-- The number of a connection belongs to it as long as something else refers to it by
that number: a request, an element of `io_list` or a session. What refers to a closed
connection is about to be deleted. -/
structure Sound (s : Network δ) : Prop where
  tasks : ∀ t ∈ s.inFlight, s.current t.conn.fd = some t.conn.gen
  elements : ∀ fd gen, s.ioList fd = some gen → s.current fd = some gen
  closed : ∀ fd, s.opened fd = false → s.ioList fd = none ∨ s.Pending fd .onClose
  complete : ∀ closer k, s.closing closer = some k → Complete k.acts
  logins : ∀ t ∈ s.inFlight, t.body.isLogin →
    (s.ioList t.conn.fd).isSome ∧ ¬ s.ClosingOn t.conn.fd
  programs : ∀ w ∈ s.workers, w.rest.Only (AddsFor w.task)
  old : ∀ n ∈ s.mod.sessionList, n.addr < s.mod.next
  sessions : ∀ n ∈ s.mod.sessionList, n.session.sType = .fd →
    ∃ t, s.owner n.addr = some t ∧ t.body.isLogin ∧ n.session.fd = t.conn.fd ∧
      s.current t.conn.fd = some t.conn.gen ∧
        ((s.ioList t.conn.fd).isSome ∨ s.Pending t.conn.fd .event)
  replies : RepliesOwn s

theorem Sound.init (freed : Session) (d : δ) : Sound (.init freed d) := by
  have hlist : ((Network.init freed d).mod.sessionList : List SessionNode) = [] := rfl
  refine ⟨?_, ?_, fun _ _ => .inl rfl, ?_, ?_, ?_, ?_, ?_, ?_⟩
  · simp [inFlight, Network.init]
  · simp [Network.init]
  · simp [Network.init]
  · simp [inFlight, Network.init]
  · simp [Network.init]
  · simp [hlist]
  · simp [hlist]
  · simp [RepliesOwn, Network.init]

/-- A session whose connection is closed is about to be deleted. -/
theorem Sound.sessionsOwn (h : Sound s) : SessionsOwn s := by
  intro n hn htype
  obtain ⟨t, howner, hlogin, hfd, hcurrent, hkept⟩ := h.sessions n hn htype
  refine ⟨t, howner, hlogin, hfd, hcurrent, ?_⟩
  cases hopened : s.opened t.conn.fd with
  | true => exact .inl rfl
  | false =>
    have hpending : ∀ {a}, s.Pending t.conn.fd a → s.ClosingOn t.conn.fd :=
      fun ⟨closer, k, hk, hfd, _⟩ => ⟨closer, k, hk, hfd⟩
    rcases hkept with hsome | hevent
    · rcases h.closed _ hopened with hnone | honClose
      · simp [hnone] at hsome
      · exact .inr (hpending honClose)
    · exact .inr (hpending hevent)

/-! ## Acts on a connection -/

theorem setClosing_eq (hacts : acts ≠ []) :
    (s.setClosing closer fd acts).closing closer = some ⟨fd, acts⟩ := by
  simp [setClosing, hacts]

theorem setClosing_of_ne {c : Closer} (hne : c ≠ closer) :
    (s.setClosing closer fd acts).closing c = s.closing c := by
  simp [setClosing, hne]

theorem setClosing_cases {c : Closer} {k : Closing}
    (hk : (s.setClosing closer fd acts).closing c = some k) :
    k = ⟨fd, acts⟩ ∨ s.closing c = some k := by
  by_cases hc : c = closer
  · subst hc
    by_cases hacts : acts = []
    · simp [setClosing, hacts] at hk
    · rw [setClosing_eq hacts] at hk
      exact .inl (Option.some.inj hk).symm
  · exact .inr (setClosing_of_ne hc ▸ hk)

theorem ClosingOn.of_setClosing {fd' : ℕ} (h : (s.setClosing closer fd acts).ClosingOn fd') :
    fd' = fd ∨ s.ClosingOn fd' := by
  obtain ⟨c, k, hk, rfl⟩ := h
  rcases setClosing_cases hk with rfl | hk
  · exact .inl rfl
  · exact .inr ⟨c, k, hk, rfl⟩

theorem pending_setClosing {a : CloseAct} (ha : a ∈ acts) :
    (s.setClosing closer fd acts).Pending fd a :=
  ⟨closer, _, setClosing_eq (List.ne_nil_of_mem ha), rfl, ha⟩

/-- The acts of the other thread stay. -/
theorem Pending.setClosing {fd' : ℕ} {a : CloseAct} (h : s.Pending fd' a)
    (hsame : ∀ k, s.closing closer = some k → k.fd = fd' → a ∈ k.acts → fd' = fd ∧ a ∈ acts) :
    (s.setClosing closer fd acts).Pending fd' a := by
  obtain ⟨c, k, hk, hfd, ha⟩ := h
  by_cases hc : c = closer
  · subst hc
    obtain ⟨rfl, hmem⟩ := hsame k hk hfd ha
    exact pending_setClosing hmem
  · exact ⟨c, k, (setClosing_of_ne hc).trans hk, hfd, ha⟩

/-- A thread starts to close a connection. -/
theorem Sound.start (h : Sound s) (hidle : s.idle closer) (hcomplete : Complete acts)
    (hlogin : ∀ t ∈ s.inFlight, t.conn.fd = fd → t.body.isLogin = false) :
    Sound (s.setClosing closer fd acts) := by
  have hnone : s.closing closer = none := Option.isNone_iff_eq_none.mp hidle
  have hpending : ∀ {fd' a}, s.Pending fd' a → (s.setClosing closer fd acts).Pending fd' a :=
    fun hp => hp.setClosing fun k hk => by simp [hnone] at hk
  exact
    { h with
      closed := fun fd' hopened => (h.closed fd' hopened).imp_right hpending
      complete := by
        intro c k hk
        rcases setClosing_cases hk with rfl | hk
        · exact hcomplete
        · exact h.complete c k hk
      logins := by
        intro t ht htlogin
        obtain ⟨hsome, hopen⟩ := h.logins t ht htlogin
        refine ⟨hsome, fun hclosing => ?_⟩
        rcases hclosing.of_setClosing with heq | hclosing
        · simp [hlogin t ht heq] at htlogin
        · exact hopen hclosing
      sessions := by
        intro n hn htype
        obtain ⟨t, howner, hlogin, hfd, hcurrent, hkept⟩ := h.sessions n hn htype
        exact ⟨t, howner, hlogin, hfd, hcurrent, hkept.imp_right hpending⟩ }

/-- One act on a connection, by what it leaves of the connection. -/
theorem Sound.advance (h : Sound s) {a : CloseAct} {acts' : List CloseAct}
    (hclosing : s.closing closer = some ⟨fd, a :: acts⟩) {s' : Network δ}
    {opened : ℕ → Bool} {ioList : ℕ → Option ℕ} {mod : SessionMod}
    (hs' : s' =
      { s with opened := opened, ioList := ioList, mod := mod }.setClosing closer fd acts')
    (hopened : ∀ fd', fd' ≠ fd → opened fd' = s.opened fd')
    (hioList : ∀ fd', ioList fd' = s.ioList fd' ∨ fd' = fd ∧ ioList fd' = none)
    (hmod : mod.next = s.mod.next ∧ ∀ n ∈ mod.sessionList, n ∈ s.mod.sessionList)
    (hcomplete : Complete acts')
    (hclosed : opened fd = false → ioList fd = none ∨ s'.Pending fd .onClose)
    (hsessions : ∀ n ∈ mod.sessionList, n.session.fd = fd →
      (s.ioList fd).isSome ∨ s.Pending fd .event → (ioList fd).isSome ∨ s'.Pending fd .event) :
    Sound s' := by
  subst hs'
  have hother : ∀ {fd' b}, fd' ≠ fd → s.Pending fd' b →
      Pending ({ s with opened := opened, ioList := ioList, mod := mod }.setClosing closer fd acts')
        fd' b := by
    intro fd' b hne hp
    refine Pending.setClosing (s := { s with opened := _, ioList := _, mod := _ }) hp ?_
    intro k hk hfd
    obtain rfl := Option.some.inj (hclosing.symm.trans hk)
    exact (hne hfd.symm).elim
  have hsame : ∀ {fd'}, fd' ≠ fd → ioList fd' = s.ioList fd' :=
    fun hne => (hioList _).resolve_right fun hfd => hne hfd.1
  exact
    { h with
      elements := by
        intro fd' gen hgen
        rcases hioList fd' with heq | ⟨-, hnone⟩
        · exact h.elements fd' gen (heq ▸ hgen)
        · simp [setClosing, hnone] at hgen
      closed := by
        intro fd' hfd'
        by_cases hne : fd' = fd
        · subst hne
          exact hclosed hfd'
        · refine (h.closed fd' (hopened fd' hne ▸ hfd')).imp ?_ (hother hne)
          exact fun hnone => (hsame hne).trans hnone
      complete := by
        intro c k hk
        rcases setClosing_cases hk with rfl | hk
        · exact hcomplete
        · exact h.complete c k hk
      logins := by
        intro t ht htlogin
        obtain ⟨hsome, hopen⟩ := h.logins t ht htlogin
        have hne : t.conn.fd ≠ fd := fun hfd => hopen ⟨closer, _, hclosing, hfd.symm⟩
        refine ⟨by simpa [setClosing, hsame hne] using hsome, fun hclosing => ?_⟩
        exact hopen (hclosing.of_setClosing.resolve_left hne)
      old := fun n hn => hmod.1 ▸ h.old n (hmod.2 n hn)
      sessions := by
        intro n hn htype
        obtain ⟨t, howner, hlogin, hfd, hcurrent, hkept⟩ := h.sessions n (hmod.2 n hn) htype
        refine ⟨t, howner, hlogin, hfd, hcurrent, ?_⟩
        by_cases hne : t.conn.fd = fd
        · rw [hne] at hkept hfd ⊢
          exact hsessions n hn hfd hkept
        · refine hkept.imp (fun hsome => ?_) (hother hne)
          simpa [setClosing, hsame hne] using hsome }

theorem Sound.act (h : Sound s) {a : CloseAct} {r : Network δ × List CloseAct}
    (hclosing : s.closing closer = some ⟨fd, a :: acts⟩)
    (hact : s.closeAct fd acts a = some r) : Sound (r.1.setClosing closer fd r.2) := by
  have hcomplete := h.complete closer _ hclosing
  -- an act that is not the one done now stays pending
  have hpending : ∀ {s' : Network δ} {b acts'}, s'.closing = s.closing → b ≠ a → acts ⊆ acts' →
      s.Pending fd b → (s'.setClosing closer fd acts').Pending fd b := by
    intro s' b acts' hsame hne hsub ⟨c, k, hk, hfd, hb⟩
    refine Pending.setClosing ⟨c, k, hsame ▸ hk, hfd, hb⟩ fun k hk _ hb => ⟨rfl, hsub ?_⟩
    obtain rfl := Option.some.inj (hclosing.symm.trans (hsame ▸ hk))
    exact (List.mem_cons.mp hb).resolve_left hne
  have hdel : ∀ fd', Function.update s.ioList fd none fd' = s.ioList fd' ∨
      fd' = fd ∧ Function.update s.ioList fd none fd' = none := by
    intro fd'
    by_cases hfd : fd' = fd
    · exact .inr ⟨hfd, by simp [hfd]⟩
    · exact .inl (by simp [hfd])
  cases a with
  | closeFd =>
    obtain rfl := Option.some.inj hact
    refine h.advance hclosing rfl (fun _ hne => Function.update_of_ne hne _ _) (fun _ => .inl rfl)
      ⟨rfl, fun _ hn => hn⟩ hcomplete.2 ?_ ?_
    · exact fun _ => .inr (pending_setClosing hcomplete.1)
    · exact fun _ _ _ hkept => hkept.imp_right (hpending rfl (by simp) (List.Subset.refl _))
  | ioDel =>
    obtain rfl := Option.some.inj hact
    refine h.advance hclosing rfl (fun _ _ => rfl) hdel ⟨rfl, fun _ hn => hn⟩ hcomplete.2 ?_ ?_
    · exact fun _ => .inl (Function.update_self _ _ _)
    · exact fun _ _ _ _ => .inr (pending_setClosing hcomplete.1)
  | onClose =>
    simp only [closeAct] at hact
    split at hact
    · next hnone =>
      obtain rfl := Option.some.inj hact
      refine h.advance hclosing rfl (fun _ _ => rfl) (fun _ => .inl rfl) ⟨rfl, fun _ hn => hn⟩
        hcomplete (fun _ => .inl hnone) ?_
      exact fun _ _ _ hkept => hkept.imp_right (hpending rfl (by simp) (List.Subset.refl _))
    · obtain rfl := Option.some.inj hact
      refine h.advance hclosing rfl (fun _ _ => rfl) hdel ⟨rfl, fun _ hn => hn⟩ hcomplete ?_ ?_
      · exact fun _ => .inl (Function.update_self _ _ _)
      · exact fun _ _ _ _ => .inr (pending_setClosing List.mem_cons_self)
  | event =>
    obtain ⟨⟨b, m⟩, hdel, rfl⟩ := Option.map_eq_some_iff.mp hact
    obtain ⟨hnext, hlist⟩ := SessionMod.delAll_table hdel
    refine h.advance hclosing rfl (fun _ _ => rfl) (fun _ => .inl rfl)
      ⟨hnext, fun n hn => (hlist n hn).1⟩ hcomplete ?_ ?_
    · exact fun hopened => (h.closed fd hopened).imp_right
        (hpending rfl (by simp) (List.Subset.refl _))
    · intro n hn hfd
      have hmiss := (hlist n hn).2
      simp [SessionNode.hasFd, hfd] at hmiss

/-! ## Accepting and reading -/

/-- Nothing refers to a number that was given back. -/
theorem Sound.accept (h : Sound s) (hopened : s.opened fd = false) (hclosing : ¬ s.ClosingOn fd)
    (htasks : ∀ t ∈ s.inFlight, t.conn.fd ≠ fd) : Sound (s.accept fd) := by
  have hfree : ∀ {a}, ¬ s.Pending fd a := fun ⟨c, k, hk, hfd, _⟩ => hclosing ⟨c, k, hk, hfd⟩
  have hnone : s.ioList fd = none := (h.closed fd hopened).resolve_right hfree
  have hother : ∀ {fd'}, fd' ≠ fd → (s.accept fd).current fd' = s.current fd' ∧
      (s.accept fd).opened fd' = s.opened fd' ∧ (s.accept fd).ioList fd' = s.ioList fd' :=
    fun hne => ⟨Function.update_of_ne hne _ _, Function.update_of_ne hne _ _,
      Function.update_of_ne hne _ _⟩
  have hsome : ∀ fd', (s.ioList fd').isSome → ((s.accept fd).ioList fd').isSome := by
    intro fd' hfd'
    by_cases heq : fd' = fd
    · simp [Network.accept, heq]
    · rwa [(hother heq).2.2]
  exact
    { h with
      tasks := fun t ht => (hother (htasks t ht)).1.trans (h.tasks t ht)
      elements := by
        intro fd' gen hgen
        by_cases heq : fd' = fd
        · subst heq
          simpa [Network.accept, hnone] using hgen
        · exact (hother heq).1.trans (h.elements fd' gen ((hother heq).2.2.symm.trans hgen))
      closed := by
        intro fd' hfd'
        have hne : fd' ≠ fd := by
          rintro rfl
          simp [Network.accept] at hfd'
        obtain ⟨-, hopened', hioList⟩ := hother hne
        exact (h.closed fd' (hopened'.symm.trans hfd')).imp_left hioList.trans
      logins := fun t ht htlogin => (h.logins t ht htlogin).imp_left (hsome _)
      sessions := by
        intro n hn htype
        obtain ⟨t, howner, hlogin, hfd, hcurrent, hkept⟩ := h.sessions n hn htype
        have hne : t.conn.fd ≠ fd := by
          rintro rfl
          rcases hkept with hsome | hevent
          · simp [hnone] at hsome
          · exact hfree hevent
        exact ⟨t, howner, hlogin, hfd, (hother hne).1.trans hcurrent, hkept.imp_left (hsome _)⟩ }

theorem mem_inFlight_dispatch {c : Conn} {bodies : List Body} {t : Task}
    (ht : t ∈ (s.dispatch c bodies).inFlight) : t ∈ s.inFlight ∨ ∃ b ∈ bodies, t = ⟨c, b⟩ := by
  simp only [inFlight, Network.dispatch, List.mem_append, List.mem_map] at ht ⊢
  rcases ht with (ht | ⟨b, hb, rfl⟩) | ht
  · exact .inl (.inl ht)
  · exact .inr ⟨b, hb, rfl⟩
  · exact .inl (.inr ht)

theorem Sound.dispatch (h : Sound s) {c : Conn} {bodies : List Body}
    (hcurrent : s.current c.fd = some c.gen)
    (hlogin : ∀ b ∈ bodies, b.isLogin → (s.ioList c.fd).isSome ∧ ¬ s.ClosingOn c.fd) :
    Sound (s.dispatch c bodies) := by
  exact
    { h with
      tasks := by
        intro t ht
        rcases mem_inFlight_dispatch ht with ht | ⟨b, -, rfl⟩
        · exact h.tasks t ht
        · exact hcurrent
      logins := by
        intro t ht htlogin
        rcases mem_inFlight_dispatch ht with ht | ⟨b, hb, rfl⟩
        · exact h.logins t ht htlogin
        · exact hlogin b hb htlogin }

/-! ## Workers -/

/-- Tasks move to workers and are done. -/
theorem Sound.retask (h : Sound s) {tasks : List Task} {workers : List Worker}
    (hsub : tasks ++ workers.map (·.task) ⊆ s.inFlight)
    (hprograms : ∀ w ∈ workers, w.rest.Only (AddsFor w.task)) :
    Sound { s with tasks := tasks, workers := workers } :=
  { h with
    tasks := fun t ht => h.tasks t (hsub ht)
    logins := fun t ht => h.logins t (hsub ht)
    programs := hprograms }

theorem Sound.finish (h : Sound s) (i : ℕ) : Sound (s.finish i) := by
  have hsub : s.workers.eraseIdx i ⊆ s.workers := (List.eraseIdx_sublist _ _).subset
  exact h.retask (List.append_subset_of_subset_of_subset (List.subset_append_left _ _)
    (List.subset_append_of_subset_right _ (List.map_subset _ hsub)))
    fun w hw => h.programs w (hsub hw)

theorem Sound.push (h : Sound s) {c : Conn} (hcurrent : s.current c.fd = some c.gen) :
    Sound (s.push c) := by
  unfold Network.push
  split
  · exact h
  · next gen hgen =>
    refine { h with replies := ?_ }
    intro q hq
    rcases List.mem_append.mp hq with hq | hq
    · exact h.replies q hq
    · rw [List.mem_singleton.mp hq]
      exact ⟨Option.some.inj ((h.elements c.fd gen hgen).symm.trans hcurrent), hcurrent⟩

theorem ownerAfter_of_lt (t : Task) (e : Effect) {addr : ℕ} (h : addr < s.mod.next) :
    s.ownerAfter t e addr = s.owner addr := by
  unfold ownerAfter
  split
  · exact Function.update_of_ne h.ne _ _
  · rfl

/-- A session is only added by a login in flight, for its own connection. -/
theorem Sound.interp (h : Sound s) {t : Task} {e : Effect} {r : e.Result} {m : SessionMod} {d : δ}
    (ht : t ∈ s.inFlight) (hadds : AddsFor t e)
    (hinterp : Server.interp db e (s.mod, s.contents) = some (r, m, d)) :
    Sound { s with mod := m, contents := d, owner := s.ownerAfter t e } := by
  obtain ⟨hnext, hlist⟩ := interp_table hinterp
  refine { h with old := ?_, sessions := ?_ }
  · intro n hn
    rcases hlist n hn with hn | ⟨haddr, hlt, -⟩
    · exact (h.old n hn).trans_le hnext
    · exact haddr ▸ hlt
  · intro n hn htype
    rcases hlist n hn with hn | ⟨haddr, -, hfd⟩
    · obtain ⟨t', howner, hrest⟩ := h.sessions n hn htype
      exact ⟨t', (ownerAfter_of_lt t e (h.old n hn)).trans howner, hrest⟩
    · obtain ⟨s', rfl, hsame⟩ := hfd htype
      refine ⟨t, ?_, hadds.1, hsame.trans hadds.2, h.tasks t ht, .inl (h.logins t ht hadds.1).1⟩
      simp [haddr, ownerAfter]

theorem mem_inFlight_worker {i : ℕ} {w : Worker} (hw : s.workers[i]? = some w) :
    w.task ∈ s.inFlight :=
  List.mem_append_right _ (List.mem_map.mpr ⟨w, List.mem_of_getElem? hw, rfl⟩)

/-- A worker goes on with its task. -/
theorem Sound.setWorker (h : Sound s) {i : ℕ} {w : Worker} (ht : w.task ∈ s.inFlight)
    (honly : w.rest.Only (AddsFor w.task)) : Sound { s with workers := s.workers.set i w } := by
  refine h.retask ?_ ?_
  · intro t ht'
    rcases List.mem_append.mp ht' with ht' | ht'
    · exact List.mem_append_left _ ht'
    · obtain ⟨w', hw', rfl⟩ := List.mem_map.mp ht'
      rcases List.mem_or_eq_of_mem_set hw' with hw' | rfl
      · exact List.mem_append_right _ (List.mem_map.mpr ⟨w', hw', rfl⟩)
      · exact ht
  · intro w' hw'
    rcases List.mem_or_eq_of_mem_set hw' with hw' | rfl
    · exact h.programs w' hw'
    · exact honly

theorem Sound.call (h : Sound s) {i : ℕ} {t : Task} {e : Effect} {k : e.Result → Handler Reply}
    {s' : Network δ} (hw : s.workers[i]? = some ⟨t, .inside, .call e k⟩)
    (hcall : s.call db i t e k = some s') : Sound s' := by
  obtain ⟨⟨r, m, d⟩, hinterp, rfl⟩ := Option.map_eq_some_iff.mp hcall
  have ht : t ∈ s.inFlight := mem_inFlight_worker hw
  obtain ⟨hadds, honly⟩ := h.programs _ (List.mem_of_getElem? hw)
  exact (h.interp ht hadds hinterp).setWorker ht (honly r)

/-! ## Every run -/

theorem Sound.step (h : Sound s) {e : NetworkEvent} {s' : Network δ} (hok : Unhurried s e)
    (hstep : s.step db e = some s') : Sound s' := by
  cases e with
  | accept fd =>
    simp only [Network.step] at hstep
    split_ifs at hstep with hguard
    obtain rfl := Option.some.inj hstep
    exact h.accept hguard.2 hok.1 hok.2
  | read fd bodies =>
    obtain ⟨gen, hgen, hstep⟩ := Option.bind_eq_some_iff.mp hstep
    split_ifs at hstep with hguard
    obtain rfl := Option.some.inj hstep
    refine h.dispatch hgen fun b hb hlogin => ⟨hguard.2.2, fun hclosing => ?_⟩
    simp [hok hclosing b hb] at hlogin
  | hangUp fd =>
    simp only [Network.step] at hstep
    split_ifs at hstep with hguard
    obtain rfl := Option.some.inj hstep
    exact h.start hguard ⟨List.mem_cons_self, trivial⟩ hok
  | refuse fd bodies =>
    obtain ⟨gen, hgen, hstep⟩ := Option.bind_eq_some_iff.mp hstep
    split_ifs at hstep with hguard
    obtain rfl := Option.some.inj hstep
    have hdispatch : Sound (s.dispatch ⟨fd, gen⟩ bodies) := by
      refine h.dispatch hgen fun b hb hlogin => ?_
      simp [hok.2 b hb] at hlogin
    refine hdispatch.start hguard.1 ⟨List.mem_cons_self, List.mem_cons_self, trivial⟩ ?_
    intro t ht hfd
    rcases mem_inFlight_dispatch ht with ht | ⟨b, hb, rfl⟩
    · exact hok.1 t ht hfd
    · exact hok.2 b hb
  | sendFail fd =>
    simp only [Network.step] at hstep
    split_ifs at hstep with hguard
    obtain rfl := Option.some.inj hstep
    exact h.start hguard.1 ⟨List.mem_cons_self, trivial⟩ hok
  | act closer =>
    simp only [Network.step] at hstep
    split at hstep
    · next fd a acts hclosing =>
      obtain ⟨r, hact, rfl⟩ := Option.map_eq_some_iff.mp hstep
      exact h.act hclosing hact
    · cases hstep
  | take =>
    simp only [Network.step] at hstep
    split at hstep
    · cases hstep
    · next t tasks htasks =>
      split_ifs at hstep
      obtain rfl := Option.some.inj hstep
      refine h.retask ?_ ?_
      · intro t' ht'
        rw [inFlight, htasks]
        simp only [List.map_append, List.mem_append, List.map_cons, List.map_nil, List.mem_cons,
          List.not_mem_nil, or_false] at ht' ⊢
        grind
      · intro w hw
        rcases List.mem_append.mp hw with hw | hw
        · exact h.programs w hw
        · rw [List.mem_singleton.mp hw]
          exact t.only_handler
  | discard =>
    simp only [Network.step] at hstep
    split at hstep
    · cases hstep
    · next t tasks htasks =>
      split_ifs at hstep
      obtain rfl := Option.some.inj hstep
      refine h.retask ?_ h.programs
      rw [inFlight, htasks]
      exact List.subset_cons_self _ _
  | enter i =>
    simp only [Network.step] at hstep
    split at hstep
    · next t p hw =>
      split_ifs at hstep
      obtain rfl := Option.some.inj hstep
      have honly := h.programs _ (List.mem_of_getElem? hw)
      exact h.setWorker (w := ⟨t, .inside, p⟩) (mem_inFlight_worker hw :) honly
    · cases hstep
  | work i =>
    simp only [Network.step] at hstep
    split at hstep
    · next t e k hw => exact h.call hw hstep
    · cases hstep
  | leave i =>
    simp only [Network.step] at hstep
    split at hstep
    · next t reply hw =>
      obtain rfl := Option.some.inj hstep
      exact h.setWorker (w := ⟨t, .after, .ret reply⟩) (mem_inFlight_worker hw :) trivial
    · cases hstep
  | reply i =>
    simp only [Network.step] at hstep
    split at hstep
    · next t p hw =>
      obtain rfl := Option.some.inj hstep
      exact (h.push (h.tasks t (mem_inFlight_worker hw))).finish i
    · cases hstep
  | drop i =>
    simp only [Network.step] at hstep
    split at hstep
    · obtain rfl := Option.some.inj hstep
      exact h.finish i
    · cases hstep

theorem sound_of_reaches {freed : Session} {d : δ}
    (h : Reaches (Network.step db) Unhurried (.init freed d) s) : Sound s :=
  h.invariant (P := Sound) (.init freed d) fun hs hok hstep => hs.step hok hstep

end Network

/-- In every run in which a close begins when no login of the connection is under way,
and a number comes back only after the close is over and all requests of the old
connection are done: replies are queued for the connection of their request, and
sessions belong to open connections on which their login was received. -/
theorem connections_own {δ : Type} {db : Db δ} {freed : Session} {d₀ : δ} {s : Network δ}
    (h : Reaches (Network.step db) Network.Unhurried (.init freed d₀) s) :
    s.RepliesOwn ∧ s.SessionsOwn :=
  ⟨(Network.sound_of_reaches h).replies, (Network.sound_of_reaches h).sessionsOwn⟩

/-- `ann` logs in on connection 5. -/
def annLogin : Body :=
  .request .accountLogin (some [⟨lit "uid", .string (lit "ann")⟩, ⟨lit "pwd", .string (lit "tea")⟩])
    noJunk

/-- A worker takes the task, makes the six calls of a login and queues the reply. -/
def workOff : List NetworkEvent :=
  [.take, .enter 0, .work 0, .work 0, .work 0, .work 0, .work 0, .work 0, .leave 0, .reply 0]

instance {δ : Type} (s : Network δ) (fd : ℕ) : Decidable (s.ClosingOn fd) :=
  decidable_of_iff ((s.closing .loop).any (·.fd = fd) ∨ (s.closing .sender).any (·.fd = fd)) <| by
    simp only [Network.ClosingOn, Option.any_eq_true, decide_eq_true_eq]
    constructor
    · rintro (⟨k, hk, hfd⟩ | ⟨k, hk, hfd⟩)
      · exact ⟨.loop, k, hk, hfd⟩
      · exact ⟨.sender, k, hk, hfd⟩
    · rintro ⟨⟨⟩, k, hk, hfd⟩
      · exact .inl ⟨k, hk, hfd⟩
      · exact .inr ⟨k, hk, hfd⟩

instance {δ : Type} (s : Network δ) : (e : NetworkEvent) → Decidable (s.Unhurried e)
  | .accept fd => inferInstanceAs (Decidable (¬ s.ClosingOn fd ∧ ∀ t ∈ s.inFlight, t.conn.fd ≠ fd))
  | .read fd bodies =>
    inferInstanceAs (Decidable (s.ClosingOn fd → ∀ b ∈ bodies, b.isLogin = false))
  | .hangUp fd | .sendFail fd =>
    inferInstanceAs (Decidable (∀ t ∈ s.inFlight, t.conn.fd = fd → t.body.isLogin = false))
  | .refuse fd bodies =>
    inferInstanceAs (Decidable ((∀ t ∈ s.inFlight, t.conn.fd = fd → t.body.isLogin = false) ∧
      ∀ b ∈ bodies, b.isLogin = false))
  | .act _ | .take | .discard | .enter _ | .work _ | .leave _ | .reply _ | .drop _ =>
    inferInstanceAs (Decidable True)

theorem connections_own_ann :
    ∃ s : Network (List Account × Unit),
      Reaches (Network.step smallDb) Network.Unhurried
        (.init ⟨0, lit "", 0, .fd, lit "", 0⟩ ([ann], ())) s ∧
      s.queued ≠ [] ∧ s.mod.sessionList ≠ [] ∧ s.RepliesOwn ∧ s.SessionsOwn := by
  have hreaches : Reaches (Network.step smallDb) Network.Unhurried
      (.init ⟨0, lit "", 0, .fd, lit "", 0⟩ ([ann], ())) _ :=
    reaches_of_exec ([.accept 5, .read 5 [annLogin]] ++ workOff) rfl
  exact ⟨_, hreaches, List.cons_ne_nil _ _, List.cons_ne_nil _ _, connections_own hreaches⟩

/-- The connection is closed while the login waits, and its number comes back. Then the
session and the reply are for a stranger. -/
theorem late_login_stolen :
    ∃ s : Network (List Account × Unit),
      Reaches (Network.step smallDb) anyStep
        (.init ⟨0, lit "", 0, .fd, lit "", 0⟩ ([ann], ())) s ∧
      ¬ s.RepliesOwn ∧ ¬ s.SessionsOwn := by
  refine ⟨_, reaches_of_exec ([.accept 5, .read 5 [annLogin], .hangUp 5, .act .loop, .act .loop,
    .act .loop, .accept 5] ++ workOff) rfl, ?_, ?_⟩
  · intro h
    exact absurd (h _ (List.mem_singleton_self _)).1 (by decide)
  · intro h
    obtain ⟨t, howner, -, -, hcurrent, -⟩ := h _ (List.mem_singleton_self _) rfl
    obtain rfl := Option.some.inj howner
    exact absurd hcurrent (by decide)

end Youmenu.Server
