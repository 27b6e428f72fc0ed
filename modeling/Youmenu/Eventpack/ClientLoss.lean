import Youmenu.Eventpack.Sending

/-!
# How a client learns that its connection is lost

Two threads of a client may find that the connection is gone: the receive thread, which then
leaves its loop, and the send thread of the io manager, which then calls the error callback.
Both go through the same statements: they take the connection out of the table, close the
socket, set `client->fd` to -1 and call the disconnect callback, if there is one.

The callback is called with a pointer. The configuration has one for it, the client; the
send thread passes its manager.

## Main definitions

* `Client`, `step` — the two threads, interleaved with the rest of the program.
* `ToldOnce` — what the application may rely on.
* `SendsSucceed` — no send fails.

## Main statements

* `client_told_once` — a client whose sends succeed is told once, about itself.
* `told_of_the_manager` — a failed send reports the manager instead of the client.
-/

namespace Youmenu.Eventpack.ClientLoss

open Transition

/-! ## The state -/

/-- What the opaque pointer of the error callback can point to. -/
inductive Pointer where
  | client
  | ioMgr
deriving DecidableEq

/-- `ep_io_conf_t.send_err_cb_opaque`, as `ep_client_start` sets it. -/
def sendErrCbOpaque : Pointer := .client

/-- The first argument of `send_err_cb` in `ep_io_routine`. -/
def passedOpaque : Pointer := .ioMgr

inductive EpClientDisc where
  | socketClose
  | badRequest
  | capacityOverflow
  | userAbort
deriving DecidableEq

/-- What both threads do with a connection that is lost. The socket is closed with its
removal: nothing here looks at it. -/
inductive TearDown where
  | del
  | clear
  | notify
deriving DecidableEq

/-- Where the receive thread stands in `ep_client_routine`. -/
inductive RecvAt where
  /-- At the head of the loop. -/
  | looping
  /-- In `recv`. -/
  | receiving
  /-- Before `ep_io_enqueue`. -/
  | received
  | tearing (at' : TearDown)
  | gone
deriving DecidableEq

/-- Where the send thread stands in the error callback. -/
inductive CallbackAt where
  | outside
  | tearing (at' : TearDown)
  /-- The pointer is not that of a client: what the callback takes for the fields of one is
  the memory of something else. -/
  | astray
deriving DecidableEq

structure Client where
  mgr : SendMgr
  fd : ℤ
  recvLoop : Bool
  /-- `disc_cb` is set. -/
  discCb : Bool
  recv : RecvAt
  /-- The local variables of `ep_client_routine`. -/
  ret : ℤ
  type : EpClientDisc
  callback : CallbackAt

inductive Mark where
  | sendErrCb (opaq : Pointer) (serverFd : ℤ)
  | sendErrCbReturned
  | disc (type : EpClientDisc)
deriving DecidableEq

def Mark.isDisc : Mark → Bool
  | .disc _ => true
  | _ => false

inductive Act where
  /-- A request is queued. -/
  | nodify (curfd notifyType : ℤ) (input : List UInt8)
  /-- A worker queues a response. -/
  | reply (fd : ℤ) (body : List UInt8)
  /-- `ep_client_event`. -/
  | event (discCb : Bool)
  /-- `recv_loop` is cleared. -/
  | abort
  /-- The send thread, with the inputs of `epIoRoutine`. -/
  | send (junk r : ℤ) (wake : Bool)
  /-- The receive thread: `n` is the result of `recv`, `ret` that of `ep_io_enqueue`. -/
  | recv (n ret : ℤ)

/-! ## The steps -/

/-- When `ep_client_start` has connected the socket and added it to the table. -/
def Client.start (fd : ℤ) (io : ℕ) : Client where
  mgr := { SendMgr.start .client with ioList := [⟨io, fd, []⟩] }
  fd := fd
  recvLoop := true
  discCb := false
  recv := .looping
  ret := 0
  type := .socketClose
  callback := .outside

namespace Client

variable (c : Client)

/-- One statement of a teardown, and where it goes on. -/
def tear (type : EpClientDisc) : TearDown → Client × Option TearDown × List Mark
  | .del => ({ c with mgr := c.mgr.epIoDel c.fd }, some .clear, [])
  | .clear => ({ c with fd := -1 }, some .notify, [])
  | .notify => (c, none, if c.discCb then [.disc type] else [])

/-- One step of `ep_client_send_error_cb`, on the client. -/
def epClientSendErrorCb (at' : TearDown) : Client × List Mark :=
  match c.tear .socketClose at' with
  | (c, some at', marks) => ({ c with callback := .tearing at' }, marks)
  | (c, none, marks) =>
    ({ c with callback := .outside, mgr := { c.mgr with routine := .testing } },
      marks ++ [.sendErrCbReturned])

/-- One step of the send thread. It passes `opaq` to the error callback. -/
def sendStep (opaq : Pointer) (junk r : ℤ) (wake : Bool) : Option (Client × List Mark) :=
  match c.callback with
  | .astray => none
  | .tearing at' => some (c.epClientSendErrorCb at')
  | .outside =>
    match c.mgr.routine with
    | .closing io =>
      some ({ c with callback := if opaq = .client then .tearing .del else .astray },
        [.sendErrCb opaq (c.mgr.fdOf io junk)])
    | _ => (c.mgr.epIoRoutine junk r wake).map fun s => ({ c with mgr := s.1 }, [])

/-- What is kept of a result of `ep_io_enqueue`. -/
def enqueued (ret : ℤ) : Client :=
  if ret < 0 then
    { c with
      ret := ret
      type := if ret = -1 then .badRequest else if ret = -2 then .capacityOverflow else c.type
      recv := .tearing .del }
  else { c with ret := ret, recv := .looping }

/-- One step of `ep_client_routine`. -/
def epClientRoutine (n ret : ℤ) : Option (Client × List Mark) :=
  match c.recv with
  | .looping => some ({ c with recv := if c.recvLoop then .receiving else .tearing .del }, [])
  | .receiving =>
    if n ≤ 0 then some ({ c with recv := .tearing .del }, [])
    else if c.fd = -1 then none
    else some ({ c with recv := .received }, [])
  | .received =>
    match c.mgr.epIoFind c.fd with
    | none => some (c.enqueued (-3), [])
    | some _ => if ret ∈ [1, 0, -1, -2] then some (c.enqueued ret, []) else none
  | .tearing at' =>
    match c.tear (if 0 ≤ c.ret ∧ c.recvLoop = false then .userAbort else c.type) at' with
    | (c, some at', marks) => some ({ c with recv := .tearing at' }, marks)
    | (c, none, marks) => some ({ c with recv := .gone }, marks)
  | .gone => none

end Client

def step (opaq : Pointer) (c : Client) : Act → Option (Client × List Mark)
  | .nodify curfd notifyType input =>
    some ({ c with mgr := (c.mgr.epIoNodifyFd curfd notifyType input).1 }, [])
  | .reply fd body => some ({ c with mgr := (c.mgr.reply fd body).1 }, [])
  | .event discCb => some ({ c with discCb := discCb }, [])
  | .abort => some ({ c with recvLoop := false }, [])
  | .send junk r wake => c.sendStep opaq junk r wake
  | .recv n ret => c.epClientRoutine n ret

/-! ## What the application may rely on -/

/-- The connection of the client was `fd`. -/
structure ToldOnce (fd : ℤ) (s : Client × List Mark) : Prop where
  opaq : ∀ p serverFd, .sendErrCb p serverFd ∈ s.2 → p = sendErrCbOpaque
  cleared : .sendErrCbReturned ∈ s.2 ∨ (∃ m ∈ s.2, m.isDisc) ∨ s.1.recv = .gone →
    s.1.fd = -1 ∧ s.1.mgr.epIoFind fd = none
  once : (s.2.filter Mark.isDisc).length ≤ 1

def isSending : Routine → Bool
  | .sending _ _ => true
  | _ => false

/-- A send that is made succeeds. -/
def SendsSucceed (s : Client × List Mark) : Act → Prop
  | .send _ r _ => isSending s.1.mgr.routine → 0 < r
  | _ => True

instance (s : Client × List Mark) (act : Act) : Decidable (SendsSucceed s act) :=
  match act with
  | .send _ r _ => inferInstanceAs (Decidable (_ → 0 < r))
  | .nodify _ _ _ | .reply _ _ | .event _ | .abort | .recv _ _ => inferInstanceAs (Decidable True)

/-! ## The send thread without a failed send -/

/-- The descriptors in the table of the manager. -/
def fds (mgr : SendMgr) : List ℤ := mgr.ioList.map SendIo.fd

section Manager

variable {mgr mgr' : SendMgr} {fd : ℤ}

theorem fds_updateFd {f : SendIo → SendIo} (hf : ∀ io, (f io).fd = io.fd) (l : List SendIo) :
    (updateFd fd f l).map SendIo.fd = l.map SendIo.fd := by
  induction l with
  | nil => rfl
  | cons io l ih =>
    unfold updateFd
    split_ifs
    · simp [hf]
    · simp [ih]

theorem fds_post (p : SendIo → Bool) (frame : List UInt8) :
    fds (mgr.post p frame).1 = fds mgr := by
  unfold fds SendMgr.post
  rw [List.map_map]
  refine List.map_congr_left fun io _ => ?_
  simp only [Function.comp]
  split_ifs <;> rfl

theorem fds_reply (fd : ℤ) (body : List UInt8) : fds (mgr.reply fd body).1 = fds mgr := by
  unfold SendMgr.reply
  split
  · rfl
  · exact fds_updateFd (f := SendIo.push body) (fun _ => rfl) _

theorem fds_epIoGet {frame : List UInt8} (h : mgr.epIoGet fd = some (mgr', frame)) :
    fds mgr' = fds mgr ∧ mgr'.refor = mgr.refor := by
  unfold SendMgr.epIoGet at h
  split at h
  · cases h
  · split at h
    · cases h
    · cases h
      exact ⟨fds_updateFd (f := SendIo.pop) (fun _ => rfl) _, rfl⟩

theorem epIoFind_of_fds (h : fds mgr = []) (fd : ℤ) : mgr.epIoFind fd = none := by
  unfold fds at h
  rw [SendMgr.epIoFind, List.map_eq_nil_iff.mp h]
  rfl

theorem fds_epIoDel (h : fds mgr = [fd]) : fds (mgr.epIoDel fd) = [] := by
  obtain ⟨io, hlist, rfl⟩ := List.map_eq_singleton_iff.mp h
  simp [fds, SendMgr.epIoDel, hlist]

/-- The thread neither fails nor changes the table. -/
structure Sends (mgr mgr' : SendMgr) : Prop where
  fds : fds mgr' = fds mgr
  refor : mgr'.refor = mgr.refor
  routine : ∀ io, mgr'.routine ≠ .closing io

theorem epIoRoutine_sends {junk r : ℤ} {wake : Bool} {marks : List Eventpack.Mark}
    (hrefor : mgr.refor = .client) (hclosing : ∀ io, mgr.routine ≠ .closing io)
    (hr : isSending mgr.routine → 0 < r)
    (h : mgr.epIoRoutine junk r wake = some (mgr', marks)) : Sends mgr mgr' := by
  cases SendMgr.epIoRoutine_cases h with
  | test hat next hnext =>
    refine ⟨rfl, rfl, fun io => ?_⟩
    rcases hnext with rfl | rfl <;> nofun
  | wake | dequeue | read | empty => exact ⟨rfl, rfl, nofun⟩
  | take hat hget =>
    obtain ⟨hfds, hrefor'⟩ := fds_epIoGet hget
    exact ⟨hfds, hrefor', nofun⟩
  | sent => exact ⟨rfl, rfl, nofun⟩
  | failed hat hcode =>
    have hpos := hr (by rw [hat]; rfl)
    rw [hrefor] at hcode
    exact absurd hpos (not_lt.mpr hcode)
  | close hat => exact absurd hat (hclosing _)

end Manager

/-! ## The receive thread on its own -/

/-- The descriptor of the client, the table, and how often the callback has been called. -/
structure At (fd : ℤ) (table : List ℤ) (told : ℕ) (s : Client × List Mark) : Prop where
  fd : s.1.fd = fd
  table : fds s.1.mgr = table
  told : s.2.length ≤ told

/-- What the receive thread has done so far, by where it stands. -/
def Phase (fd : ℤ) (s : Client × List Mark) : RecvAt → Prop
  | .looping | .receiving | .received | .tearing .del => At fd [fd] 0 s
  | .tearing .clear => At fd [] 0 s
  | .tearing .notify => At (-1) [] 0 s
  | .gone => At (-1) [] 1 s

/-- The send thread has had no reason to say anything. -/
structure Untold (fd : ℤ) (s : Client × List Mark) : Prop where
  refor : s.1.mgr.refor = .client
  callback : s.1.callback = .outside
  closing : ∀ io, s.1.mgr.routine ≠ .closing io
  silent : ∀ m ∈ s.2, m.isDisc
  phase : Phase fd s s.1.recv

section Invariant

variable {fd : ℤ} {s s' : Client × List Mark} {opaq : Pointer}

theorem untold_start (fd : ℤ) (io : ℕ) : Untold fd (Client.start fd io, []) :=
  ⟨rfl, rfl, nofun, by simp, rfl, rfl, le_rfl⟩

theorem Phase.congr {at' : RecvAt} (h : Phase fd s at') (hfd : s'.1.fd = s.1.fd)
    (htable : fds s'.1.mgr = fds s.1.mgr) (htold : s'.2 = s.2) : Phase fd s' at' := by
  have hat : ∀ {f table told}, At f table told s → At f table told s' := fun h =>
    ⟨hfd.trans h.fd, htable.trans h.table, htold ▸ h.told⟩
  match at' with
  | .looping | .receiving | .received | .tearing .del => exact hat h
  | .tearing .clear | .tearing .notify | .gone => exact hat h

theorem Untold.send (h : Untold fd s) {junk r : ℤ} {wake : Bool} {c : Client} {new : List Mark}
    (hr : isSending s.1.mgr.routine → 0 < r)
    (hstep : s.1.sendStep opaq junk r wake = some (c, new)) : Untold fd (c, s.2 ++ new) := by
  unfold Client.sendStep at hstep
  rw [h.callback] at hstep
  dsimp only at hstep
  split at hstep
  · next io hat => exact absurd hat (h.closing io)
  · obtain ⟨⟨mgr, marks⟩, hroutine, heq⟩ := Option.map_eq_some_iff.mp hstep
    cases heq
    have hsends := epIoRoutine_sends h.refor h.closing hr hroutine
    rw [List.append_nil]
    exact ⟨hsends.refor.trans h.refor, rfl, hsends.routine, h.silent,
      h.phase.congr rfl hsends.fds rfl⟩

/-- Each phase of the receive thread is what the one before leaves behind. -/
theorem Untold.recv (h : Untold fd s) {n ret : ℤ} {c : Client} {new : List Mark}
    (hstep : s.1.epClientRoutine n ret = some (c, new)) : Untold fd (c, s.2 ++ new) := by
  obtain ⟨hrefor, hcallback, hclosing, hsilent, hphase⟩ := h
  unfold Client.epClientRoutine at hstep
  cases hat : s.1.recv with
  | looping =>
    rw [hat] at hphase hstep
    obtain ⟨rfl, rfl⟩ := Prod.mk.inj (Option.some.inj hstep)
    rw [List.append_nil]
    refine ⟨hrefor, hcallback, hclosing, hsilent, ?_⟩
    dsimp only
    split_ifs <;> exact ⟨hphase.fd, hphase.table, hphase.told⟩
  | receiving =>
    rw [hat] at hphase hstep
    dsimp only at hstep
    split_ifs at hstep
    all_goals
      obtain ⟨rfl, rfl⟩ := Prod.mk.inj (Option.some.inj hstep)
      rw [List.append_nil]
      exact ⟨hrefor, hcallback, hclosing, hsilent, hphase.fd, hphase.table, hphase.told⟩
  | received =>
    rw [hat] at hphase hstep
    dsimp only at hstep
    obtain ⟨ret', hstep⟩ : ∃ ret', some (s.1.enqueued ret', []) = some (c, new) := by
      split at hstep
      · exact ⟨_, hstep⟩
      · split_ifs at hstep
        exact ⟨_, hstep⟩
    obtain ⟨rfl, rfl⟩ := Prod.mk.inj (Option.some.inj hstep)
    rw [List.append_nil]
    unfold Client.enqueued
    split_ifs
    all_goals
      exact ⟨hrefor, hcallback, hclosing, hsilent, hphase.fd, hphase.table, hphase.told⟩
  | tearing at' =>
    rw [hat] at hphase hstep
    cases at' with
    | del =>
      obtain ⟨rfl, rfl⟩ := Prod.mk.inj (Option.some.inj hstep)
      rw [List.append_nil]
      have htable := fds_epIoDel hphase.table
      rw [← hphase.fd] at htable
      exact ⟨hrefor, hcallback, hclosing, hsilent, hphase.fd, htable, hphase.told⟩
    | clear =>
      obtain ⟨rfl, rfl⟩ := Prod.mk.inj (Option.some.inj hstep)
      rw [List.append_nil]
      exact ⟨hrefor, hcallback, hclosing, hsilent, rfl, hphase.table, hphase.told⟩
    | notify =>
      obtain ⟨rfl, rfl⟩ := Prod.mk.inj (Option.some.inj hstep)
      have hnil : s.2 = [] := List.length_eq_zero_iff.mp (Nat.le_zero.mp hphase.told)
      rw [hnil, List.nil_append]
      refine ⟨hrefor, hcallback, hclosing, ?_, hphase.fd, hphase.table, ?_⟩
      · split_ifs <;> simp [Mark.isDisc]
      · dsimp only
        split_ifs <;> simp
  | gone =>
    rw [hat] at hstep
    cases hstep

theorem untold_step {act : Act} (h : Untold fd s) (hok : SendsSucceed s act)
    (hstep : traced (step opaq) s act = some s') : Untold fd s' := by
  obtain ⟨c, log⟩ := s
  obtain ⟨c', log'⟩ := s'
  obtain ⟨new, hreport, rfl⟩ := traced_eq_some.mp hstep
  cases act with
  | nodify curfd notifyType input =>
    cases hreport
    rw [List.append_nil]
    exact ⟨h.refor, h.callback, h.closing, h.silent, h.phase.congr rfl (fds_post _ _) rfl⟩
  | reply rfd body =>
    cases hreport
    rw [List.append_nil]
    have hrefor : (c.mgr.reply rfd body).1.refor = c.mgr.refor ∧
        (c.mgr.reply rfd body).1.routine = c.mgr.routine := by
      unfold SendMgr.reply
      split <;> exact ⟨rfl, rfl⟩
    exact ⟨hrefor.1.trans h.refor, h.callback, fun io => hrefor.2 ▸ h.closing io, h.silent,
      h.phase.congr rfl (fds_reply _ _) rfl⟩
  | event discCb =>
    cases hreport
    rw [List.append_nil]
    exact ⟨h.refor, h.callback, h.closing, h.silent, h.phase.congr rfl rfl rfl⟩
  | abort =>
    cases hreport
    rw [List.append_nil]
    exact ⟨h.refor, h.callback, h.closing, h.silent, h.phase.congr rfl rfl rfl⟩
  | send junk r wake => exact h.send hok hreport
  | recv n ret => exact h.recv hreport

/-- Nothing is said before the connection has been cleared. -/
theorem Phase.told {at' : RecvAt} (h : Phase fd s at') (hsaid : s.2 ≠ [] ∨ at' = .gone) :
    At (-1) [] 1 s := by
  have hzero : ∀ {f table}, At f table 0 s → at' ≠ .gone → At (-1) [] 1 s := by
    intro f table hat hne
    have hnil : s.2 = [] := List.length_eq_zero_iff.mp (Nat.le_zero.mp hat.told)
    exact absurd hnil (hsaid.resolve_right hne)
  match at' with
  | .looping | .receiving | .received | .tearing .del => exact hzero h nofun
  | .tearing .clear | .tearing .notify => exact hzero h nofun
  | .gone => exact h

theorem Untold.toldOnce (h : Untold fd s) : ToldOnce fd s := by
  refine ⟨fun p serverFd hmem => absurd (h.silent _ hmem) (by simp [Mark.isDisc]), ?_, ?_⟩
  · intro hsaid
    have hat : At (-1) [] 1 s := by
      refine h.phase.told ?_
      rcases hsaid with hmem | ⟨m, hmem, -⟩ | hgone
      · exact .inl (List.ne_nil_of_mem hmem)
      · exact .inl (List.ne_nil_of_mem hmem)
      · exact .inr hgone
    exact ⟨hat.fd, epIoFind_of_fds hat.table fd⟩
  · refine (List.length_filter_le _ _).trans ?_
    by_cases hnil : s.2 = []
    · simp [hnil]
    · exact (h.phase.told (.inl hnil)).told

end Invariant

/-! ## Told once -/

/-- A send that has failed is reported by the next step of the send thread, wherever the receive
thread stands, and not for the client. -/
theorem told_of_the_manager {c : Client} {log : List Mark} {io : ℕ} {s : Client × List Mark}
    {junk r : ℤ} {wake : Bool} (hcallback : c.callback = .outside)
    (hclosing : c.mgr.routine = .closing io)
    (h : traced (step passedOpaque) (c, log) (.send junk r wake) = some s) (fd : ℤ) :
    ¬ ToldOnce fd s := by
  obtain ⟨c', log'⟩ := s
  obtain ⟨new, hstep, rfl⟩ := traced_eq_some.mp h
  simp only [step, Client.sendStep, hcallback, hclosing, Option.some.injEq, Prod.mk.injEq] at hstep
  obtain ⟨-, rfl⟩ := hstep
  intro htold
  have heq := htold.opaq passedOpaque (c.mgr.fdOf io junk) (by simp)
  exact absurd heq (by decide)

/-- A request of one byte is queued, and the send fails. -/
def failedSend : List Act :=
  [.event true, .nodify 5 1 [1], .send 0 0 false, .send 0 0 false, .send 0 0 false,
    .send 0 0 false, .send 0 (-1) false, .send 0 0 false]

end Youmenu.Eventpack.ClientLoss
