import Mathlib.Data.List.Nodup
import Youmenu.Eventpack.Io
import Youmenu.Lib.Transition

/-!
# The send path of `ep_io.c`

A frame waits in the queue of its connection, and the handle of the connection
waits in the queue of the manager. Producers fill both under the lock of the
manager; `ep_io_routine` takes a handle and then empties the queue of that
connection. A handle is an address: `ep_io_del` and `ep_io_destroy` release the
connection it points to without looking at the queue of the manager, and the
allocator may hand out the same address again.

The threads are interleaved at the points where they read or change what they
share. The routine reads `io->fd` once for `ep_io_get` and again for the send; when
the connection is no longer there, the read returns whatever the memory holds.

## Main definitions

* `SendMgr`, `Routine`, `Destroyer` — the state, and where the two threads stand.
* `SendMgr.step` — the transitions.
* `serviceCoreSend`, `epIoClientSend` — the two send functions.
* `wire` — the bytes a run has put on a socket.
-/

namespace Youmenu.Eventpack

open Transition

/-! ## The state -/

/-- The part of an `ep_io_t` that the send path uses, and its address. -/
structure SendIo where
  io : ℕ
  fd : ℤ
  send : List (List UInt8)
deriving DecidableEq

/-- Where `ep_io_routine` stands. -/
inductive Routine where
  /-- At the head of the outer loop. -/
  | testing
  /-- In `ep_queue_get` on the queue of the manager. -/
  | waiting
  /-- In the drain loop, before it reads `io->fd`. -/
  | reading (io : ℕ)
  /-- In `ep_io_get`, before the lock. -/
  | getting (io : ℕ) (fd : ℤ)
  | sending (io : ℕ) (frame : List UInt8)
  /-- The send has failed, and the error callback is about to be called. -/
  | closing (io : ℕ)
  | returned
deriving DecidableEq

/-- Where `ep_io_destroy` stands. -/
inductive Destroyer where
  | idle
  | joining
  | draining
  | reading (io : ℕ)
  | getting (io : ℕ) (fd : ℤ)
  | returned
deriving DecidableEq

structure SendMgr where
  refor : EpIoRefor
  ioList : List SendIo
  /-- The handles in the queue of the manager. -/
  queue : List ℕ
  /-- Set together with the stop sign of that queue. -/
  abort : Bool
  routine : Routine
  destroyer : Destroyer
deriving DecidableEq

/-- After `ep_io_init`. -/
def SendMgr.start (refor : EpIoRefor) : SendMgr := ⟨refor, [], [], false, .testing, .idle⟩

/-- What a run reports. -/
inductive Mark where
  | added (fd : ℤ)
  | pushed (fd : ℤ) (frame : List UInt8)
  | taken (fd : ℤ) (frame : List UInt8)
  | wrote (fd : ℤ) (frame bytes : List UInt8)
deriving DecidableEq

/-! ## The send functions -/

/-- What a call of `send->send` returns and what it put on the wire; `closed` says
that it closed the socket, and so reported the connection as closed. -/
structure Sent where
  code : ℤ
  bytes : List UInt8
  closed : Bool

/-- `r` is what `write` returned: only `-1` is looked at. -/
def serviceCoreSend (r : ℤ) (buffer : List UInt8) : Sent :=
  if r = -1 then ⟨0, [], true⟩ else ⟨buffer.length, buffer.take r.toNat, false⟩

/-- `r` is what `send` returned. -/
def epIoClientSend (r : ℤ) (buffer : List UInt8) : Sent := ⟨r, buffer.take r.toNat, false⟩

/-- The function that the manager is configured with. -/
def EpIoRefor.send : EpIoRefor → ℤ → List UInt8 → Sent
  | .server => serviceCoreSend
  | .client => epIoClientSend

/-! ## The operations -/

namespace SendMgr

variable (s : SendMgr)

def epIoFind (fd : ℤ) : Option SendIo := s.ioList.find? fun c => c.fd = fd

/-- The address is that of a connection which has not been released. -/
def Live (io : ℕ) : Prop := ∃ c ∈ s.ioList, c.io = io

instance (io : ℕ) : Decidable (s.Live io) := inferInstanceAs (Decidable (∃ c ∈ s.ioList, _))

/-- Reading `io->fd`; released memory holds anything. -/
def fdOf (io : ℕ) (junk : ℤ) : ℤ :=
  match s.ioList.find? fun c => c.io = io with
  | some c => c.fd
  | none => junk

end SendMgr

/-- Change the first connection with the descriptor `fd`. -/
def updateFd (fd : ℤ) (f : SendIo → SendIo) : List SendIo → List SendIo
  | [] => []
  | c :: cs => if c.fd = fd then f c :: cs else c :: updateFd fd f cs

def SendIo.push (frame : List UInt8) (c : SendIo) : SendIo :=
  { c with send := c.send ++ [frame] }

def SendIo.pop (c : SendIo) : SendIo := { c with send := c.send.tail }

/-- Whether `ep_io_nodify_fd` posts to a connection. -/
def SendIo.Notified (curfd notifyType : ℤ) (c : SendIo) : Bool :=
  if notifyType = 1 then c.fd = curfd else if notifyType = 2 then c.fd ≠ curfd else true

namespace SendMgr

variable (s : SendMgr)

/-- The new connection is at `io`, an address that is not in use. -/
def epIoAdd (fd : ℤ) (io : ℕ) : Option (SendMgr × List Mark) :=
  match s.epIoFind fd with
  | some _ => some (s, [])
  | none =>
    if s.Live io then none
    else some ({ s with ioList := s.ioList ++ [⟨io, fd, []⟩] }, [.added fd])

/-- The end of `ep_io_processor`: a reply is posted, or freed without a connection. -/
def reply (fd : ℤ) (body : List UInt8) : SendMgr × List Mark :=
  match s.epIoFind fd with
  | none => (s, [])
  | some child =>
    ({ s with
        ioList := updateFd fd (SendIo.push body) s.ioList
        queue := s.queue ++ [child.io] }, [.pushed fd body])

/-- Post a frame to every connection that `p` selects. -/
def post (p : SendIo → Bool) (frame : List UInt8) : SendMgr × List Mark :=
  ({ s with
      ioList := s.ioList.map fun c => if p c then c.push frame else c
      queue := s.queue ++ (s.ioList.filter p).map SendIo.io },
    (s.ioList.filter p).map fun c => .pushed c.fd frame)

def epIoNodifyFd (curfd notifyType : ℤ) (input : List UInt8) : SendMgr × List Mark :=
  s.post (SendIo.Notified curfd notifyType) input

def epIoDel (fd : ℤ) : SendMgr := { s with ioList := s.ioList.eraseP fun c => c.fd = fd }

/-- The first frame of the queue of `fd`, if there is one. -/
def epIoGet (fd : ℤ) : Option (SendMgr × List UInt8) :=
  match s.epIoFind fd with
  | none => none
  | some child =>
    match child.send with
    | [] => none
    | frame :: _ => some ({ s with ioList := updateFd fd SendIo.pop s.ioList }, frame)

/-- One step of the thread. `junk` is what released memory holds, `r` what the
operating system answers to a send, and `wake` says that `ep_queue_get` returns
without a handle: because of the stop sign, or because the wait ended by itself on
an empty queue. -/
def epIoRoutine (junk r : ℤ) (wake : Bool) : Option (SendMgr × List Mark) :=
  match s.routine with
  | .testing => some ({ s with routine := if s.abort then .returned else .waiting }, [])
  | .waiting =>
    if wake then
      if s.abort ∨ s.queue = [] then some ({ s with routine := .returned }, []) else none
    else
      match s.queue with
      | [] => none
      | io :: queue => some ({ s with queue := queue, routine := .reading io }, [])
  | .reading io => some ({ s with routine := .getting io (s.fdOf io junk) }, [])
  | .getting io fd =>
    match s.epIoGet fd with
    | none => some ({ s with routine := .testing }, [])
    | some (s', frame) => some ({ s' with routine := .sending io frame }, [.taken fd frame])
  | .sending io frame =>
    if r < -1 ∨ r > frame.length then none
    else
      let fd := s.fdOf io junk
      let sent := s.refor.send r frame
      let s := if sent.closed then s.epIoDel fd else s
      some ({ s with routine := if sent.code ≤ 0 then .closing io else .reading io },
        [.wrote fd frame sent.bytes])
  | .closing io =>
    match s.refor with
    -- `ep_service_send_error_cb`
    | .server => some ({ s.epIoDel (s.fdOf io junk) with routine := .testing }, [])
    -- `ep_client_send_error_cb` takes the manager for a client: nothing is said about it
    | .client => none
  | .returned => none

/-- One step of `ep_io_destroy`; frames that it takes out of a queue are freed. -/
def epIoDestroy (junk : ℤ) : Option SendMgr :=
  match s.destroyer with
  | .idle => some { s with abort := true, destroyer := .joining }
  | .joining =>
    if s.routine = .returned then some { s with ioList := [], destroyer := .draining } else none
  | .draining =>
    match s.queue with
    | [] => some { s with destroyer := .returned }
    | io :: queue => some { s with queue := queue, destroyer := .reading io }
  | .reading io => some { s with destroyer := .getting io (s.fdOf io junk) }
  | .getting io fd =>
    match s.epIoGet fd with
    | none => some { s with destroyer := .draining }
    | some (s', _) => some { s' with destroyer := .reading io }
  | .returned => none

end SendMgr

inductive SendAct where
  | add (fd : ℤ) (io : ℕ)
  | reply (fd : ℤ) (body : List UInt8)
  | nodify (curfd notifyType : ℤ) (input : List UInt8)
  | del (fd : ℤ)
  | routine (junk r : ℤ) (wake : Bool)
  | destroy (junk : ℤ)

/-- Nothing is left to act on once `ep_io_destroy` has returned. -/
def SendMgr.step (s : SendMgr) (act : SendAct) : Option (SendMgr × List Mark) :=
  if s.destroyer = .returned then none
  else
    match act with
    | .add fd io => s.epIoAdd fd io
    | .reply fd body => some (s.reply fd body)
    | .nodify curfd notifyType input => some (s.epIoNodifyFd curfd notifyType input)
    | .del fd => some (s.epIoDel fd, [])
    | .routine junk r wake => s.epIoRoutine junk r wake
    | .destroy junk => (s.epIoDestroy junk).map fun s => (s, [])

/-! ## The table -/

section Table

variable {s s' : SendMgr} {c c' : SendIo} {fd junk : ℤ}

/-- No two connections share an address or a descriptor, and `ep_io_destroy` has
waited for the thread. -/
structure SendMgr.Wf (s : SendMgr) : Prop where
  io_nodup : (s.ioList.map SendIo.io).Nodup
  fd_nodup : (s.ioList.map SendIo.fd).Nodup
  joined : s.destroyer = .idle ∨ s.destroyer = .joining ∨ s.routine = .returned

theorem SendMgr.Wf.eq_of_io (h : s.Wf) (hc : c ∈ s.ioList) (hc' : c' ∈ s.ioList)
    (heq : c.io = c'.io) : c = c' := List.inj_on_of_nodup_map h.io_nodup hc hc' heq

theorem SendMgr.Wf.eq_of_fd (h : s.Wf) (hc : c ∈ s.ioList) (hc' : c' ∈ s.ioList)
    (heq : c.fd = c'.fd) : c = c' := List.inj_on_of_nodup_map h.fd_nodup hc hc' heq

theorem SendMgr.mem_of_epIoFind (h : s.epIoFind fd = some c) : c ∈ s.ioList ∧ c.fd = fd :=
  ⟨List.mem_of_find?_eq_some h, by simpa using List.find?_some h⟩

theorem SendMgr.epIoFind_eq_none (h : s.epIoFind fd = none) (hc : c ∈ s.ioList) : c.fd ≠ fd := by
  simpa using List.find?_eq_none.mp h c hc

theorem SendMgr.Wf.epIoFind_eq (h : s.Wf) (hc : c ∈ s.ioList) : s.epIoFind c.fd = some c := by
  cases hfind : s.epIoFind c.fd with
  | none => exact absurd rfl (epIoFind_eq_none hfind hc)
  | some c' =>
    obtain ⟨hmem, hfd⟩ := mem_of_epIoFind hfind
    rw [h.eq_of_fd hmem hc hfd]

theorem SendMgr.Wf.fdOf_eq (h : s.Wf) (hc : c ∈ s.ioList) : s.fdOf c.io junk = c.fd := by
  unfold fdOf
  cases hfind : s.ioList.find? fun x => x.io = c.io with
  | none => simpa using List.find?_eq_none.mp hfind c hc
  | some c' =>
    have hio : c'.io = c.io := by simpa using List.find?_some hfind
    rw [h.eq_of_io (List.mem_of_find?_eq_some hfind) hc hio]

/-- With one connection for a descriptor, changing the first is changing all. -/
theorem updateFd_eq_map {l : List SendIo} (h : (l.map SendIo.fd).Nodup) (f : SendIo → SendIo) :
    updateFd fd f l = l.map fun c => if c.fd = fd then f c else c := by
  induction l with
  | nil => rfl
  | cons c cs ih =>
    obtain ⟨hnew, hcs⟩ := List.nodup_cons.mp h
    unfold updateFd
    split_ifs with hc
    · have hrest : cs.map (fun c => if c.fd = fd then f c else c) = cs.map id := by
        refine List.map_congr_left fun x hx => if_neg fun hfd => hnew ?_
        rw [hc, ← hfd]
        exact List.mem_map_of_mem hx
      simp [hc, hrest]
    · simp [hc, ih hcs]

theorem filter_fd {l : List SendIo} (h : (l.map SendIo.fd).Nodup) (hc : c ∈ l) :
    l.filter (fun x => x.fd = c.fd) = [c] := by
  induction l with
  | nil => cases hc
  | cons x xs ih =>
    obtain ⟨hnew, hxs⟩ := List.nodup_cons.mp h
    rcases List.mem_cons.mp hc with rfl | hc
    · have hrest : xs.filter (fun x => x.fd = c.fd) = [] := by
        refine List.filter_eq_nil_iff.mpr fun x hx hfd => hnew ?_
        rw [← of_decide_eq_true hfd]
        exact List.mem_map_of_mem hx
      simp [hrest]
    · have hx : ¬ x.fd = c.fd := fun hfd => hnew (hfd ▸ List.mem_map_of_mem hc)
      simp [hx, ih hxs hc]

@[simp] theorem SendIo.pop_io (c : SendIo) : c.pop.io = c.io := rfl

@[simp] theorem SendIo.pop_fd (c : SendIo) : c.pop.fd = c.fd := rfl

/-- Changes that keep the address and the descriptor keep the table in order. -/
theorem SendMgr.Wf.map (h : s.Wf) {f : SendIo → SendIo} (hio : ∀ c, (f c).io = c.io)
    (hfd : ∀ c, (f c).fd = c.fd) (hlist : s'.ioList = s.ioList.map f)
    (hjoined : s'.destroyer = .idle ∨ s'.destroyer = .joining ∨ s'.routine = .returned) :
    s'.Wf := by
  refine ⟨?_, ?_, hjoined⟩
  · rw [hlist, List.map_map, show SendIo.io ∘ f = SendIo.io from funext hio]
    exact h.io_nodup
  · rw [hlist, List.map_map, show SendIo.fd ∘ f = SendIo.fd from funext hfd]
    exact h.fd_nodup

theorem SendMgr.Wf.sublist (h : s.Wf) (hlist : s'.ioList.Sublist s.ioList)
    (hjoined : s'.destroyer = .idle ∨ s'.destroyer = .joining ∨ s'.routine = .returned) :
    s'.Wf :=
  ⟨h.io_nodup.sublist (hlist.map _), h.fd_nodup.sublist (hlist.map _), hjoined⟩

theorem SendMgr.epIoDel_sublist (s : SendMgr) (fd : ℤ) :
    (s.epIoDel fd).ioList.Sublist s.ioList := List.eraseP_sublist

/-- Under the lock a reply is a post to the one connection with that descriptor. -/
theorem SendMgr.Wf.reply_eq (h : s.Wf) (body : List UInt8) :
    s.reply fd body = s.post (fun c => c.fd = fd) body := by
  unfold reply post
  cases hfind : s.epIoFind fd with
  | none =>
    have hnone : ∀ c ∈ s.ioList, ¬ c.fd = fd := fun c hc => epIoFind_eq_none hfind hc
    have hfilter : s.ioList.filter (fun c => decide (c.fd = fd)) = [] := by
      simpa [List.filter_eq_nil_iff] using hnone
    have hmap : s.ioList.map (fun c => if c.fd = fd then c.push body else c) = s.ioList := by
      conv_rhs => rw [← List.map_id s.ioList]
      exact List.map_congr_left fun c hc => if_neg (hnone c hc)
    simp [hfilter, hmap]
  | some child =>
    obtain ⟨hmem, hfd⟩ := mem_of_epIoFind hfind
    have hfilter := filter_fd h.fd_nodup hmem
    rw [hfd] at hfilter
    simp [hfilter, hfd, updateFd_eq_map h.fd_nodup]

theorem SendMgr.Wf.epIoGet_eq_none (h : s.Wf) (hget : s.epIoGet c.fd = none)
    (hc : c ∈ s.ioList) : c.send = [] := by
  rw [epIoGet, h.epIoFind_eq hc] at hget
  cases hsend : c.send with
  | nil => rfl
  | cons frame rest => simp [hsend] at hget

theorem SendMgr.Wf.epIoGet_eq_some (h : s.Wf) {frame : List UInt8}
    (hget : s.epIoGet fd = some (s', frame)) :
    ∃ c ∈ s.ioList, c.fd = fd ∧ c.send = frame :: c.send.tail ∧
      s' = { s with ioList := s.ioList.map fun x => if x.fd = fd then x.pop else x } := by
  unfold epIoGet at hget
  cases hfind : s.epIoFind fd with
  | none => simp [hfind] at hget
  | some c =>
    obtain ⟨hmem, hfd⟩ := mem_of_epIoFind hfind
    cases hsend : c.send with
    | nil => simp [hfind, hsend] at hget
    | cons head rest =>
      simp only [hfind, hsend, Option.some.injEq, Prod.mk.injEq] at hget
      obtain ⟨rfl, rfl⟩ := hget
      exact ⟨c, hmem, hfd, by simp [hsend], by rw [updateFd_eq_map h.fd_nodup]⟩

theorem SendMgr.Wf.get (h : s.Wf) {frame : List UInt8} (hget : s.epIoGet fd = some (s', frame))
    (routine : Routine) (destroyer : Destroyer)
    (hjoined : destroyer = .idle ∨ destroyer = .joining ∨ routine = .returned) :
    ({ s' with routine := routine, destroyer := destroyer } : SendMgr).Wf := by
  obtain ⟨c, -, -, -, rfl⟩ := h.epIoGet_eq_some hget
  refine h.map (f := fun x => if x.fd = fd then x.pop else x) ?_ ?_ rfl hjoined
  · intro x
    split_ifs <;> rfl
  · intro x
    split_ifs <;> rfl

/-- A connection is added at the end and at a free address, or was there before. -/
theorem SendMgr.epIoAdd_cases {io : ℕ} {marks : List Mark}
    (hadd : s.epIoAdd fd io = some (s', marks)) :
    (s' = s ∧ marks = []) ∨
      ((∀ c ∈ s.ioList, c.fd ≠ fd ∧ c.io ≠ io) ∧
        s' = { s with ioList := s.ioList ++ [⟨io, fd, []⟩] } ∧ marks = [.added fd]) := by
  unfold epIoAdd at hadd
  cases hfind : s.epIoFind fd with
  | some c =>
    simp only [hfind] at hadd
    obtain ⟨rfl, rfl⟩ := Prod.mk.inj (Option.some.inj hadd)
    exact .inl ⟨rfl, rfl⟩
  | none =>
    simp only [hfind] at hadd
    split_ifs at hadd with hlive
    obtain ⟨rfl, rfl⟩ := Prod.mk.inj (Option.some.inj hadd)
    refine .inr ⟨fun c hc => ⟨epIoFind_eq_none hfind hc, ?_⟩, rfl, rfl⟩
    exact fun heq => hlive ⟨c, hc, heq⟩

theorem SendMgr.Wf.add (h : s.Wf) {io : ℕ} {marks : List Mark}
    (hadd : s.epIoAdd fd io = some (s', marks)) : s'.Wf := by
  obtain ⟨rfl, -⟩ | ⟨hnew, rfl, -⟩ := epIoAdd_cases hadd
  · exact h
  · exact ⟨by simpa [List.nodup_append] using ⟨h.io_nodup, fun c hc => (hnew c hc).2⟩,
      by simpa [List.nodup_append] using ⟨h.fd_nodup, fun c hc => (hnew c hc).1⟩, h.joined⟩

theorem SendMgr.Wf.post (h : s.Wf) (p : SendIo → Bool) (frame : List UInt8) :
    (s.post p frame).1.Wf := by
  refine h.map (f := fun c => if p c then c.push frame else c) ?_ ?_ rfl h.joined
  · intro x
    split_ifs <;> rfl
  · intro x
    split_ifs <;> rfl

/-- A thread that has not returned keeps `ep_io_destroy` in `pthread_join`. -/
theorem SendMgr.Wf.not_joined (h : s.Wf) (hr : s.routine ≠ .returned) :
    s.destroyer = .idle ∨ s.destroyer = .joining := by
  rcases h.joined with hd | hd | hd
  · exact .inl hd
  · exact .inr hd
  · exact absurd hd hr

theorem SendMgr.Wf.not_returned (h : s.Wf) (hr : s.routine ≠ .returned) :
    s.destroyer ≠ .returned := by
  rcases h.not_joined hr with hd | hd <;> simp [hd]

end Table

/-! ## What a step can be -/

/-- The steps of the thread, one constructor for each place it can stand at and each way
on from there, with the inputs of `epIoRoutine`. -/
inductive RoutineStep (s : SendMgr) (junk r : ℤ) : SendMgr → List Mark → Prop
  | test (hr : s.routine = .testing) (next : Routine)
      (hnext : next = .waiting ∨ next = .returned) :
      RoutineStep s junk r { s with routine := next } []
  | wake (hr : s.routine = .waiting) : RoutineStep s junk r { s with routine := .returned } []
  | dequeue {io : ℕ} {queue : List ℕ} (hr : s.routine = .waiting) (hq : s.queue = io :: queue) :
      RoutineStep s junk r { s with queue := queue, routine := .reading io } []
  | read {io : ℕ} (hr : s.routine = .reading io) :
      RoutineStep s junk r { s with routine := .getting io (s.fdOf io junk) } []
  | empty {io : ℕ} {fd : ℤ} (hr : s.routine = .getting io fd) (hget : s.epIoGet fd = none) :
      RoutineStep s junk r { s with routine := .testing } []
  | take {io : ℕ} {fd : ℤ} {s' : SendMgr} {frame : List UInt8}
      (hr : s.routine = .getting io fd) (hget : s.epIoGet fd = some (s', frame)) :
      RoutineStep s junk r { s' with routine := .sending io frame } [.taken fd frame]
  | sent {io : ℕ} {frame : List UInt8} (hr : s.routine = .sending io frame)
      (hcode : 0 < (s.refor.send r frame).code) :
      RoutineStep s junk r { s with routine := .reading io }
        [.wrote (s.fdOf io junk) frame (s.refor.send r frame).bytes]
  | failed {io : ℕ} {frame : List UInt8} (hr : s.routine = .sending io frame)
      (hcode : (s.refor.send r frame).code ≤ 0) :
      RoutineStep s junk r
        { (if (s.refor.send r frame).closed then s.epIoDel (s.fdOf io junk) else s) with
          routine := .closing io }
        [.wrote (s.fdOf io junk) frame (s.refor.send r frame).bytes]
  | close {io : ℕ} (hr : s.routine = .closing io) :
      RoutineStep s junk r { s.epIoDel (s.fdOf io junk) with routine := .testing } []

inductive DestroyStep (s : SendMgr) : SendMgr → Prop
  | stop (hd : s.destroyer = .idle) : DestroyStep s { s with abort := true, destroyer := .joining }
  | free (hd : s.destroyer = .joining) (hr : s.routine = .returned) :
      DestroyStep s { s with ioList := [], destroyer := .draining }
  | finish (hd : s.destroyer = .draining) (hq : s.queue = []) :
      DestroyStep s { s with destroyer := .returned }
  | dequeue {io : ℕ} {queue : List ℕ} (hd : s.destroyer = .draining)
      (hq : s.queue = io :: queue) :
      DestroyStep s { s with queue := queue, destroyer := .reading io }
  | read {io : ℕ} (junk : ℤ) (hd : s.destroyer = .reading io) :
      DestroyStep s { s with destroyer := .getting io (s.fdOf io junk) }
  | empty {io : ℕ} {fd : ℤ} (hd : s.destroyer = .getting io fd) (hget : s.epIoGet fd = none) :
      DestroyStep s { s with destroyer := .draining }
  | take {io : ℕ} {fd : ℤ} {s' : SendMgr} {frame : List UInt8}
      (hd : s.destroyer = .getting io fd) (hget : s.epIoGet fd = some (s', frame)) :
      DestroyStep s { s' with destroyer := .reading io }

section Steps

variable {s s' : SendMgr} {marks : List Mark} {junk r : ℤ} {wake : Bool}

/-- A send that closed the socket did not succeed. -/
theorem EpIoRefor.closed_of_code {refor : EpIoRefor} {frame : List UInt8}
    (h : 0 < (refor.send r frame).code) : (refor.send r frame).closed = false := by
  cases refor with
  | server =>
    by_cases hr : r = -1
    · simp [EpIoRefor.send, serviceCoreSend, hr] at h
    · simp [EpIoRefor.send, serviceCoreSend, hr]
  | client => rfl

theorem SendMgr.epIoRoutine_cases (h : s.epIoRoutine junk r wake = some (s', marks)) :
    RoutineStep s junk r s' marks := by
  unfold epIoRoutine at h
  cases hr : s.routine with
  | testing =>
    simp only [hr, Option.some.injEq, Prod.mk.injEq] at h
    obtain ⟨rfl, rfl⟩ := h
    exact .test hr _ (by split_ifs <;> simp)
  | waiting =>
    simp only [hr] at h
    cases wake with
    | true =>
      simp only [if_true] at h
      split_ifs at h
      obtain ⟨rfl, rfl⟩ := Prod.mk.inj (Option.some.inj h)
      exact .wake hr
    | false =>
      cases hq : s.queue with
      | nil => simp [hq] at h
      | cons io queue =>
        simp only [hq, Bool.false_eq_true, if_false] at h
        obtain ⟨rfl, rfl⟩ := Prod.mk.inj (Option.some.inj h)
        exact .dequeue hr hq
  | reading io =>
    simp only [hr] at h
    obtain ⟨rfl, rfl⟩ := Prod.mk.inj (Option.some.inj h)
    exact .read hr
  | getting io fd =>
    simp only [hr] at h
    cases hget : s.epIoGet fd with
    | none =>
      simp only [hget] at h
      obtain ⟨rfl, rfl⟩ := Prod.mk.inj (Option.some.inj h)
      exact .empty hr hget
    | some p =>
      obtain ⟨s₁, frame⟩ := p
      simp only [hget] at h
      obtain ⟨rfl, rfl⟩ := Prod.mk.inj (Option.some.inj h)
      exact .take hr hget
  | sending io frame =>
    by_cases hrange : r < -1 ∨ r > frame.length
    · simp [hr, hrange] at h
    simp only [hr, if_neg hrange] at h
    obtain ⟨rfl, rfl⟩ := Prod.mk.inj (Option.some.inj h)
    by_cases hcode : (s.refor.send r frame).code ≤ 0
    · rw [if_pos hcode]
      exact .failed hr hcode
    · have hpos : 0 < (s.refor.send r frame).code := not_le.mp hcode
      have hopen : ¬ (s.refor.send r frame).closed = true := by
        simp [EpIoRefor.closed_of_code hpos]
      rw [if_neg hcode, if_neg hopen]
      exact .sent hr hpos
  | closing io =>
    cases hrefor : s.refor with
    | server =>
      simp only [hr, hrefor] at h
      obtain ⟨rfl, rfl⟩ := Prod.mk.inj (Option.some.inj h)
      exact .close hr
    | client => simp [hr, hrefor] at h
  | returned => simp [hr] at h

theorem SendMgr.epIoDestroy_cases (h : s.epIoDestroy junk = some s') : DestroyStep s s' := by
  unfold epIoDestroy at h
  cases hd : s.destroyer with
  | idle =>
    simp only [hd] at h
    exact Option.some.inj h ▸ .stop hd
  | joining =>
    simp only [hd] at h
    split_ifs at h with hr
    exact Option.some.inj h ▸ .free hd hr
  | draining =>
    cases hq : s.queue with
    | nil =>
      simp only [hd, hq] at h
      have hfinish := DestroyStep.finish hd hq
      rw [hq] at hfinish
      exact Option.some.inj h ▸ hfinish
    | cons io queue =>
      simp only [hd, hq] at h
      exact Option.some.inj h ▸ .dequeue hd hq
  | reading io =>
    simp only [hd] at h
    exact Option.some.inj h ▸ .read junk hd
  | getting io fd =>
    simp only [hd] at h
    cases hget : s.epIoGet fd with
    | none =>
      simp only [hget] at h
      exact Option.some.inj h ▸ .empty hd hget
    | some p =>
      obtain ⟨s₁, frame⟩ := p
      simp only [hget] at h
      exact Option.some.inj h ▸ .take hd hget
  | returned => simp [hd] at h

/-- What `step` does, with the state still in use. -/
theorem SendMgr.step_eq_some {act : SendAct} (h : s.step act = some (s', marks)) :
    s.destroyer ≠ .returned ∧
      match act with
      | .add fd io => s.epIoAdd fd io = some (s', marks)
      | .reply fd body => s.reply fd body = (s', marks)
      | .nodify curfd notifyType input => s.epIoNodifyFd curfd notifyType input = (s', marks)
      | .del fd => s' = s.epIoDel fd ∧ marks = []
      | .routine junk r _ => RoutineStep s junk r s' marks
      | .destroy _ => DestroyStep s s' ∧ marks = [] := by
  unfold step at h
  split_ifs at h with hreturned
  refine ⟨hreturned, ?_⟩
  cases act with
  | add fd io => exact h
  | reply fd body => exact Option.some.inj h
  | nodify curfd notifyType input => exact Option.some.inj h
  | del fd =>
    obtain ⟨rfl, rfl⟩ := Prod.mk.inj (Option.some.inj h)
    exact ⟨rfl, rfl⟩
  | routine junk r wake => exact epIoRoutine_cases h
  | destroy junk =>
    obtain ⟨s₁, hdestroy, heq⟩ := Option.map_eq_some_iff.mp h
    obtain ⟨rfl, rfl⟩ := Prod.mk.inj heq
    exact ⟨epIoDestroy_cases hdestroy, rfl⟩

theorem SendMgr.Wf.routineStep (h : s.Wf) (hstep : RoutineStep s junk r s' marks) : s'.Wf := by
  have hjoined : s.routine ≠ .returned → ∀ routine : Routine,
      s.destroyer = .idle ∨ s.destroyer = .joining ∨ routine = .returned :=
    fun hr routine => (h.not_joined hr).elim .inl fun hd => .inr (.inl hd)
  cases hstep with
  | test hr next hnext => exact h.sublist (.refl _) (hjoined (by simp [hr]) _)
  | wake hr => exact h.sublist (.refl _) (hjoined (by simp [hr]) _)
  | dequeue hr hq => exact h.sublist (.refl _) (hjoined (by simp [hr]) _)
  | read hr => exact h.sublist (.refl _) (hjoined (by simp [hr]) _)
  | empty hr hget => exact h.sublist (.refl _) (hjoined (by simp [hr]) _)
  | take hr hget =>
    obtain ⟨c, -, -, -, rfl⟩ := h.epIoGet_eq_some hget
    exact h.get hget _ s.destroyer (hjoined (by simp [hr]) _)
  | sent hr hcode => exact h.sublist (.refl _) (hjoined (by simp [hr]) _)
  | failed hr hcode =>
    split_ifs
    · exact h.sublist (s.epIoDel_sublist _) (hjoined (by simp [hr]) _)
    · exact h.sublist (.refl _) (hjoined (by simp [hr]) _)
  | close hr => exact h.sublist (s.epIoDel_sublist _) (hjoined (by simp [hr]) _)

theorem SendMgr.Wf.destroyStep (h : s.Wf) (hstep : DestroyStep s s') : s'.Wf := by
  have hjoined : s.destroyer ≠ .idle → s.destroyer ≠ .joining → s.routine = .returned :=
    fun hi hj => h.joined.elim (absurd · hi) fun hd => hd.elim (absurd · hj) id
  cases hstep with
  | stop hd => exact h.sublist (.refl _) (by simp)
  | free hd hr => exact h.sublist (List.nil_sublist _) (by simp [hr])
  | finish hd hq => exact h.sublist (.refl _) (by simp [hjoined, hd])
  | dequeue hd hq => exact h.sublist (.refl _) (by simp [hjoined, hd])
  | read junk hd => exact h.sublist (.refl _) (by simp [hjoined, hd])
  | empty hd hget => exact h.sublist (.refl _) (by simp [hjoined, hd])
  | take hd hget =>
    obtain ⟨c, -, -, -, rfl⟩ := h.epIoGet_eq_some hget
    exact h.get hget s.routine _ (by simp [hjoined, hd])

theorem SendMgr.Wf.step (h : s.Wf) {act : SendAct} (hstep : s.step act = some (s', marks)) :
    s'.Wf := by
  obtain ⟨-, hact⟩ := step_eq_some hstep
  cases act with
  | add fd io => exact h.add hact
  | reply fd body =>
    simp only [h.reply_eq] at hact
    exact (Prod.mk.inj hact).1 ▸ h.post _ _
  | nodify curfd notifyType input => exact (Prod.mk.inj hact).1 ▸ h.post _ _
  | del fd =>
    obtain ⟨rfl, -⟩ := hact
    exact h.sublist (s.epIoDel_sublist fd) h.joined
  | routine junk r wake => exact h.routineStep hact
  | destroy junk => exact h.destroyStep hact.1

theorem SendMgr.wf_start (refor : EpIoRefor) : (start refor).Wf := ⟨.nil, .nil, .inl rfl⟩

end Steps

/-! ## Draining a connection -/

/-- What a step put on the socket `fd`. -/
def Mark.onWire (fd : ℤ) : Mark → List UInt8
  | .wrote fd' _ bytes => if fd' = fd then bytes else []
  | _ => []

def wire (fd : ℤ) (marks : List Mark) : List UInt8 := marks.flatMap (Mark.onWire fd)

/-- The thread alone, from the drain loop to the outer one: a read, a get and a send
for each answer of the operating system, and a last read and get. -/
def drainActs (rets : List ℤ) : List SendAct :=
  rets.flatMap (fun r => List.replicate 3 (.routine 0 r false)) ++
    List.replicate 2 (.routine 0 0 false)

def drainMarks (fd : ℤ) (sends : List (List UInt8 × ℤ)) : List Mark :=
  sends.flatMap fun p => [.taken fd p.1, .wrote fd p.1 (p.1.take p.2.toNat)]

/-- An answer that POSIX allows to a call that does not fail. -/
def Accepted (frame : List UInt8) (r : ℤ) : Prop := 0 < r ∧ r ≤ frame.length

section Drain

variable {s : SendMgr} {c : SendIo}

/-- A send that accepted something counts as a success, however little it was. -/
theorem EpIoRefor.send_of_accepted (refor : EpIoRefor) {frame : List UInt8} {r : ℤ}
    (h : Accepted frame r) :
    0 < (refor.send r frame).code ∧ (refor.send r frame).closed = false ∧
      (refor.send r frame).bytes = frame.take r.toNat := by
  obtain ⟨hpos, hle⟩ := h
  cases refor with
  | server =>
    have hr : r ≠ -1 := by omega
    simp only [EpIoRefor.send, serviceCoreSend, if_neg hr]
    exact ⟨by omega, trivial, trivial⟩
  | client => exact ⟨hpos, rfl, rfl⟩

theorem SendMgr.Wf.step_read (h : s.Wf) (hr : s.routine = .reading c.io) (hc : c ∈ s.ioList)
    (r : ℤ) :
    s.step (.routine 0 r false) = some ({ s with routine := .getting c.io c.fd }, []) := by
  have hd := h.not_returned (by simp [hr])
  simp only [SendMgr.step, if_neg hd, epIoRoutine, hr, h.fdOf_eq hc]

theorem SendMgr.Wf.step_get (h : s.Wf) (hr : s.routine = .getting c.io c.fd) (hc : c ∈ s.ioList)
    {frame : List UInt8} (hsend : c.send = frame :: c.send.tail) (r : ℤ) :
    s.step (.routine 0 r false) =
      some ({ s with
          ioList := updateFd c.fd SendIo.pop s.ioList
          routine := .sending c.io frame }, [.taken c.fd frame]) := by
  have hd := h.not_returned (by simp [hr])
  have hget : s.epIoGet c.fd =
      some ({ s with ioList := updateFd c.fd SendIo.pop s.ioList }, frame) := by
    simp only [epIoGet, h.epIoFind_eq hc]
    rw [hsend]
  simp only [SendMgr.step, if_neg hd, epIoRoutine, hr, hget]

theorem SendMgr.Wf.step_send (h : s.Wf) {frame : List UInt8} (hr : s.routine = .sending c.io frame)
    (hc : c ∈ s.ioList) {r : ℤ} (hret : Accepted frame r) :
    s.step (.routine 0 r false) =
      some ({ s with routine := .reading c.io }, [.wrote c.fd frame (frame.take r.toNat)]) := by
  have hd := h.not_returned (by simp [hr])
  obtain ⟨hcode, hclosed, hbytes⟩ := s.refor.send_of_accepted hret
  have hrange : ¬ (r < -1 ∨ r > frame.length) := by
    have := hret.1; have := hret.2
    omega
  simp only [SendMgr.step, if_neg hd, epIoRoutine, hr, if_neg hrange, h.fdOf_eq hc, hclosed, hbytes,
    Bool.false_eq_true, if_false, if_neg (not_le.mpr hcode)]

/-- One round of the drain loop. -/
theorem exec_drain_round (h : s.Wf) (hr : s.routine = .reading c.io) (hc : c ∈ s.ioList)
    {frame : List UInt8} (hsend : c.send = frame :: c.send.tail) {r : ℤ}
    (hret : Accepted frame r) (marks : List Mark) (es : List SendAct) :
    ∃ s' : SendMgr, s'.Wf ∧ s'.routine = .reading c.io ∧ c.pop ∈ s'.ioList ∧
      exec (traced SendMgr.step) anyStep (s, marks)
          (List.replicate 3 (.routine 0 r false) ++ es) =
        exec (traced SendMgr.step) anyStep
          (s', marks ++ [.taken c.fd frame, .wrote c.fd frame (frame.take r.toNat)]) es := by
  have hread := h.step_read hr hc r
  have h₁ := h.step hread
  have hget := h₁.step_get rfl hc hsend r
  have h₂ := h₁.step hget
  have hpop : c.pop ∈ updateFd c.fd SendIo.pop s.ioList := by
    rw [updateFd_eq_map h.fd_nodup]
    exact List.mem_map.mpr ⟨c, hc, if_pos rfl⟩
  have hsent := h₂.step_send (c := c.pop) rfl hpop hret
  refine ⟨_, h₂.step hsent, rfl, hpop, ?_⟩
  simp only [List.replicate, List.cons_append, List.nil_append]
  rw [exec_traced_cons _ hread, exec_traced_cons _ hget, exec_traced_cons _ hsent]
  simp

/-- The last round finds the queue empty. -/
theorem exec_drain_end (h : s.Wf) (hr : s.routine = .reading c.io) (hc : c ∈ s.ioList)
    (hsend : c.send = []) (marks : List Mark) :
    exec (traced SendMgr.step) anyStep (s, marks) (List.replicate 2 (.routine 0 0 false)) =
      some ({ s with routine := .testing }, marks) := by
  have hread := h.step_read hr hc 0
  have hget : ({ s with routine := .getting c.io c.fd } : SendMgr).step (.routine 0 0 false) =
      some ({ s with routine := .testing }, []) := by
    have hd := h.not_returned (by simp [hr])
    have hnone : ({ s with routine := .getting c.io c.fd } : SendMgr).epIoGet c.fd = none := by
      simp only [SendMgr.epIoGet, (h.step hread).epIoFind_eq hc, hsend]
    simp only [SendMgr.step, if_neg hd, SendMgr.epIoRoutine, hnone]
  simp only [List.replicate]
  rw [exec_traced_cons _ hread, exec_traced_cons _ hget]
  simp [exec]

theorem exec_drain (h : s.Wf) (hr : s.routine = .reading c.io) (hc : c ∈ s.ioList)
    (rets : List ℤ) (hrets : List.Forall₂ Accepted c.send rets) (marks : List Mark) :
    ∃ s' : SendMgr, s'.routine = .testing ∧
      exec (traced SendMgr.step) anyStep (s, marks) (drainActs rets) =
        some (s', marks ++ drainMarks c.fd (c.send.zip rets)) := by
  induction rets generalizing s c marks with
  | nil =>
    have hsend := List.forall₂_nil_right_iff.mp hrets
    refine ⟨{ s with routine := .testing }, rfl, ?_⟩
    rw [show drainActs [] = List.replicate 2 (.routine 0 0 false) from rfl,
      exec_drain_end h hr hc hsend]
    simp [drainMarks]
  | cons r rets ih =>
    obtain ⟨frame, rest, hret, hrest, hsend⟩ := List.forall₂_cons_right_iff.mp hrets
    obtain ⟨s₁, h₁, hr₁, hc₁, hround⟩ := exec_drain_round h hr hc
      (by rw [hsend]; rfl) hret marks (drainActs rets)
    have hpop : c.pop.send = rest := by rw [SendIo.pop, hsend]; rfl
    obtain ⟨s', hr', hexec⟩ := ih (c := c.pop) h₁ hr₁ hc₁ (by rwa [hpop]) _
    refine ⟨s', hr', ?_⟩
    rw [show drainActs (r :: rets) = List.replicate 3 (.routine 0 r false) ++ drainActs rets by
      simp [drainActs], hround, hexec, hpop, hsend]
    simp [drainMarks]

theorem wire_drainMarks (fd : ℤ) (sends : List (List UInt8 × ℤ)) :
    wire fd (drainMarks fd sends) = sends.flatMap fun p => p.1.take p.2.toNat := by
  simp [wire, drainMarks, List.flatMap_assoc, Mark.onWire]

/-- Prefixes make up the whole only if each of them is whole. -/
theorem flatMap_take_eq_flatten_iff {frames : List (List UInt8)} {rets : List ℤ}
    (h : List.Forall₂ Accepted frames rets) :
    ((frames.zip rets).flatMap fun p => p.1.take p.2.toNat) = frames.flatten ↔
      rets = frames.map fun frame => (frame.length : ℤ) := by
  have hshort : ∀ {frames : List (List UInt8)} {rets : List ℤ},
      List.Forall₂ Accepted frames rets →
      ((frames.zip rets).flatMap fun p => p.1.take p.2.toNat).length ≤ frames.flatten.length := by
    intro frames rets h
    induction h with
    | nil => simp
    | cons hret _ ih =>
      simp only [List.zip_cons_cons, List.flatMap_cons, List.length_append, List.length_take,
        List.flatten_cons]
      omega
  induction h with
  | nil => simp
  | @cons frame r frames rets hret hrest ih =>
    simp only [List.zip_cons_cons, List.flatMap_cons, List.flatten_cons, List.map_cons,
      List.cons.injEq]
    constructor
    · intro heq
      have hlen := congrArg List.length heq
      simp only [List.length_append, List.length_take] at hlen
      have hle := hshort hrest
      obtain ⟨hpos, hmax⟩ := hret
      have hr : r.toNat = frame.length := by omega
      rw [hr, List.take_length, List.append_cancel_left_eq] at heq
      exact ⟨by omega, ih.mp heq⟩
    · rintro ⟨rfl, hrets⟩
      rw [Int.toNat_natCast, List.take_length, ih.mpr hrets]

end Drain

/-- Over every state in which the thread turns to a connection, and all answers to its
sends: the drain loop puts the queued frames on the wire, one after the other. -/
def DrainsWhole (refor : EpIoRefor) : Prop :=
  ∀ (s : SendMgr) (past : List Mark) (fd : ℤ) (c : SendIo) (rets : List ℤ),
    Reaches (traced SendMgr.step) anyStep (SendMgr.start refor, []) (s, past) →
    s.epIoFind fd = some c → s.routine = .reading c.io → List.Forall₂ Accepted c.send rets →
    ∃ s' marks, exec (traced SendMgr.step) anyStep (s, []) (drainActs rets) = some (s', marks) ∧
      s'.routine = .testing ∧ wire fd marks = c.send.flatten

theorem SendMgr.wf_of_reaches {refor : EpIoRefor} {ok : SendMgr × List Mark → SendAct → Prop}
    {t : SendMgr × List Mark}
    (h : Reaches (traced SendMgr.step) ok (SendMgr.start refor, []) t) : t.1.Wf := by
  refine h.invariant (P := fun t => t.1.Wf) (wf_start refor) ?_
  rintro ⟨s, w⟩ e ⟨s', w'⟩ hwf - hstep
  obtain ⟨new, hreport, -⟩ := traced_eq_some.mp hstep
  exact Wf.step hwf hreport

/-- The drain loop takes every queued frame and returns; neither send function looks at
how much of a frame was accepted, so the wire carries the frames exactly if the
operating system accepts each of them whole. -/
theorem drain_whole_iff (refor : EpIoRefor) (s : SendMgr) (past : List Mark) (fd : ℤ) (c : SendIo)
    (rets : List ℤ)
    (h : Reaches (traced SendMgr.step) anyStep (SendMgr.start refor, []) (s, past))
    (hfind : s.epIoFind fd = some c) (hr : s.routine = .reading c.io)
    (hrets : List.Forall₂ Accepted c.send rets) :
    ∃ s' marks, exec (traced SendMgr.step) anyStep (s, []) (drainActs rets) = some (s', marks) ∧
      s'.routine = .testing ∧
      (wire fd marks = c.send.flatten ↔ rets = c.send.map fun frame => (frame.length : ℤ)) := by
  obtain ⟨hc, rfl⟩ := SendMgr.mem_of_epIoFind hfind
  obtain ⟨s', hr', hexec⟩ := exec_drain (SendMgr.wf_of_reaches h) hr hc rets hrets []
  refine ⟨s', _, hexec, hr', ?_⟩
  rw [List.nil_append, wire_drainMarks]
  exact flatMap_take_eq_flatten_iff hrets

/-- Two replies, the first of two bytes, and the thread at the head of the drain loop. -/
def pendingMgr (refor : EpIoRefor) : SendMgr :=
  ⟨refor, [⟨0, 5, [[1, 2], [3]]⟩], [0], false, .reading 0, .idle⟩

theorem reaches_pendingMgr (refor : EpIoRefor) :
    Reaches (traced SendMgr.step) anyStep (SendMgr.start refor, [])
      (pendingMgr refor, [.added 5, .pushed 5 [1, 2], .pushed 5 [3]]) :=
  reaches_of_exec [.add 5 0, .reply 5 [1, 2], .reply 5 [3], .routine 0 0 false,
    .routine 0 0 false] rfl

/-- Both frames are accepted whole. -/
theorem drain_whole_pending :
    ∃ s past, Reaches (traced SendMgr.step) anyStep (SendMgr.start .server, []) (s, past) ∧
      ∃ s' marks, exec (traced SendMgr.step) anyStep (s, []) (drainActs [2, 1]) =
          some (s', marks) ∧ s'.routine = .testing ∧ wire 5 marks = [1, 2, 3] := by
  obtain ⟨s', marks, hexec, hr, hwire⟩ := drain_whole_iff .server _ _ 5 ⟨0, 5, [[1, 2], [3]]⟩ [2, 1]
    (reaches_pendingMgr .server) rfl rfl
    (.cons ⟨by decide, by decide⟩ (.cons ⟨by decide, by decide⟩ .nil))
  exact ⟨_, _, reaches_pendingMgr .server, s', marks, hexec, hr, hwire.mpr rfl⟩

/-- A call that accepts the first of two bytes loses the second. -/
theorem drain_short : ¬ DrainsWhole .server ∧ ¬ DrainsWhole .client := by
  have hshort : ∀ refor, ¬ DrainsWhole refor := by
    intro refor hwhole
    have hret : List.Forall₂ Accepted [[1, 2], [3]] [1, 1] :=
      .cons ⟨by decide, by decide⟩ (.cons ⟨by decide, by decide⟩ .nil)
    obtain ⟨s', marks, hexec, -, hwire⟩ := hwhole (pendingMgr refor) _ 5 ⟨0, 5, [[1, 2], [3]]⟩
      [1, 1] (reaches_pendingMgr refor) rfl rfl hret
    have hmarks : marks = [.taken 5 [1, 2], .wrote 5 [1, 2] [1], .taken 5 [3],
        .wrote 5 [3] [3]] := by
      cases refor <;> exact (Prod.mk.inj (Option.some.inj hexec)).2.symm
    rw [hmarks] at hwire
    exact absurd hwire (by decide)
  exact ⟨hshort .server, hshort .client⟩

end Youmenu.Eventpack
