import Mathlib.Data.List.Infix
import Youmenu.Eventpack.ThreadPool

/-!
# Stopping a service, and stopping a client

A service and a client consist of the same parts: an io manager with its thread pool, a
dispatch manager, the workers in `ep_io_processor`, and one thread that reads from the
sockets. The thread that stops them releases the two managers, in an order that is not the
same for both. A step reports which managers it touches, and whether they are still there.

Sections under the mutex of the io manager are single steps, and so is the release of a
manager; the mutex of the dispatch manager is held during a callback.

## Main definitions

* `epServiceStop`, `epClientStop` — what the stopping thread does.
* `taskStep`, `readerStep` — the accesses of a worker and of the reading thread.
* `Endpoint.step` — all of them together with the thread pool.
* `Endpoint.Orderly` — who has to be done before a manager is released.

## Main statements

* `worker_io_live` — no worker touches a released io manager.
* `stop_uses_live` — in an orderly run nothing that was released is touched.
-/

namespace Youmenu.Eventpack.Shutdown

open Transition

inductive Manager where
  | io
  | disp
deriving DecidableEq

inductive Side where
  | service
  | client
deriving DecidableEq

/-! ## The stopping thread -/

inductive StopOp where
  /-- `service_core_stop` closes the listening socket; the event loop goes on. -/
  | coreStop
  /-- `recv_loop` is cleared and the socket is closed. -/
  | sockClose
  | ioStop
  | ioDel
  | dispDestroy
  /-- The send thread is told to end and joined. -/
  | joinSend
  /-- The connections and the queue are released. -/
  | freeIos
  | tpDestroy
  /-- The manager is released and its pointer cleared, here in one step. -/
  | freeIoMgr
  /-- The receive thread is joined. -/
  | joinRecv
deriving DecidableEq

def epIoDestroy : List StopOp := [.joinSend, .freeIos, .tpDestroy, .freeIoMgr]

def epServiceStop : List StopOp := .coreStop :: .dispDestroy :: epIoDestroy

def epClientStop : List StopOp :=
  .sockClose :: .ioStop :: .ioDel :: (epIoDestroy ++ [.joinRecv, .dispDestroy])

def Side.stop : Side → List StopOp
  | .service => epServiceStop
  | .client => epClientStop

def StopOp.uses : StopOp → List Manager
  | .ioStop | .ioDel | .joinSend | .freeIos | .tpDestroy | .freeIoMgr => [.io]
  | .dispDestroy => [.disp]
  | .coreStop | .sockClose | .joinRecv => []

/-! ## A worker -/

/-- Where a worker stands in `ep_io_processor`. -/
inductive TaskAt where
  /-- Not in it. -/
  | idle
  | entered
  /-- Before `ep_disp_processor`. -/
  | dispatching
  /-- In it, with the mutex of the dispatch manager. -/
  | inDisp
  /-- Before `ep_io_combine_shell`. -/
  | replying
  /-- Before the reply is queued. -/
  | queueing
  | done
deriving DecidableEq

inductive TaskAct where
  /-- `ep_io_recombine_original` and `ep_pack_create`. -/
  | recombine (ok : Bool)
  | noBody
  | dispatch
  /-- The callback uses the io manager. -/
  | callback
  | unlock (reply : Bool)
  | combine (ok : Bool)
  | queue
deriving DecidableEq

/-- One step of `ep_io_processor`, and what it touches. The dispatch manager is found through
the io manager. -/
def taskStep : TaskAt → TaskAct → Option (TaskAt × List Manager)
  | .entered, .recombine ok => some (if ok then .dispatching else .done, [.io])
  | .entered, .noBody => some (.dispatching, [])
  | .dispatching, .dispatch => some (.inDisp, [.io, .disp])
  | .inDisp, .callback => some (.inDisp, [.io])
  | .inDisp, .unlock reply => some (if reply then .replying else .done, [.disp])
  | .replying, .combine ok => some (if ok then .queueing else .done, [.io])
  | .queueing, .queue => some (.done, [.io])
  | _, _ => none

/-- The dispatch manager is still needed. -/
def TaskAt.dispatches : TaskAt → Bool
  | .entered | .dispatching | .inDisp => true
  | .idle | .replying | .queueing | .done => false

/-! ## The reading thread -/

/-- Where the event loop stands in a callback of the service, or where the receive thread of a
client stands in `ep_client_routine`. -/
inductive ReaderAt where
  | outside
  /-- `s_io_mgr` has been compared with `NULL`. -/
  | checked
  /-- In `ep_io_enqueue`. -/
  | inside
  /-- Before `ep_io_del`. -/
  | failing
  | gone
deriving DecidableEq

inductive ReaderAct where
  | check
  | enter
  | leave (ok : Bool)
  /-- `ep_io_add` or `ep_io_del`. -/
  | entry
  /-- `recv` has returned nothing, or `recv_loop` is clear. -/
  | hangUp
deriving DecidableEq

/-- One step of the reading thread; `io` says whether the io manager is there. -/
def readerStep (side : Side) (io : Bool) : ReaderAt → ReaderAct → Option (ReaderAt × List Manager)
  | .outside, .check => if side = .service ∧ io then some (.checked, []) else none
  | .outside, .enter => if side = .client then some (.inside, [.io]) else none
  | .outside, .hangUp => if side = .client then some (.failing, []) else none
  | .checked, .enter => some (.inside, [.io])
  | .checked, .entry => some (.outside, [.io])
  | .inside, .leave ok => some (if ok then .outside else .failing, [.io])
  | .failing, .entry => some (if side = .client then .gone else .outside, [.io])
  | _, _ => none

/-- Where the reading thread touches the io manager no more, unless it finds it once again. -/
def Side.settled : Side → ReaderAt
  | .service => .outside
  | .client => .gone

/-! ## Together -/

structure Endpoint (n : ℕ) where
  side : Side
  pool : TpPool n
  tasks : Fin n → TaskAt
  reader : ReaderAt
  /-- What the stopping thread has not done yet. -/
  todo : List StopOp

def Endpoint.start (n : ℕ) (side : Side) : Endpoint n :=
  ⟨side, .start n, fun _ => .idle, .outside, side.stop⟩

inductive Act (n : ℕ) where
  /-- A thread of the pool, outside of `ep_io_processor`. -/
  | thread (i : Fin n)
  | task (i : Fin n) (act : TaskAct)
  | reader (act : ReaderAct)
  /-- The reading thread is in `ep_tp_worker_register`. -/
  | registerCheck
  | registerInsert (addr : ℕ)
  | stop
deriving DecidableEq

/-- The thread has taken a worker and has not called it yet. -/
def takes : TpThread → Bool
  | .starting _ => true
  | _ => false

namespace Endpoint

variable {n : ℕ} (s : Endpoint n)

/-- A manager is there until it is released. -/
def live : Manager → Bool
  | .io => .freeIoMgr ∈ s.todo
  | .disp => .dispDestroy ∈ s.todo

def threadStep (i : Fin n) : Option (Endpoint n) :=
  if s.tasks i ≠ .idle ∧ s.tasks i ≠ .done then none
  else (s.pool.step (.thread i)).map fun r =>
    let at' := match r.1.threads i with
      | .running _ => TaskAt.entered
      | _ => .idle
    { s with pool := r.1, tasks := Function.update s.tasks i at' }

/-- A worker waits for the mutex of the dispatch manager. -/
def workerStep (i : Fin n) (act : TaskAct) : Option (Endpoint n × List Manager) :=
  if act = .dispatch ∧ ∃ j, s.tasks j = .inDisp then none
  else (taskStep (s.tasks i) act).map fun r =>
    ({ s with tasks := Function.update s.tasks i r.1 }, r.2)

/-- A call of `ep_io_enqueue` ends when its tasks are registered. -/
def readStep (act : ReaderAct) : Option (Endpoint n × List Manager) :=
  if s.reader = .inside ∧ s.pool.registering ≠ 0 then none
  else (readerStep s.side (s.live .io) s.reader act).map fun r => ({ s with reader := r.1 }, r.2)

def registerStep (act : TpAct n) : Option (Endpoint n × List Manager) :=
  if s.reader = .inside then (s.pool.step act).map fun r => ({ s with pool := r.1 }, [.io])
  else none

/-- What the stopping thread waits for. -/
def ready : StopOp → Prop
  | .dispDestroy => ∀ j, s.tasks j ≠ .inDisp
  | .tpDestroy => s.pool.destroyer = .returned
  | .joinRecv => s.reader = .gone
  | _ => True

instance (op : StopOp) : Decidable (s.ready op) :=
  match op with
  | .dispDestroy => inferInstanceAs (Decidable (∀ j, s.tasks j ≠ .inDisp))
  | .tpDestroy => inferInstanceAs (Decidable (s.pool.destroyer = .returned))
  | .joinRecv => inferInstanceAs (Decidable (s.reader = .gone))
  | .coreStop | .sockClose | .ioStop | .ioDel | .joinSend | .freeIos | .freeIoMgr =>
    inferInstanceAs (Decidable True)

def stopStep : Option (Endpoint n × List Manager) :=
  match s.todo with
  | [] => none
  | op :: rest =>
    if s.ready op then some ({ s with todo := rest }, op.uses)
    else if op = .tpDestroy then
      (s.pool.step (.destroy .wait)).map fun r => ({ s with pool := r.1 }, op.uses)
    else none

/-- The next state, and the managers that the step touches. -/
def next : Act n → Option (Endpoint n × List Manager)
  | .thread i => (s.threadStep i).map fun s => (s, [])
  | .task i act => s.workerStep i act
  | .reader act => s.readStep act
  | .registerCheck => s.registerStep .check
  | .registerInsert addr => s.registerStep (.insert addr)
  | .stop => s.stopStep

/-- What is reported of a step: every manager that it touches, and whether it is there. -/
def step (act : Act n) : Option (Endpoint n × List (Manager × Bool)) :=
  (s.next act).map fun r => (r.1, r.2.map fun m => (m, s.live m))

/-- No task is waiting or under way whose callback has not returned. -/
def Quiet : Prop :=
  s.pool.workerQueue = [] ∧
    ∀ i, takes (s.pool.threads i) = false ∧ (s.tasks i).dispatches = false

instance : Decidable s.Quiet := inferInstanceAs (Decidable (_ ∧ _))

/-- When a manager may be released: a service gives up its dispatch manager when every task has
been dispatched, and the io manager goes when the reading thread is done with it. -/
def releasable : StopOp → Prop
  | .dispDestroy => s.side = .service → s.Quiet
  | .freeIoMgr => s.reader = s.side.settled
  | _ => True

instance (op : StopOp) : Decidable (s.releasable op) :=
  match op with
  | .dispDestroy => inferInstanceAs (Decidable (s.side = .service → s.Quiet))
  | .freeIoMgr => inferInstanceAs (Decidable (s.reader = s.side.settled))
  | .coreStop | .sockClose | .ioStop | .ioDel | .joinSend | .freeIos | .tpDestroy | .joinRecv =>
    inferInstanceAs (Decidable True)

/-- A service registers no task any more when its dispatch manager is gone. -/
def orderly : Act n → Prop
  | .stop => ∀ op ∈ s.todo.head?, s.releasable op
  | .registerInsert _ => s.side = .service → s.live .disp = true
  | _ => True

instance (act : Act n) : Decidable (s.orderly act) :=
  match act with
  | .stop => inferInstanceAs (Decidable (∀ op ∈ s.todo.head?, s.releasable op))
  | .registerInsert _ => inferInstanceAs (Decidable (s.side = .service → s.live .disp = true))
  | .thread _ | .task _ _ | .reader _ | .registerCheck => inferInstanceAs (Decidable True)

end Endpoint

def Orderly {n : ℕ} (t : Endpoint n × List (Manager × Bool)) (act : Act n) : Prop :=
  t.1.orderly act

instance {n : ℕ} (t : Endpoint n × List (Manager × Bool)) (act : Act n) :
    Decidable (Orderly t act) := inferInstanceAs (Decidable (t.1.orderly act))

/-! ## The order of the stop -/

/-- What is left of a stop, at every point of it: as long as the io manager is used it is
released later, and the thread pool is destroyed before that. A client gives its dispatch
manager up last. -/
theorem stop_order {side : Side} {todo : List StopOp} (h : todo <:+ side.stop) :
    (.freeIoMgr ∉ todo → .tpDestroy ∉ todo) ∧
      (∀ op ∈ todo.head?, .io ∈ op.uses → .freeIoMgr ∈ todo) ∧
      (side = .client → .dispDestroy ∉ todo.tail → .tpDestroy ∉ todo) := by
  have hall : ∀ todo ∈ side.stop.tails, (.freeIoMgr ∉ todo → .tpDestroy ∉ todo) ∧
      (∀ op ∈ todo.head?, .io ∈ op.uses → .freeIoMgr ∈ todo) ∧
      (side = .client → .dispDestroy ∉ todo.tail → .tpDestroy ∉ todo) := by
    cases side <;> decide
  exact hall todo ((List.mem_tails ..).mpr h)

/-! ## What a step of the pool does -/

section Pool

variable {n : ℕ} {p p' : TpPool n} {marks : List TpMark}

/-- A step of a thread changes this thread alone. -/
structure ThreadMoves (p p' : TpPool n) (i : Fin n) : Prop where
  destroyer : p'.destroyer = p.destroyer
  others : ∀ j, j ≠ i → p'.threads j = p.threads j
  running : ∀ w, p'.threads i = .running w → p.threads i = .starting w
  empty : p.workerQueue = [] → p'.workerQueue = [] ∧ takes (p'.threads i) = false

theorem ThreadMoves.moveTo {q : TpPool n} {i : Fin n} {at' : TpThread}
    (hd : q.destroyer = p.destroyer) (hthreads : q.threads = p.threads)
    (hrunning : ∀ w, at' = .running w → p.threads i = .starting w)
    (hempty : p.workerQueue = [] → q.workerQueue = [] ∧ takes at' = false) :
    ThreadMoves p (q.moveTo i at') i := by
  have hself : (q.moveTo i at').threads i = at' := by rw [TpPool.threads_moveTo, if_pos rfl]
  refine ⟨hd, fun j hj => ?_, fun w hw => hrunning w (hself.symm.trans hw), fun hq => ?_⟩
  · rw [TpPool.threads_moveTo, if_neg hj, hthreads]
  · rw [hself]
    exact hempty hq

theorem ThreadMoves.scan (i : Fin n) : ThreadMoves p (p.scan i).1 i := by
  unfold TpPool.scan
  split
  · next w queue hq => exact .moveTo rfl rfl nofun (by simp [hq])
  · next hq =>
    split_ifs
    · exact .moveTo rfl rfl nofun fun _ => ⟨hq, rfl⟩
    · exact .moveTo rfl rfl nofun fun _ => ⟨hq, rfl⟩

theorem threadMoves {i : Fin n} (h : p.step (.thread i) = some (p', marks)) :
    p.destroyer ≠ .returned ∧ ThreadMoves p p' i := by
  unfold TpPool.step at h
  split_ifs at h with hreturned
  refine ⟨hreturned, ?_⟩
  simp only [TpPool.epTpRoutine] at h
  split at h
  · cases h
    split_ifs
    · exact .moveTo rfl rfl nofun fun hq => ⟨hq, rfl⟩
    · exact .moveTo rfl rfl nofun fun hq => ⟨hq, rfl⟩
  · have hscan := ThreadMoves.scan (p := p) i
    rwa [Option.some.inj h] at hscan
  · have hscan := ThreadMoves.scan (p := p) i
    rwa [Option.some.inj h] at hscan
  · next w hat =>
    cases h
    exact .moveTo rfl rfl (by rintro w ⟨⟩; exact hat) fun hq => ⟨hq, rfl⟩
  · cases h
    exact .moveTo rfl rfl nofun fun hq => ⟨hq, rfl⟩
  · cases h
    exact .moveTo rfl rfl nofun fun hq => ⟨hq, rfl⟩
  · cases h
    exact .moveTo rfl rfl nofun fun hq => ⟨by simp [hq], rfl⟩
  · cases h

/-- A step of `ep_tp_destroy` changes no thread, and leaves an empty queue empty. -/
theorem epTpDestroy_moves {type : TpKill} (h : p.epTpDestroy type = some (p', marks)) :
    p'.threads = p.threads ∧ (p.workerQueue = [] → p'.workerQueue = []) ∧
      (p'.destroyer = .returned → p'.workerQueue = []) := by
  unfold TpPool.epTpDestroy at h
  split at h
  · split at h <;> cases h <;> exact ⟨rfl, id, nofun⟩
  · next hd =>
    split at h <;> cases h
    · exact ⟨rfl, id, nofun⟩
    · exact ⟨rfl, id, fun hr => by simp [hd] at hr⟩
  · cases h
    exact ⟨rfl, id, nofun⟩
  · split_ifs at h <;> cases h <;> exact ⟨rfl, id, nofun⟩
  · next hd =>
    split at h
    · next hq =>
      cases h
      exact ⟨rfl, by simp [hq], fun hr => by simp [hd] at hr⟩
    · next hq =>
      cases h
      exact ⟨rfl, id, fun _ => hq⟩
  · cases h

theorem destroyMoves {type : TpKill} (h : p.step (.destroy type) = some (p', marks)) :
    p'.threads = p.threads ∧ (p.workerQueue = [] → p'.workerQueue = []) ∧
      (p'.destroyer = .returned → p'.workerQueue = []) := by
  unfold TpPool.step at h
  split_ifs at h
  exact epTpDestroy_moves h

/-- A registration changes no thread. -/
theorem registerMoves {act : TpAct n} (hact : act = .check ∨ ∃ addr, act = .insert addr)
    (h : p.step act = some (p', marks)) :
    p.destroyer ≠ .returned ∧ p'.destroyer = p.destroyer ∧ p'.threads = p.threads ∧
      (act = .check → p'.workerQueue = p.workerQueue) := by
  unfold TpPool.step at h
  split_ifs at h with hreturned
  refine ⟨hreturned, ?_⟩
  rcases hact with rfl | ⟨addr, rfl⟩
  · cases h
    unfold TpPool.registerCheck
    split_ifs <;> exact ⟨rfl, rfl, fun _ => rfl⟩
  · have hinsert : p.registerInsert addr = some (p', marks) := h
    unfold TpPool.registerInsert at hinsert
    split_ifs at hinsert
    cases hinsert
    exact ⟨rfl, rfl, nofun⟩

end Pool

/-! ## What a step does -/

/-- The call of the pool that a registration makes. -/
def Act.registers {n : ℕ} : Act n → TpAct n → Prop
  | .registerCheck, act => act = .check
  | .registerInsert addr, act => act = .insert addr
  | _, _ => False

inductive Moves {n : ℕ} (s : Endpoint n) : Act n → Endpoint n → List Manager → Prop
  | thread {i : Fin n} {p : TpPool n} {marks : List TpMark} {at' : TaskAt}
      (hp : s.pool.step (.thread i) = some (p, marks))
      (hat : at' ≠ .idle → at' = .entered ∧ ∃ w, p.threads i = .running w) :
      Moves s (.thread i) { s with pool := p, tasks := Function.update s.tasks i at' } []
  | task {i : Fin n} {act : TaskAct} {at' : TaskAt} {uses : List Manager}
      (hact : taskStep (s.tasks i) act = some (at', uses)) :
      Moves s (.task i act) { s with tasks := Function.update s.tasks i at' } uses
  | reader {act : ReaderAct} {at' : ReaderAt} {uses : List Manager}
      (hact : readerStep s.side (s.live .io) s.reader act = some (at', uses)) :
      Moves s (.reader act) { s with reader := at' } uses
  | register {act : Act n} {tpAct : TpAct n} {p : TpPool n} {marks : List TpMark}
      (hact : act.registers tpAct) (hinside : s.reader = .inside)
      (hp : s.pool.step tpAct = some (p, marks)) : Moves s act { s with pool := p } [.io]
  | stop {op : StopOp} {rest : List StopOp} (htodo : s.todo = op :: rest) (hready : s.ready op) :
      Moves s .stop { s with todo := rest } op.uses
  | destroy {rest : List StopOp} {p : TpPool n} {marks : List TpMark}
      (htodo : s.todo = .tpDestroy :: rest)
      (hp : s.pool.step (.destroy .wait) = some (p, marks)) :
      Moves s .stop { s with pool := p } [.io]

section Runs

variable {n : ℕ} {s s' : Endpoint n} {act : Act n} {uses : List Manager}

theorem registers_cases {tpAct : TpAct n} (h : act.registers tpAct) :
    tpAct = .check ∨ ∃ addr, tpAct = .insert addr := by
  cases act with
  | registerCheck => exact .inl h
  | registerInsert addr => exact .inr ⟨addr, h⟩
  | _ => exact h.elim

theorem Endpoint.registerStep_cases {tpAct : TpAct n} (hact : act.registers tpAct)
    (h : s.registerStep tpAct = some (s', uses)) : Moves s act s' uses := by
  unfold registerStep at h
  split_ifs at h with hinside
  obtain ⟨r, hp, heq⟩ := Option.map_eq_some_iff.mp h
  cases heq
  exact .register hact hinside hp

theorem Endpoint.next_cases (h : s.next act = some (s', uses)) : Moves s act s' uses := by
  cases act with
  | thread i =>
    obtain ⟨s₁, hthread, heq⟩ := Option.map_eq_some_iff.mp h
    cases heq
    unfold threadStep at hthread
    split_ifs at hthread
    obtain ⟨r, hp, rfl⟩ := Option.map_eq_some_iff.mp hthread
    refine .thread hp fun hat => ?_
    split at hat
    · next w hw => exact ⟨rfl, w, hw⟩
    · exact absurd rfl hat
  | task i act =>
    simp only [next, workerStep] at h
    split_ifs at h
    obtain ⟨r, hr, heq⟩ := Option.map_eq_some_iff.mp h
    cases heq
    exact .task hr
  | reader act =>
    simp only [next, readStep] at h
    split_ifs at h
    obtain ⟨r, hr, heq⟩ := Option.map_eq_some_iff.mp h
    cases heq
    exact .reader hr
  | registerCheck => exact registerStep_cases rfl h
  | registerInsert addr => exact registerStep_cases rfl h
  | stop =>
    simp only [next, stopStep] at h
    split at h
    · cases h
    · next op rest htodo =>
      split_ifs at h with hready htp
      · cases h
        exact .stop htodo hready
      · obtain ⟨r, hp, heq⟩ := Option.map_eq_some_iff.mp h
        cases heq
        subst htp
        exact .destroy htodo hp

/-! ## Workers are joined before the io manager goes -/

/-- What holds in every run: only threads in a callback are in `ep_io_processor`, and none is
left when the pool has been destroyed. -/
structure Endpoint.Joined (s : Endpoint n) : Prop where
  order : s.todo <:+ s.side.stop
  tidy : s.pool.Tidy
  swept : s.pool.destroyer = .returned → s.pool.workerQueue = []
  active : ∀ i, s.tasks i ≠ .idle → ∃ w, s.pool.threads i = .running w
  joined : .tpDestroy ∉ s.todo → s.pool.destroyer = .returned

theorem Endpoint.Joined.start (n : ℕ) (side : Side) : (Endpoint.start n side).Joined where
  order := List.suffix_rfl
  tidy := .start n
  swept := nofun
  active := fun _ h => absurd rfl h
  joined := by
    have htp : .tpDestroy ∈ side.stop := by cases side <;> decide
    exact fun h => absurd htp h

/-- Nobody is left in the pool. -/
theorem Endpoint.Joined.ended (h : s.Joined) (htp : .tpDestroy ∉ s.todo) (i : Fin n) :
    s.pool.threads i = .exited ∧ s.tasks i = .idle := by
  have hexited := h.tidy.joined (.inr (h.joined htp)) i
  refine ⟨hexited, ?_⟩
  by_contra hactive
  obtain ⟨w, hw⟩ := h.active i hactive
  rw [hexited] at hw
  cases hw

/-- A worker in `ep_io_processor` still has the io manager. -/
theorem Endpoint.Joined.io_live (h : s.Joined) {i : Fin n} (hi : s.tasks i ≠ .idle) :
    s.live .io = true := by
  by_contra hdead
  have hfree : .freeIoMgr ∉ s.todo := by simpa [live] using hdead
  exact hi (h.ended ((stop_order h.order).1 hfree) i).2

theorem Endpoint.Joined.step (h : s.Joined) (hmove : Moves s act s' uses) : s'.Joined := by
  cases hmove with
  | @thread i p marks at' hp hat =>
    obtain ⟨hne, hmoves⟩ := threadMoves hp
    refine ⟨h.order, h.tidy.step (TpPool.step_cases hp), ?_, ?_, ?_⟩
    · exact fun hr => absurd (hmoves.destroyer.symm.trans hr) hne
    · intro j hj
      simp only [Function.update_apply] at hj
      split_ifs at hj with hji
      · subst hji
        exact (hat hj).2
      · obtain ⟨w, hw⟩ := h.active j hj
        exact ⟨w, (hmoves.others j hji).trans hw⟩
    · exact fun htp => hmoves.destroyer.trans (h.joined htp)
  | @task i act at' uses hact =>
    refine ⟨h.order, h.tidy, h.swept, fun j hj => h.active j ?_, h.joined⟩
    simp only [Function.update_apply] at hj
    split_ifs at hj with hji
    · subst hji
      intro hidle
      rw [hidle] at hact
      cases hact
    · exact hj
  | reader hact => exact ⟨h.order, h.tidy, h.swept, h.active, h.joined⟩
  | register hact hinside hp =>
    obtain ⟨hne, hd, hthreads, -⟩ := registerMoves (registers_cases hact) hp
    refine ⟨h.order, h.tidy.step (TpPool.step_cases hp), fun hr => absurd (hd.symm.trans hr) hne,
      fun i hi => ?_, fun htp => hd.trans (h.joined htp)⟩
    simpa only [hthreads] using h.active i hi
  | stop htodo hready =>
    have horder := h.order
    rw [htodo] at horder
    refine ⟨(List.suffix_cons ..).trans horder, h.tidy, h.swept, h.active, fun htp => ?_⟩
    -- the pool is destroyed here, or was destroyed before
    by_cases hop : .tpDestroy ∈ s.todo
    · rw [htodo, List.mem_cons] at hop
      rcases hop with rfl | hin
      · exact hready
      · exact absurd hin htp
    · exact h.joined hop
  | destroy htodo hp =>
    obtain ⟨hthreads, -, hswept⟩ := destroyMoves hp
    refine ⟨h.order, h.tidy.step (TpPool.step_cases hp), hswept, fun i hi => ?_, fun htp => ?_⟩
    · simpa only [hthreads] using h.active i hi
    · exact absurd (by simp [htodo]) htp

/-! ## Nothing is used that is gone -/

/-- What an orderly stop keeps besides. -/
structure Endpoint.Settled (s : Endpoint n) : Prop where
  reader : s.live .io = false → s.reader = s.side.settled
  quiet : s.live .disp = false → s.Quiet

theorem Endpoint.Settled.start (n : ℕ) (side : Side) : (Endpoint.start n side).Settled := by
  cases side <;> exact ⟨nofun, nofun⟩

/-- The dispatch manager is touched before the callback has returned, and nobody comes back to
that. -/
theorem taskStep_disp {at' at'' : TaskAt} {act : TaskAct} {uses : List Manager}
    (h : taskStep at' act = some (at'', uses)) :
    (.disp ∈ uses → at'.dispatches = true) ∧ (at''.dispatches = true → at'.dispatches = true) := by
  unfold taskStep at h
  split at h <;> cases h
  all_goals refine ⟨by decide, ?_⟩
  all_goals first | decide | (split_ifs <;> decide)

/-- A thread that is done with the io manager does not come back. -/
theorem readerStep_settled (side : Side) (act : ReaderAct) :
    readerStep side false side.settled act = none := by
  cases side <;> cases act <;> rfl

theorem readerStep_uses {side : Side} {io : Bool} {at' at'' : ReaderAt} {act : ReaderAct}
    {uses : List Manager} (h : readerStep side io at' act = some (at'', uses)) : .disp ∉ uses := by
  unfold readerStep at h
  split at h
  all_goals (try split_ifs at h) <;> cases h <;> decide

theorem stopOp_uses_disp {op : StopOp} (h : .disp ∈ op.uses) : op = .dispDestroy := by
  revert h
  cases op <;> decide

/-- A thread inside `ep_io_enqueue` is not done with the io manager. -/
theorem Endpoint.Settled.inside (h : s.Settled) (hinside : s.reader = .inside) :
    s.live .io = true := by
  by_contra hdead
  have hsettled := h.reader (by simpa using hdead)
  rw [hinside] at hsettled
  revert hsettled
  cases s.side <;> decide

theorem Endpoint.Settled.uses_live (h : s.Settled) (hj : s.Joined) (hmove : Moves s act s' uses) :
    ∀ m ∈ uses, s.live m = true := by
  intro m hm
  cases hmove with
  | thread => cases hm
  | @task i act at' uses hact =>
    cases m with
    | io =>
      refine hj.io_live (i := i) fun hidle => ?_
      rw [hidle] at hact
      cases hact
    | disp =>
      by_contra hdead
      have hquiet := h.quiet (by simpa using hdead)
      have hneeded := (taskStep_disp hact).1 hm
      rw [(hquiet.2 i).2] at hneeded
      cases hneeded
  | reader hact =>
    cases m with
    | io =>
      by_contra hdead
      have hgone : s.live .io = false := by simpa using hdead
      rw [hgone, h.reader hgone, readerStep_settled] at hact
      cases hact
    | disp => exact absurd hm (readerStep_uses hact)
  | register hact hinside hp =>
    obtain rfl := List.mem_singleton.mp hm
    exact h.inside hinside
  | @stop op rest htodo hready =>
    cases m with
    | io =>
      have hlive := (stop_order hj.order).2.1 op (by simp [htodo]) hm
      simpa [live] using hlive
    | disp => simp [live, htodo, stopOp_uses_disp hm]
  | destroy htodo hp =>
    obtain rfl := List.mem_singleton.mp hm
    have hlive := (stop_order hj.order).2.1 .tpDestroy (by simp [htodo]) (by decide)
    simpa [live] using hlive

/-- The dispatch manager of a client outlives its workers. -/
theorem Endpoint.Joined.client_quiet (h : s.Joined) (hclient : s.side = .client)
    (hdisp : .dispDestroy ∉ s.todo.tail) : s.Quiet := by
  have htp := (stop_order h.order).2.2 hclient hdisp
  refine ⟨h.swept (h.joined htp), fun i => ?_⟩
  obtain ⟨hexited, hidle⟩ := h.ended htp i
  rw [hexited, hidle]
  exact ⟨rfl, rfl⟩

theorem Endpoint.Quiet.thread (h : s.Quiet) {i : Fin n} {p : TpPool n} {marks : List TpMark}
    {at' : TaskAt} (hp : s.pool.step (.thread i) = some (p, marks))
    (hat : at' ≠ .idle → at' = .entered ∧ ∃ w, p.threads i = .running w) :
    ({ s with pool := p, tasks := Function.update s.tasks i at' } : Endpoint n).Quiet := by
  obtain ⟨-, hmoves⟩ := threadMoves hp
  obtain ⟨hqueue, htakes⟩ := hmoves.empty h.1
  refine ⟨hqueue, fun j => ?_⟩
  simp only [Function.update_apply]
  split_ifs with hji
  · subst hji
    refine ⟨htakes, ?_⟩
    -- nobody is about to call a worker
    by_cases hidle : at' = .idle
    · rw [hidle]
      rfl
    · obtain ⟨-, w, hw⟩ := hat hidle
      have hstarting := (h.2 j).1
      rw [hmoves.running w hw] at hstarting
      cases hstarting
  · rw [hmoves.others j hji]
    exact h.2 j

theorem Endpoint.Settled.step (h : s.Settled) (hj : s.Joined) (hok : s.orderly act)
    (hmove : Moves s act s' uses) : s'.Settled := by
  cases hmove with
  | thread hp hat => exact ⟨h.reader, fun hdead => (h.quiet hdead).thread hp hat⟩
  | @task i act at' uses hact =>
    refine ⟨h.reader, fun hdead => ⟨(h.quiet hdead).1, fun j => ?_⟩⟩
    have hquiet := (h.quiet hdead).2 j
    simp only [Function.update_apply]
    split_ifs with hji
    · subst hji
      refine ⟨hquiet.1, ?_⟩
      by_contra hneeded
      have hbefore := (taskStep_disp hact).2 (by simpa using hneeded)
      rw [hquiet.2] at hbefore
      cases hbefore
    · exact hquiet
  | reader hact =>
    refine ⟨fun hdead => ?_, h.quiet⟩
    have hgone : s.live .io = false := hdead
    rw [hgone, h.reader hgone, readerStep_settled] at hact
    cases hact
  | @register act tpAct p marks hact hinside hp =>
    obtain ⟨hne, -, hthreads, hqueue⟩ := registerMoves (registers_cases hact) hp
    refine ⟨h.reader, fun hdead => ?_⟩
    have hquiet := h.quiet hdead
    cases act with
    | registerCheck =>
      refine ⟨(hqueue hact).trans hquiet.1, fun i => ?_⟩
      simpa only [hthreads] using hquiet.2 i
    | registerInsert addr =>
      -- the service does not come here, and the pool of the client is gone
      cases hside : s.side with
      | service =>
        have hlive := hok hside
        rw [show s.live .disp = false from hdead] at hlive
        cases hlive
      | client =>
        have hdisp : .dispDestroy ∉ s.todo := by simpa [live] using hdead
        have htp := (stop_order hj.order).2.2 hside fun hin => hdisp (List.mem_of_mem_tail hin)
        exact absurd (hj.joined htp) hne
    | _ => exact hact.elim
  | @stop op rest htodo hready =>
    have hallowed := hok op (by simp [htodo])
    refine ⟨fun hdead => ?_, fun hdead => ?_⟩
    · by_cases hop : op = .freeIoMgr
      · subst hop
        exact hallowed
      · exact h.reader (by simpa [live, htodo, Ne.symm hop] using hdead)
    · by_cases hop : op = .dispDestroy
      · subst hop
        cases hside : s.side with
        | service => exact hallowed hside
        | client => exact hj.client_quiet hside (by simpa [live, htodo] using hdead)
      · exact h.quiet (by simpa [live, htodo, Ne.symm hop] using hdead)
  | destroy htodo hp =>
    obtain ⟨hthreads, hqueue, -⟩ := destroyMoves hp
    refine ⟨h.reader, fun hdead => ⟨hqueue (h.quiet hdead).1, fun i => ?_⟩⟩
    simpa only [hthreads] using (h.quiet hdead).2 i

theorem Endpoint.step_cases {report : List (Manager × Bool)} (h : s.step act = some (s', report)) :
    ∃ uses, Moves s act s' uses ∧ report = uses.map fun m => (m, s.live m) := by
  obtain ⟨⟨s₁, uses⟩, hnext, heq⟩ := Option.map_eq_some_iff.mp h
  cases heq
  exact ⟨uses, next_cases hnext, rfl⟩

end Runs

/-- Over every interleaving: `ep_io_destroy` has joined the workers before it releases the io
manager, so that none of them touches it afterwards. -/
theorem worker_io_live {n : ℕ} {side : Side} {s s' : Endpoint n}
    {log report : List (Manager × Bool)}
    (h : Reaches (traced Endpoint.step) anyStep (Endpoint.start n side, []) (s, log)) {i : Fin n}
    {act : TaskAct} (hstep : s.step (.task i act) = some (s', report)) :
    s.live .io = true := by
  have hjoined : s.Joined := by
    refine h.invariant (P := fun t => t.1.Joined) (.start n side) ?_
    rintro ⟨s, w⟩ act ⟨s', w'⟩ hj - hstep
    obtain ⟨new, hreport, rfl⟩ := traced_eq_some.mp hstep
    obtain ⟨uses, hmove, -⟩ := Endpoint.step_cases hreport
    exact hj.step hmove
  obtain ⟨uses, hmove, -⟩ := Endpoint.step_cases hstep
  cases hmove with
  | task hact =>
    refine hjoined.io_live (i := i) fun hidle => ?_
    rw [hidle] at hact
    cases hact
  | register hact => exact hact.elim

/-- Over every number of workers and every interleaving: if the service has dispatched every
task when its dispatch manager is released and registers none afterwards, and the reading
thread is done with the io manager when that is released, then nothing is touched that has
been released. -/
theorem stop_uses_live (n : ℕ) (side : Side) (s : Endpoint n) (log : List (Manager × Bool))
    (h : Reaches (traced Endpoint.step) Orderly (Endpoint.start n side, []) (s, log)) :
    ∀ use ∈ log, use.2 = true := by
  suffices hall : s.Joined ∧ s.Settled ∧ ∀ use ∈ log, use.2 = true from hall.2.2
  refine h.invariant (P := fun t => t.1.Joined ∧ t.1.Settled ∧ ∀ use ∈ t.2, use.2 = true)
    ⟨.start n side, .start n side, nofun⟩ ?_
  rintro ⟨s, w⟩ act ⟨s', w'⟩ ⟨hj, hs, hw⟩ hok hstep
  obtain ⟨new, hreport, rfl⟩ := traced_eq_some.mp hstep
  obtain ⟨uses, hmove, rfl⟩ := Endpoint.step_cases hreport
  have huses := hs.uses_live hj hmove
  refine ⟨hj.step hmove, hs.step hj hok hmove, fun use huse => ?_⟩
  rcases List.mem_append.mp huse with hold | hnew
  · exact hw use hold
  · obtain ⟨m, hm, rfl⟩ := List.mem_map.mp hnew
    exact huses m hm

/-- A service that is stopped while its worker is at the reply. -/
def lateReply : List (Act 1) :=
  [.reader .check, .reader .enter, .registerCheck, .registerInsert 5, .reader (.leave true),
    .thread 0, .thread 0, .thread 0, .task 0 .noBody, .task 0 .dispatch, .task 0 (.unlock true),
    .stop, .stop, .task 0 (.combine true), .task 0 .queue, .thread 0, .thread 0, .thread 0, .stop,
    .stop, .stop, .stop, .stop, .thread 0, .stop, .stop, .stop, .stop, .stop]

/-- A client whose receive thread has ended before the io manager goes. -/
def earlyEnd : List (Act 1) :=
  [.stop, .reader .hangUp, .reader .entry, .stop, .stop, .stop, .stop, .stop, .stop, .stop,
    .thread 0, .stop, .stop, .stop, .stop, .stop, .stop, .stop]

theorem stop_uses_live_runs :
    (∃ s log, exec (traced Endpoint.step) Orderly (Endpoint.start 1 .service, []) lateReply =
      some (s, log) ∧ s.todo = [] ∧ ∀ use ∈ log, use.2 = true) ∧
    ∃ s log, exec (traced Endpoint.step) Orderly (Endpoint.start 1 .client, []) earlyEnd =
      some (s, log) ∧ s.todo = [] ∧ ∀ use ∈ log, use.2 = true := by
  constructor
  · obtain ⟨⟨s, log⟩, hrun, htodo⟩ := Option.map_eq_some_iff.mp (show (exec (traced Endpoint.step)
      Orderly (Endpoint.start 1 .service, []) lateReply).map (·.1.todo) = some [] from rfl)
    exact ⟨s, log, hrun, htodo, stop_uses_live 1 .service s log (reaches_of_exec _ hrun)⟩
  · obtain ⟨⟨s, log⟩, hrun, htodo⟩ := Option.map_eq_some_iff.mp (show (exec (traced Endpoint.step)
      Orderly (Endpoint.start 1 .client, []) earlyEnd).map (·.1.todo) = some [] from rfl)
    exact ⟨s, log, hrun, htodo, stop_uses_live 1 .client s log (reaches_of_exec _ hrun)⟩

/-- A worker of the service takes its task after the dispatch manager has been released; and
the receive thread of a client comes back from `recv` when the io manager is gone. -/
theorem stop_uses_released :
    (∃ s : Endpoint 1, ∃ log,
      Reaches (traced Endpoint.step) anyStep (Endpoint.start 1 .service, []) (s, log) ∧
      s.tasks 0 = .inDisp ∧ (.disp, false) ∈ log) ∧
    ∃ s : Endpoint 1, ∃ log,
      Reaches (traced Endpoint.step) anyStep (Endpoint.start 1 .client, []) (s, log) ∧
      s.reader = .gone ∧ (.io, false) ∈ log := by
  refine ⟨⟨_, _, reaches_of_exec [.reader .check, .reader .enter, .registerCheck,
    .registerInsert 5, .reader (.leave true), .stop, .stop, .thread 0, .thread 0, .thread 0,
    .task 0 .noBody, .task 0 .dispatch] rfl, rfl, by decide⟩,
    ⟨_, _, reaches_of_exec [.stop, .stop, .stop, .stop, .stop, .stop, .stop, .stop, .thread 0,
      .stop, .stop, .stop, .stop, .stop, .reader .hangUp, .reader .entry] rfl, rfl, by decide⟩⟩

end Youmenu.Eventpack.Shutdown
