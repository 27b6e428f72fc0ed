import Mathlib.Algebra.Order.Ring.Int
import Mathlib.Logic.Function.Basic
import Youmenu.Lib.Transition

/-!
# The blocking queue of `ep_queue.c`

Any number of threads push, get and stop. The mutex is held from the beginning of a
call to its end, except during a wait, so a call is one stretch under the mutex, or
two if it waits: what happens between the two is up to the other threads. A wait may
end at any time, whether the queue was changed or not.

## Main definitions

* `epQueuePush`, `epQueueStop`, `epQueueGetEnter`, `epQueueGetWake` — the stretches.
* `QueueSys.step` — the threads, interleaved.
* `insertions`, `removals`, `removalsBy`, `returnsTo` — the history of a run.
-/

namespace Youmenu.Eventpack

open Transition

variable {β : Type*}

/-! ## The source -/

/-- `struct ep_queue`, with the bodies of its entries from the first to the last. -/
structure EpQueue (β : Type*) where
  queue : List β
  stopSign : Bool

def epQueueNew : EpQueue β := ⟨[], false⟩

def epQueuePush (q : EpQueue β) (body : β) : EpQueue β := { q with queue := q.queue ++ [body] }

def epQueueStop (q : EpQueue β) : EpQueue β := { q with stopSign := true }

/-- How a stretch of `ep_queue_get` ends: with what it returns and the body it
hands out, or in a wait. -/
inductive GetEnd (β : Type*) where
  | ret (code : ℤ) (body : Option β)
  | wait

/-- From the beginning of the call to the head of the loop and, if that is entered,
to the wait. -/
def epQueueGetEnter (q : EpQueue β) (timeout : ℤ) : EpQueue β × GetEnd β :=
  match q.queue with
  | body :: queue => ({ q with queue := queue }, .ret 1 (some body))
  | [] =>
    if q.stopSign then (q, .ret 0 none)
    else if timeout = 0 then (q, .ret 0 none)
    else (q, .wait)

/-- From the end of the wait, which returned `waitR`. -/
def epQueueGetWake (q : EpQueue β) (waitR : ℤ) : EpQueue β × GetEnd β :=
  if q.stopSign then (q, .ret (-1) none)
  else
    match q.queue with
    | [] => if waitR ≠ 0 then (q, .ret 0 none) else (q, .ret (-1) none)
    | body :: queue => ({ q with queue := queue }, .ret 1 (some body))

/-! ## The threads -/

inductive QueueCall (β : Type*) where
  | push (body : β)
  | get (timeout : ℤ)
  | stop

/-- Where a thread stands. -/
inductive QueueThread (β : Type*) where
  | idle
  /-- It has called, and does not have the mutex yet. -/
  | entering (call : QueueCall β)
  | waiting
  /-- It has released the mutex, and is about to return. -/
  | leaving (code : ℤ) (body : Option β)

structure QueueSys (β : Type*) where
  q : EpQueue β
  threads : ℕ → QueueThread β

def QueueSys.start : QueueSys β := ⟨epQueueNew, fun _ => .idle⟩

inductive QueueAct (β : Type*) where
  | call (t : ℕ) (call : QueueCall β)
  /-- The thread gets the mutex; `alloc` says that a push got memory for its entry. -/
  | enter (t : ℕ) (alloc : Bool)
  | wake (t : ℕ) (waitR : ℤ)
  | ret (t : ℕ)

/-- What a run reports. -/
inductive QueueMark (β : Type*) where
  | inserted (t : ℕ) (body : β)
  | removed (t : ℕ) (body : β)
  | returned (t : ℕ) (code : ℤ) (body : Option β)
deriving DecidableEq

namespace QueueSys

variable (s : QueueSys β)

def put (q : EpQueue β) (t : ℕ) (at' : QueueThread β) : QueueSys β :=
  ⟨q, Function.update s.threads t at'⟩

/-- A stretch of `ep_queue_get` by the thread `t`. -/
def getStretch (t : ℕ) : EpQueue β × GetEnd β → QueueSys β × List (QueueMark β)
  | (q, .ret code body) => (s.put q t (.leaving code body), body.toList.map (.removed t))
  | (q, .wait) => (s.put q t .waiting, [])

def enter (t : ℕ) (alloc : Bool) : QueueCall β → QueueSys β × List (QueueMark β)
  | .push body =>
    if alloc then (s.put (epQueuePush s.q body) t (.leaving 1 none), [.inserted t body])
    else (s.put s.q t (.leaving 0 none), [])
  | .get timeout => s.getStretch t (epQueueGetEnter s.q timeout)
  | .stop => (s.put (epQueueStop s.q) t (.leaving 1 none), [])

def step : QueueAct β → Option (QueueSys β × List (QueueMark β))
  | .call t call =>
    match s.threads t with
    | .idle => some (s.put s.q t (.entering call), [])
    | _ => none
  | .enter t alloc =>
    match s.threads t with
    | .entering call => some (s.enter t alloc call)
    | _ => none
  | .wake t waitR =>
    match s.threads t with
    | .waiting => some (s.getStretch t (epQueueGetWake s.q waitR))
    | _ => none
  | .ret t =>
    match s.threads t with
    | .leaving code body => some (s.put s.q t .idle, [.returned t code body])
    | _ => none

end QueueSys

/-! ## The history -/

/-- The pushed bodies, in the order in which they were inserted. -/
def insertions (marks : List (QueueMark β)) : List β :=
  marks.filterMap fun
    | .inserted _ body => some body
    | _ => none

def removals (marks : List (QueueMark β)) : List β :=
  marks.filterMap fun
    | .removed _ body => some body
    | _ => none

/-- The bodies that calls of the thread `t` have removed. -/
def removalsBy (t : ℕ) (marks : List (QueueMark β)) : List β :=
  marks.filterMap fun
    | .removed t' body => if t' = t then some body else none
    | _ => none

/-- The bodies that successful calls have returned to the thread `t`. -/
def returnsTo (t : ℕ) (marks : List (QueueMark β)) : List β :=
  marks.filterMap fun
    | .returned t' code body => if t' = t ∧ code = 1 then body else none
    | _ => none

/-- The body that a call is about to return. -/
def QueueThread.held : QueueThread β → List β
  | .leaving code body => if code = 1 then body.toList else []
  | _ => []

/-- Nothing is lost or duplicated on the way through the queue, and what a call
removes is what it returns. -/
structure Fifo (s : QueueSys β) (marks : List (QueueMark β)) : Prop where
  conserved : insertions marks = removals marks ++ s.q.queue
  handed : ∀ t, removalsBy t marks = returnsTo t marks ++ (s.threads t).held

theorem Fifo.start : Fifo (QueueSys.start : QueueSys β) [] := ⟨rfl, fun _ => rfl⟩

/-- What a stretch of `ep_queue_get` can do. -/
inductive GetSpec (q : EpQueue β) : EpQueue β × GetEnd β → Prop
  | take {body : β} {queue : List β} (h : q.queue = body :: queue) :
      GetSpec q ({ q with queue := queue }, .ret 1 (some body))
  | empty (h : q.queue = []) : GetSpec q (q, .ret 0 none)
  | aborted : GetSpec q (q, .ret (-1) none)
  | wait (h : q.queue = []) : GetSpec q (q, .wait)

theorem epQueueGetEnter_spec (q : EpQueue β) (timeout : ℤ) :
    GetSpec q (epQueueGetEnter q timeout) := by
  unfold epQueueGetEnter
  split
  · next body queue h => exact .take h
  · next h =>
    split_ifs
    · exact .empty h
    · exact .empty h
    · exact .wait h

theorem epQueueGetWake_spec (q : EpQueue β) (waitR : ℤ) : GetSpec q (epQueueGetWake q waitR) := by
  unfold epQueueGetWake
  split
  · exact .aborted
  · split
    · next h =>
      split_ifs
      · exact .empty h
      · exact .aborted
    · next body queue h => exact .take h

/-- What a step does to the bodies. -/
inductive BodyStep (s : QueueSys β) (t : ℕ) : QueueSys β → List (QueueMark β) → Prop
  | move {q : EpQueue β} {at' : QueueThread β} (hq : q.queue = s.q.queue)
      (hat : (s.threads t).held = []) (hat' : at'.held = []) : BodyStep s t (s.put q t at') []
  | insert {body : β} (hat : (s.threads t).held = []) :
      BodyStep s t (s.put (epQueuePush s.q body) t (.leaving 1 none)) [.inserted t body]
  | remove {body : β} {queue : List β} (hq : s.q.queue = body :: queue)
      (hat : (s.threads t).held = []) :
      BodyStep s t (s.put { s.q with queue := queue } t (.leaving 1 (some body))) [.removed t body]
  | hand {code : ℤ} {body : Option β} (hat : s.threads t = .leaving code body) :
      BodyStep s t (s.put s.q t .idle) [.returned t code body]

theorem BodyStep.of_getSpec {s : QueueSys β} {t : ℕ} {r : EpQueue β × GetEnd β}
    (h : GetSpec s.q r) (hat : (s.threads t).held = []) :
    BodyStep s t (s.getStretch t r).1 (s.getStretch t r).2 := by
  cases h with
  | take hq => exact .remove hq hat
  | empty hq => exact .move rfl hat rfl
  | aborted => exact .move rfl hat rfl
  | wait hq => exact .move rfl hat rfl

theorem QueueSys.step_cases {s s' : QueueSys β} {act : QueueAct β} {new : List (QueueMark β)}
    (h : s.step act = some (s', new)) : ∃ t, BodyStep s t s' new := by
  cases act with
  | call t call =>
    simp only [step] at h
    split at h <;> cases h
    next hat => exact ⟨t, .move rfl (by rw [hat]; rfl) rfl⟩
  | enter t alloc =>
    simp only [step] at h
    split at h
    · next call hat =>
      obtain ⟨rfl, rfl⟩ := Prod.mk.inj (Option.some.inj h)
      have hheld : (s.threads t).held = [] := by rw [hat]; rfl
      refine ⟨t, ?_⟩
      cases call with
      | push body =>
        cases alloc with
        | true => exact .insert hheld
        | false => exact .move rfl hheld rfl
      | get timeout => exact .of_getSpec (epQueueGetEnter_spec s.q timeout) hheld
      | stop => exact .move rfl hheld rfl
    · cases h
  | wake t waitR =>
    simp only [step] at h
    split at h
    · next hat =>
      obtain ⟨rfl, rfl⟩ := Prod.mk.inj (Option.some.inj h)
      exact ⟨t, .of_getSpec (epQueueGetWake_spec s.q waitR) (by rw [hat]; rfl)⟩
    · cases h
  | ret t =>
    simp only [step] at h
    split at h <;> cases h
    next code body hat => exact ⟨t, .hand hat⟩

section History

variable {s s' : QueueSys β} {marks new : List (QueueMark β)} {t : ℕ}

@[simp] theorem insertions_append (marks new : List (QueueMark β)) :
    insertions (marks ++ new) = insertions marks ++ insertions new := List.filterMap_append

@[simp] theorem removals_append (marks new : List (QueueMark β)) :
    removals (marks ++ new) = removals marks ++ removals new := List.filterMap_append

@[simp] theorem removalsBy_append (t : ℕ) (marks new : List (QueueMark β)) :
    removalsBy t (marks ++ new) = removalsBy t marks ++ removalsBy t new := List.filterMap_append

@[simp] theorem returnsTo_append (t : ℕ) (marks new : List (QueueMark β)) :
    returnsTo t (marks ++ new) = returnsTo t marks ++ returnsTo t new := List.filterMap_append

theorem QueueSys.threads_put {q : EpQueue β} {at' : QueueThread β} (u : ℕ) :
    (s.put q t at').threads u = if u = t then at' else s.threads u :=
  Function.update_apply _ _ _ _

@[simp] theorem QueueThread.held_idle : (.idle : QueueThread β).held = [] := rfl

@[simp] theorem QueueThread.held_leaving (code : ℤ) (body : Option β) :
    (QueueThread.leaving code body).held = if code = 1 then body.toList else [] := rfl

theorem returnsTo_returned (t : ℕ) (code : ℤ) (body : Option β) :
    returnsTo t [.returned t code body] = (QueueThread.leaving code body).held := by
  cases body <;> by_cases hcode : code = 1 <;> simp [returnsTo, hcode]

theorem Fifo.conserved_step (h : Fifo s marks) (hstep : BodyStep s t s' new) :
    insertions (marks ++ new) = removals (marks ++ new) ++ s'.q.queue := by
  rw [insertions_append, removals_append, h.conserved]
  cases hstep with
  | move hq => simp [insertions, removals, QueueSys.put, hq]
  | insert => simp [insertions, removals, QueueSys.put, epQueuePush]
  | remove hq => simp [insertions, removals, QueueSys.put, hq]
  | hand hat => simp [insertions, removals, QueueSys.put]

theorem Fifo.handed_step (h : Fifo s marks) (hstep : BodyStep s t s' new) (u : ℕ) :
    removalsBy u (marks ++ new) = returnsTo u (marks ++ new) ++ (s'.threads u).held := by
  rw [removalsBy_append, returnsTo_append, h.handed u]
  by_cases hu : u = t
  · subst hu
    cases hstep with
    | move hq hat hat' => simp [removalsBy, returnsTo, QueueSys.threads_put, hat, hat']
    | insert hat => simp [removalsBy, returnsTo, QueueSys.threads_put, hat]
    | remove hq hat => simp [removalsBy, returnsTo, QueueSys.threads_put, hat]
    | hand hat => simp [removalsBy, returnsTo_returned, QueueSys.threads_put, hat]
  · -- the marks of a step are those of its thread
    have ht : t ≠ u := fun heq => hu heq.symm
    cases hstep <;> simp [removalsBy, returnsTo, QueueSys.threads_put, hu, ht]

theorem Fifo.step {act : QueueAct β} (h : Fifo s marks) (hstep : s.step act = some (s', new)) :
    Fifo s' (marks ++ new) := by
  obtain ⟨t, hbody⟩ := QueueSys.step_cases hstep
  exact ⟨h.conserved_step hbody, h.handed_step hbody⟩

theorem Fifo.of_reaches
    (h : Reaches (traced QueueSys.step) anyStep (QueueSys.start, []) (s, marks)) :
    Fifo s marks := by
  refine h.invariant (P := fun t => Fifo t.1 t.2) .start ?_
  rintro ⟨s, w⟩ e ⟨s', w'⟩ hfifo - hstep
  obtain ⟨new, hreport, rfl⟩ := traced_eq_some.mp hstep
  exact hfifo.step hreport

end History

/-! ## Draining -/

/-- One call of `ep_queue_get` with timeout 0, from the call to the return. -/
def pollActs (t : ℕ) : List (QueueAct β) := [.call t (.get 0), .enter t true, .ret t]

/-- What the polls of the threads `ts` report, if each of them gets a body. -/
def pollMarks (ts : List ℕ) (bodies : List β) : List (QueueMark β) :=
  (ts.zip bodies).flatMap fun p => [.removed p.1 p.2, .returned p.1 1 (some p.2)]

section Drain

variable {s : QueueSys β} {t : ℕ}

@[simp] theorem QueueSys.put_put {q q' : EpQueue β} {at' at'' : QueueThread β} :
    (s.put q t at').put q' t at'' = s.put q' t at'' := by
  simp [put]

/-- A call that does not wait, from the call to the return. -/
theorem exec_poll (hat : s.threads t = .idle) {q : EpQueue β} {code : ℤ} {body : Option β}
    (hget : epQueueGetEnter s.q 0 = (q, .ret code body)) (marks : List (QueueMark β))
    (acts : List (QueueAct β)) :
    exec (traced QueueSys.step) anyStep (s, marks) (pollActs t ++ acts) =
      exec (traced QueueSys.step) anyStep (s.put q t .idle,
        marks ++ (body.toList.map (.removed t) ++ [.returned t code body])) acts := by
  have hcall : s.step (.call t (.get 0)) = some (s.put s.q t (.entering (.get 0)), []) := by
    simp only [QueueSys.step, hat]
  have henter : (s.put s.q t (.entering (.get 0))).step (.enter t true) =
      some (s.put q t (.leaving code body), body.toList.map (.removed t)) := by
    have hq : (s.put s.q t (.entering (.get 0))).q = s.q := rfl
    simp only [QueueSys.step, QueueSys.threads_put, if_true, QueueSys.enter, hq, hget,
      QueueSys.getStretch, QueueSys.put_put]
  have hret : (s.put q t (.leaving code body)).step (.ret t) =
      some (s.put q t .idle, [.returned t code body]) := by
    have hq : (s.put q t (.leaving code body)).q = q := rfl
    simp only [QueueSys.step, QueueSys.threads_put, if_true, hq, QueueSys.put_put]
  simp only [pollActs, List.cons_append, List.nil_append]
  rw [exec_traced_cons _ hcall, exec_traced_cons _ henter, exec_traced_cons _ hret]
  simp

theorem QueueSys.put_idle (hat : s.threads t = .idle) (q : EpQueue β) :
    s.put q t .idle = ⟨q, s.threads⟩ := by
  rw [put, ← hat, Function.update_eq_self]

/-- As many polls as there are bodies return them in order, and one more finds the
queue empty. -/
theorem exec_drain_queue (ts : List ℕ) (hts : ∀ u ∈ ts, s.threads u = .idle)
    (hlen : ts.length = s.q.queue.length) (hat : s.threads t = .idle)
    (marks : List (QueueMark β)) :
    exec (traced QueueSys.step) anyStep (s, marks) (ts.flatMap pollActs ++ pollActs t) =
      some (⟨{ s.q with queue := [] }, s.threads⟩,
        marks ++ (pollMarks ts s.q.queue ++ [.returned t 0 none])) := by
  induction ts generalizing s marks with
  | nil =>
    have hq : s.q.queue = [] := List.length_eq_zero_iff.mp hlen.symm
    have hget : epQueueGetEnter s.q 0 = (s.q, .ret 0 none) := by
      simp [epQueueGetEnter, hq]
    have hpoll := exec_poll hat hget marks []
    rw [List.append_nil] at hpoll
    rw [List.flatMap_nil, List.nil_append, hpoll, QueueSys.put_idle hat]
    simp [exec, pollMarks, ← hq]
  | cons u ts ih =>
    obtain ⟨body, queue, hq⟩ := List.exists_cons_of_length_eq_add_one hlen.symm
    have hu := hts u List.mem_cons_self
    have hget : epQueueGetEnter s.q 0 = ({ s.q with queue := queue }, .ret 1 (some body)) := by
      simp [epQueueGetEnter, hq]
    rw [List.flatMap_cons, List.append_assoc, exec_poll hu hget, QueueSys.put_idle hu]
    have hrest := ih (s := ⟨{ s.q with queue := queue }, s.threads⟩)
      (fun v hv => hts v (List.mem_cons_of_mem _ hv)) (by simpa [hq] using hlen) hat
    rw [hrest]
    simp [pollMarks, hq]

end Drain

/-- Over every interleaving of any number of threads: the bodies that were removed,
in the order of their removal, are the first ones of those that were pushed, and the
others are still queued, in order; every removed body is the one that the call returns,
or is about to return. Once the queue is stopped, polls of any idle threads return all
that is left, in order, and the next poll finds the queue empty. -/
theorem epQueue_linearizable (s : QueueSys β) (marks : List (QueueMark β))
    (h : Reaches (traced QueueSys.step) anyStep (QueueSys.start, []) (s, marks)) :
    removals marks <+: insertions marks ∧
    insertions marks = removals marks ++ s.q.queue ∧
    (∀ t, removalsBy t marks = returnsTo t marks ++ (s.threads t).held) ∧
    (s.q.stopSign = true → ∀ (ts : List ℕ) (t : ℕ), (∀ u ∈ t :: ts, s.threads u = .idle) →
      ts.length = s.q.queue.length →
      ∃ s', exec (traced QueueSys.step) anyStep (s, []) (ts.flatMap pollActs ++ pollActs t) =
        some (s', pollMarks ts s.q.queue ++ [.returned t 0 none])) := by
  have hfifo := Fifo.of_reaches h
  refine ⟨⟨s.q.queue, hfifo.conserved.symm⟩, hfifo.conserved, hfifo.handed, ?_⟩
  intro _ ts t hidle hlen
  have hts : ∀ u ∈ ts, s.threads u = .idle := fun u hu => hidle u (List.mem_cons_of_mem _ hu)
  exact ⟨_, exec_drain_queue ts hts hlen (hidle t List.mem_cons_self) []⟩

/-- A consumer waits and is overtaken by another after a push; two more bodies are pushed
and the queue is stopped. -/
theorem epQueue_linearizable_overtaken :
    ∃ (s : QueueSys ℕ) (marks : List (QueueMark ℕ)),
      Reaches (traced QueueSys.step) anyStep (QueueSys.start, []) (s, marks) ∧
      removals marks = [7] ∧ s.q.stopSign = true ∧ s.q.queue = [8, 9] ∧
      ∃ s', exec (traced QueueSys.step) anyStep (s, []) ([4, 5].flatMap pollActs ++ pollActs 4) =
        some (s', pollMarks [4, 5] [8, 9] ++ [.returned 4 0 none]) := by
  have hrun : Reaches (traced QueueSys.step) anyStep (QueueSys.start, []) _ := reaches_of_exec
    [.call 0 (.get (-1)), .enter 0 true, .call 1 (.push 7), .enter 1 true, .call 2 (.get 5),
      .enter 2 true, .wake 0 0, .ret 1, .call 1 (.push 8), .enter 1 true, .ret 0, .ret 2, .ret 1,
      .call 1 (.push 9), .enter 1 true, .call 3 .stop, .enter 3 true] rfl
  obtain ⟨-, -, -, hdrain⟩ := epQueue_linearizable _ _ hrun
  refine ⟨_, _, hrun, rfl, rfl, rfl, hdrain rfl [4, 5] 4 ?_ rfl⟩
  exact List.forall_mem_cons.mpr ⟨rfl, List.forall_mem_cons.mpr
    ⟨rfl, List.forall_mem_singleton.mpr rfl⟩⟩

end Youmenu.Eventpack
