import Mathlib.Data.Fin.Basic
import Mathlib.Data.Fintype.Basic
import Mathlib.Data.List.Nodup
import Youmenu.Lib.Transition

/-!
# The thread pool of `ep_threadpool.c`

The pool's threads take workers out of a queue and run them; any number of other
threads register workers, and one of them destroys the pool. The threads are
interleaved at the points where they read or change what they share: the test of
`abort` at the head of the loop, the look at the queue of a waiting destroyer and
the check at the beginning of a registration are all made without the mutex.

A worker is a piece of memory, and `ep_tp_worker_free` looks for it in the queue by
its address; the allocator may hand out the same address again once it is released.

## Main definitions

* `TpPool`, `TpThread`, `TpDestroyer` — the state, and where the threads stand.
* `TpPool.step` — the transitions.
* `TpPool.Tidy`, `TpPool.Ordered`, `TpPool.Tracked` — the invariants: of the memory,
  of the queue, and of the workers that were taken.
-/

namespace Youmenu.Eventpack

open Transition

/-! ## The state -/

/-- `ep_tp_kill`. -/
inductive TpKill where
  | immediate
  | wait
deriving DecidableEq

/-- The address of a worker, and the number of its registration; the source has no
such number. -/
structure TpWorker where
  addr : ℕ
  id : ℕ
deriving DecidableEq

/-- Where a thread stands in `ep_tp_routine`. -/
inductive TpThread where
  /-- At the head of the loop. -/
  | testing
  /-- Before the mutex. -/
  | locking
  | waiting
  /-- It has taken a worker. -/
  | starting (w : TpWorker)
  /-- In `process_cb`. -/
  | running (w : TpWorker)
  /-- In `complete_cb`, or about to call it. -/
  | completing (w : TpWorker)
  /-- In `ep_tp_worker_free`, before the mutex. -/
  | freeing (w : TpWorker)
  | exited
deriving DecidableEq

/-- Where `ep_tp_destroy` stands. -/
inductive TpDestroyer where
  | idle
  | polling
  /-- Before the mutex. -/
  | locking
  /-- In `pthread_join`, for the thread with this index. -/
  | joining (index : ℕ)
  /-- Releasing the workers that are left. -/
  | sweeping
  | returned
deriving DecidableEq

structure TpPool (n : ℕ) where
  workerQueue : List TpWorker
  abort : Bool
  threads : Fin n → TpThread
  destroyer : TpDestroyer
  /-- How many calls of `ep_tp_worker_register` have passed the check and have not
  inserted their worker yet. -/
  registering : ℕ
  /-- The number of the next registration. -/
  fresh : ℕ

/-- After `ep_tp_create`. -/
def TpPool.start (n : ℕ) : TpPool n := ⟨[], false, fun _ => .testing, .idle, 0, 0⟩

/-- What a run reports. -/
inductive TpMark where
  | registered (id : ℕ)
  | taken (id : ℕ)
  /-- `process_cb` is called. -/
  | started (id : ℕ)
  /-- `process_cb` has returned. -/
  | finished (id : ℕ)
  /-- The worker is released by `ep_tp_destroy`. -/
  | swept (id : ℕ)
deriving DecidableEq

/-! ## The operations -/

/-- The worker that a thread has not released yet. -/
def TpThread.worker : TpThread → Option TpWorker
  | .starting w | .running w | .completing w | .freeing w => some w
  | .testing | .locking | .waiting | .exited => none

namespace TpPool

variable {n : ℕ} (s : TpPool n)

def moveTo (i : Fin n) (at' : TpThread) : TpPool n :=
  { s with threads := Function.update s.threads i at' }

/-- The address belongs to a worker that has not been released. -/
def InUse (addr : ℕ) : Prop :=
  (∃ w ∈ s.workerQueue, w.addr = addr) ∨ ∃ i, ((s.threads i).worker.map TpWorker.addr) = some addr

instance (addr : ℕ) : Decidable (s.InUse addr) := inferInstanceAs (Decidable (_ ∨ _))

/-- From the mutex to the next worker, to the end of the thread or to the wait. -/
def scan (i : Fin n) : TpPool n × List TpMark :=
  match s.workerQueue with
  | w :: queue => ({ s with workerQueue := queue }.moveTo i (.starting w), [.taken w.id])
  | [] => (s.moveTo i (if s.abort then .exited else .waiting), [])

/-- The worker is taken out of the queue if it is there. -/
def epTpWorkerFree (i : Fin n) (w : TpWorker) : TpPool n :=
  { s with workerQueue := s.workerQueue.eraseP fun a => a.addr = w.addr }.moveTo i .testing

/-- One step of a thread. -/
def epTpRoutine (i : Fin n) : Option (TpPool n × List TpMark) :=
  match s.threads i with
  | .testing => some (s.moveTo i (if s.abort then .exited else .locking), [])
  | .locking | .waiting => some (s.scan i)
  | .starting w => some (s.moveTo i (.running w), [.started w.id])
  | .running w => some (s.moveTo i (.completing w), [.finished w.id])
  | .completing w => some (s.moveTo i (.freeing w), [])
  | .freeing w => some (s.epTpWorkerFree i w, [])
  | .exited => none

/-- The check at the beginning of `ep_tp_worker_register`. -/
def registerCheck : TpPool n :=
  if s.abort then s else { s with registering := s.registering + 1 }

/-- The rest of the call, with the address that the allocator hands out. -/
def registerInsert (addr : ℕ) : Option (TpPool n × List TpMark) :=
  if s.registering = 0 ∨ s.InUse addr then none
  else some ({ s with
      workerQueue := s.workerQueue ++ [⟨addr, s.fresh⟩]
      registering := s.registering - 1
      fresh := s.fresh + 1 }, [.registered s.fresh])

/-- One step of `ep_tp_destroy`. -/
def epTpDestroy (type : TpKill) : Option (TpPool n × List TpMark) :=
  match s.destroyer with
  | .idle =>
    match type with
    | .wait => some ({ s with destroyer := .polling }, [])
    | .immediate => some ({ s with destroyer := .locking }, [])
  | .polling =>
    match s.workerQueue with
    | [] => some ({ s with destroyer := .locking }, [])
    | _ :: _ => some (s, [])
  | .locking => some ({ s with abort := true, destroyer := .joining 0 }, [])
  | .joining index =>
    if h : index < n then
      if s.threads ⟨index, h⟩ = .exited then some ({ s with destroyer := .joining (index + 1) }, [])
      else none
    else some ({ s with destroyer := .sweeping }, [])
  | .sweeping =>
    match s.workerQueue with
    | w :: queue => some ({ s with workerQueue := queue }, [.swept w.id])
    | [] => some ({ s with destroyer := .returned }, [])
  | .returned => none

end TpPool

inductive TpAct (n : ℕ) where
  | check
  | insert (addr : ℕ)
  | thread (i : Fin n)
  | destroy (type : TpKill)

/-- Nothing is left to act on once `ep_tp_destroy` has returned. -/
def TpPool.step {n : ℕ} (s : TpPool n) (act : TpAct n) : Option (TpPool n × List TpMark) :=
  if s.destroyer = .returned then none
  else
    match act with
    | .check => some (s.registerCheck, [])
    | .insert addr => s.registerInsert addr
    | .thread i => s.epTpRoutine i
    | .destroy type => s.epTpDestroy type

/-! ## What a step can do -/

/-- The worker whose `process_cb` has not returned yet. -/
def TpThread.pending : TpThread → Option TpWorker
  | .starting w | .running w => some w
  | _ => none

/-- Where `ep_tp_destroy` can go, and what it has seen on the way. -/
inductive DestroyerMove {n : ℕ} (s : TpPool n) : TpDestroyer → Prop
  | poll (h : s.destroyer = .idle) : DestroyerMove s .polling
  | skip (h : s.destroyer = .idle) : DestroyerMove s .locking
  | drained (h : s.destroyer = .polling) (hq : s.workerQueue = []) : DestroyerMove s .locking
  | join {index : ℕ} (h : s.destroyer = .joining index) (hindex : index < n)
      (hexited : s.threads ⟨index, hindex⟩ = .exited) : DestroyerMove s (.joining (index + 1))
  | joined {index : ℕ} (h : s.destroyer = .joining index) (hindex : ¬ index < n) :
      DestroyerMove s .sweeping
  | done (h : s.destroyer = .sweeping) : DestroyerMove s .returned

inductive TpStep {n : ℕ} (s : TpPool n) : TpPool n → List TpMark → Prop
  | stay : TpStep s s []
  | check : TpStep s { s with registering := s.registering + 1 } []
  | insert {addr : ℕ} (haddr : ¬ s.InUse addr) (registering : ℕ) :
      TpStep s { s with
        workerQueue := s.workerQueue ++ [⟨addr, s.fresh⟩]
        registering := registering
        fresh := s.fresh + 1 } [.registered s.fresh]
  | go {i : Fin n} {at' : TpThread} (hat : s.threads i ≠ .exited)
      (hw : at'.worker = (s.threads i).worker) (hp : (s.threads i).pending = none)
      (hp' : at'.pending = none) : TpStep s (s.moveTo i at') []
  | take {i : Fin n} {w : TpWorker} {queue : List TpWorker} (hq : s.workerQueue = w :: queue)
      (hat : s.threads i ≠ .exited) (hw : (s.threads i).worker = none)
      (hp : (s.threads i).pending = none) :
      TpStep s ({ s with workerQueue := queue }.moveTo i (.starting w)) [.taken w.id]
  | start {i : Fin n} {w : TpWorker} (hat : s.threads i = .starting w) :
      TpStep s (s.moveTo i (.running w)) [.started w.id]
  | finish {i : Fin n} {w : TpWorker} (hat : s.threads i = .running w) :
      TpStep s (s.moveTo i (.completing w)) [.finished w.id]
  | free {i : Fin n} {w : TpWorker} (hat : s.threads i = .freeing w) :
      TpStep s (s.epTpWorkerFree i w) []
  | move {next : TpDestroyer} (h : DestroyerMove s next) :
      TpStep s { s with destroyer := next } []
  | abort (h : s.destroyer = .locking) :
      TpStep s { s with abort := true, destroyer := .joining 0 } []
  | sweep {w : TpWorker} {queue : List TpWorker} (h : s.destroyer = .sweeping)
      (hq : s.workerQueue = w :: queue) :
      TpStep s { s with workerQueue := queue } [.swept w.id]

section Steps

variable {n : ℕ} {s s' : TpPool n} {marks new : List TpMark}

theorem TpPool.scan_cases {i : Fin n} (h : s.threads i = .locking ∨ s.threads i = .waiting) :
    TpStep s (s.scan i).1 (s.scan i).2 := by
  have hat : s.threads i ≠ .exited ∧ (s.threads i).worker = none ∧
      (s.threads i).pending = none := by
    rcases h with h | h <;> rw [h] <;> exact ⟨nofun, rfl, rfl⟩
  unfold scan
  split
  · next w queue hq => exact .take hq hat.1 hat.2.1 hat.2.2
  · split_ifs
    · exact .go hat.1 hat.2.1.symm hat.2.2 rfl
    · exact .go hat.1 hat.2.1.symm hat.2.2 rfl

theorem TpPool.epTpRoutine_cases {i : Fin n} (h : s.epTpRoutine i = some (s', new)) :
    TpStep s s' new := by
  unfold epTpRoutine at h
  split at h
  · next hat =>
    cases h
    have hne : s.threads i ≠ .exited := by simp [hat]
    split_ifs <;> exact .go hne (by rw [hat]; rfl) (by rw [hat]; rfl) rfl
  · next hat =>
    have hscan := scan_cases (.inl hat)
    rwa [Option.some.inj h] at hscan
  · next hat =>
    have hscan := scan_cases (.inr hat)
    rwa [Option.some.inj h] at hscan
  · next w hat =>
    cases h
    exact .start hat
  · next w hat =>
    cases h
    exact .finish hat
  · next w hat =>
    cases h
    exact .go (by simp [hat]) (by rw [hat]; rfl) (by rw [hat]; rfl) rfl
  · next w hat =>
    cases h
    exact .free hat
  · cases h

theorem TpPool.epTpDestroy_cases {type : TpKill} (h : s.epTpDestroy type = some (s', new)) :
    TpStep s s' new := by
  unfold epTpDestroy at h
  split at h
  · next hd =>
    split at h <;> cases h
    · exact .move (.poll hd)
    · exact .move (.skip hd)
  · next hd =>
    split at h <;> cases h
    · next hq => exact .move (.drained hd hq)
    · exact .stay
  · next hd =>
    cases h
    exact .abort hd
  · next index hd =>
    split_ifs at h with hindex hexited <;> cases h
    · exact .move (.join hd hindex hexited)
    · exact .move (.joined hd hindex)
  · next hd =>
    split at h <;> cases h
    · next w queue hq => exact .sweep hd hq
    · exact .move (.done hd)
  · cases h

theorem TpPool.step_cases {act : TpAct n} (h : s.step act = some (s', new)) : TpStep s s' new := by
  unfold step at h
  split_ifs at h
  cases act with
  | check =>
    cases h
    unfold registerCheck
    split_ifs
    · exact .stay
    · exact .check
  | insert addr =>
    simp only [registerInsert] at h
    split_ifs at h with huse
    cases h
    exact .insert (fun hin => huse (.inr hin)) _
  | thread i => exact epTpRoutine_cases h
  | destroy type => exact epTpDestroy_cases h

theorem TpPool.threads_moveTo {i : Fin n} {at' : TpThread} (j : Fin n) :
    (s.moveTo i at').threads j = if j = i then at' else s.threads j :=
  Function.update_apply _ _ _ _

end Steps

/-- All threads have been waited for. -/
def TpDestroyer.Late (d : TpDestroyer) : Prop := d = .sweeping ∨ d = .returned

/-! ## The memory -/

/-- The addresses of the workers that have not been released are different, and the
threads that `ep_tp_destroy` has waited for have ended. -/
structure TpPool.Tidy {n : ℕ} (s : TpPool n) : Prop where
  queued : (s.workerQueue.map TpWorker.addr).Nodup
  apart : ∀ i w, (s.threads i).worker = some w → ∀ w' ∈ s.workerQueue, w'.addr ≠ w.addr
  alone : ∀ i j w w', (s.threads i).worker = some w → (s.threads j).worker = some w' →
    w.addr = w'.addr → i = j
  joining : ∀ index, s.destroyer = .joining index → ∀ i : Fin n, i < index → s.threads i = .exited
  joined : s.destroyer.Late → ∀ i, s.threads i = .exited

section Tidy

variable {n : ℕ} {s s' : TpPool n} {new : List TpMark}

theorem TpPool.Tidy.start (n : ℕ) : (TpPool.start n).Tidy where
  queued := .nil
  apart := nofun
  alone := nofun
  joining := nofun
  joined := by rintro (h | h) <;> cases h

/-- A released worker is not in the queue. -/
theorem TpPool.Tidy.free_eq (h : s.Tidy) {i : Fin n} {w : TpWorker}
    (hat : s.threads i = .freeing w) : s.epTpWorkerFree i w = s.moveTo i .testing := by
  have hapart := h.apart i w (by rw [hat]; rfl)
  have hnone : s.workerQueue.eraseP (fun a => a.addr = w.addr) = s.workerQueue :=
    List.eraseP_of_forall_not fun w' hw' => by simpa using hapart w' hw'
  rw [epTpWorkerFree, hnone]

/-- A thread goes on with the worker that it has, or without one. -/
theorem TpPool.Tidy.moveTo (h : s.Tidy) {i : Fin n} {at' : TpThread}
    (hat : s.threads i ≠ .exited)
    (hw : at'.worker = none ∨ at'.worker = (s.threads i).worker) : (s.moveTo i at').Tidy := by
  have hworker : ∀ j w, ((s.moveTo i at').threads j).worker = some w →
      (s.threads j).worker = some w := by
    intro j w
    rw [TpPool.threads_moveTo]
    split_ifs with hj
    · subst hj
      rcases hw with hw | hw <;> rw [hw]
      · nofun
      · exact id
    · exact id
  have hexited : ∀ j, s.threads j = .exited → (s.moveTo i at').threads j = .exited := by
    intro j hj
    rw [TpPool.threads_moveTo, if_neg, hj]
    rintro rfl
    exact hat hj
  exact
    { queued := h.queued
      apart := fun j w hj => h.apart j w (hworker j w hj)
      alone := fun j k w w' hj hk => h.alone j k w w' (hworker j w hj) (hworker k w' hk)
      joining := fun index hd j hj => hexited j (h.joining index hd j hj)
      joined := fun hd j => hexited j (h.joined hd j) }

theorem TpPool.Tidy.take (h : s.Tidy) {i : Fin n} {w : TpWorker} {queue : List TpWorker}
    (hq : s.workerQueue = w :: queue) (hat : s.threads i ≠ .exited) :
    ({ s with workerQueue := queue }.moveTo i (.starting w)).Tidy := by
  have hnodup := h.queued
  rw [hq, List.map_cons, List.nodup_cons] at hnodup
  have hfirst : ∀ w' ∈ queue, w'.addr ≠ w.addr := by
    intro w' hw' heq
    exact hnodup.1 (heq ▸ List.mem_map_of_mem hw')
  have hold : ∀ j w', (s.threads j).worker = some w' → w'.addr ≠ w.addr := by
    intro j w' hj heq
    exact h.apart j w' hj w (by simp [hq]) heq.symm
  refine ⟨hnodup.2, ?_, ?_, ?_, ?_⟩
  · intro j w' hj
    rw [TpPool.threads_moveTo] at hj
    split_ifs at hj with hji
    · cases hj
      exact hfirst
    · exact fun w'' hw'' => h.apart j w' hj w'' (hq ▸ List.mem_cons_of_mem _ hw'')
  · intro j k w₁ w₂ hj hk heq
    rw [TpPool.threads_moveTo] at hj hk
    split_ifs at hj hk with hji hki hki
    · rw [hji, hki]
    · cases hj
      exact absurd heq.symm (hold k w₂ hk)
    · cases hk
      exact absurd heq (hold j w₁ hj)
    · exact h.alone j k w₁ w₂ hj hk heq
  · intro index hd j hj
    rw [TpPool.threads_moveTo, if_neg]
    · exact h.joining index hd j hj
    · rintro rfl
      exact hat (h.joining index hd j hj)
  · intro hd
    exact absurd (h.joined hd i) hat

theorem TpPool.Tidy.insert (h : s.Tidy) {addr : ℕ} (haddr : ¬ s.InUse addr) (registering : ℕ) :
    ({ s with
        workerQueue := s.workerQueue ++ [⟨addr, s.fresh⟩]
        registering := registering
        fresh := s.fresh + 1 } : TpPool n).Tidy := by
  have hqueue : ∀ w ∈ s.workerQueue, w.addr ≠ addr := fun w hw heq => haddr (.inl ⟨w, hw, heq⟩)
  have hthread : ∀ i w, (s.threads i).worker = some w → addr ≠ w.addr :=
    fun i w hw heq => haddr (.inr ⟨i, by rw [hw, heq]; rfl⟩)
  refine ⟨?_, ?_, h.alone, h.joining, h.joined⟩
  · simpa [List.nodup_append, h.queued] using hqueue
  · intro i w hw w' hw'
    rcases List.mem_append.mp hw' with hw' | hw'
    · exact h.apart i w hw w' hw'
    · rw [List.mem_singleton.mp hw']
      exact hthread i w hw

theorem TpPool.Tidy.move (h : s.Tidy) {next : TpDestroyer} (hmove : DestroyerMove s next) :
    ({ s with destroyer := next } : TpPool n).Tidy := by
  refine ⟨h.queued, h.apart, h.alone, ?_, ?_⟩
  · cases hmove with
    | @join k hd hk hexited =>
      intro index hnext i hi
      obtain rfl : k + 1 = index := by simpa using hnext
      rcases Nat.lt_succ_iff_lt_or_eq.mp hi with hlt | heq
      · exact h.joining k hd i hlt
      · rwa [show i = ⟨k, hk⟩ from Fin.ext heq]
    | _ => nofun
  · cases hmove with
    | joined hd hk => exact fun _ i => h.joining _ hd i (by omega)
    | done hd => exact fun _ => h.joined (.inl hd)
    | _ => simp [TpDestroyer.Late]

theorem TpPool.Tidy.step (h : s.Tidy) (hstep : TpStep s s' new) : s'.Tidy := by
  cases hstep with
  | stay => exact h
  | check => exact ⟨h.queued, h.apart, h.alone, h.joining, h.joined⟩
  | insert haddr registering => exact h.insert haddr registering
  | go hat hw => exact h.moveTo hat (.inr hw)
  | take hq hat => exact h.take hq hat
  | start hat => exact h.moveTo (by simp [hat]) (.inr (by rw [hat]; rfl))
  | finish hat => exact h.moveTo (by simp [hat]) (.inr (by rw [hat]; rfl))
  | free hat =>
    rw [h.free_eq hat]
    exact h.moveTo (by simp [hat]) (.inl rfl)
  | move hmove => exact h.move hmove
  | abort hd => exact ⟨h.queued, h.apart, h.alone, by simp, by simp [TpDestroyer.Late]⟩
  | sweep hd hq =>
    have hsub := h.queued
    rw [hq] at hsub
    exact ⟨(List.nodup_cons.mp hsub).2,
      fun i w hw w' hw' => h.apart i w hw w' (by simp [hq, hw']), h.alone, h.joining, h.joined⟩

end Tidy

/-! ## The queue -/

/-- The numbers of the workers, in the order in which they were registered. -/
def registrations (marks : List TpMark) : List ℕ :=
  marks.filterMap fun
    | .registered id => some id
    | _ => none

def takings (marks : List TpMark) : List ℕ :=
  marks.filterMap fun
    | .taken id => some id
    | _ => none

def executions (marks : List TpMark) : List ℕ :=
  marks.filterMap fun
    | .started id => some id
    | _ => none

def completions (marks : List TpMark) : List ℕ :=
  marks.filterMap fun
    | .finished id => some id
    | _ => none

def sweepings (marks : List TpMark) : List ℕ :=
  marks.filterMap fun
    | .swept id => some id
    | _ => none

section Projections

variable (marks new : List TpMark)

@[simp] theorem registrations_append :
    registrations (marks ++ new) = registrations marks ++ registrations new := List.filterMap_append

@[simp] theorem takings_append : takings (marks ++ new) = takings marks ++ takings new :=
  List.filterMap_append

@[simp] theorem executions_append :
    executions (marks ++ new) = executions marks ++ executions new := List.filterMap_append

@[simp] theorem completions_append :
    completions (marks ++ new) = completions marks ++ completions new := List.filterMap_append

@[simp] theorem sweepings_append : sweepings (marks ++ new) = sweepings marks ++ sweepings new :=
  List.filterMap_append

end Projections

/-- Workers leave the queue in the order of their registration, and `ep_tp_destroy`
takes some only when the threads have ended. -/
structure TpPool.Ordered {n : ℕ} (s : TpPool n) (marks : List TpMark) : Prop where
  order : registrations marks =
    takings marks ++ (sweepings marks ++ s.workerQueue.map TpWorker.id)
  nodup : (registrations marks).Nodup
  bound : ∀ id ∈ registrations marks, id < s.fresh
  sweeps : sweepings marks ≠ [] → s.destroyer.Late

section Ordered

variable {n : ℕ} {s s' : TpPool n} {marks new : List TpMark}

theorem TpPool.Ordered.start (n : ℕ) : (TpPool.start n).Ordered [] :=
  ⟨rfl, .nil, nofun, by simp [sweepings]⟩

/-- A step that neither registers nor takes a worker. -/
theorem TpPool.Ordered.same (h : s.Ordered marks) (hqueue : s'.workerQueue = s.workerQueue)
    (hfresh : s'.fresh = s.fresh) (hlate : s.destroyer.Late → s'.destroyer.Late)
    (hr : registrations new = []) (ht : takings new = []) (hs : sweepings new = []) :
    s'.Ordered (marks ++ new) := by
  refine ⟨?_, ?_, ?_, ?_⟩
  · simpa [hr, ht, hs, hqueue] using h.order
  · simpa [hr] using h.nodup
  · simpa [hr, hfresh] using h.bound
  · intro hne
    exact hlate (h.sweeps (by simpa [hs] using hne))

theorem DestroyerMove.late {next : TpDestroyer} (h : DestroyerMove s next)
    (hlate : s.destroyer.Late) : next.Late := by
  cases h with
  | poll hd | skip hd | drained hd | join hd => simp [TpDestroyer.Late, hd] at hlate
  | joined => exact .inl rfl
  | done => exact .inr rfl

theorem TpPool.Ordered.insert (h : s.Ordered marks) {addr registering : ℕ} :
    ({ s with
        workerQueue := s.workerQueue ++ [⟨addr, s.fresh⟩]
        registering := registering
        fresh := s.fresh + 1 } : TpPool n).Ordered (marks ++ [.registered s.fresh]) := by
  have hnew : registrations (marks ++ [.registered s.fresh]) =
      registrations marks ++ [s.fresh] := by
    simp [registrations]
  refine ⟨?_, ?_, ?_, ?_⟩
  · rw [hnew, h.order]
    simp [takings, sweepings]
  · rw [hnew, List.nodup_append]
    refine ⟨h.nodup, List.nodup_singleton _, ?_⟩
    intro id hid id' hid'
    rw [List.mem_singleton.mp hid']
    exact (h.bound id hid).ne
  · rw [hnew]
    intro id hid
    rcases List.mem_append.mp hid with hid | hid
    · exact Nat.lt_succ_of_lt (h.bound id hid)
    · rw [List.mem_singleton.mp hid]
      exact Nat.lt_succ_self _
  · intro hne
    exact h.sweeps (by simpa [sweepings] using hne)

theorem TpPool.Ordered.take (h : s.Ordered marks) {i : Fin n} {w : TpWorker}
    {queue : List TpWorker} (hq : s.workerQueue = w :: queue) (hearly : ¬ s.destroyer.Late) :
    ({ s with workerQueue := queue }.moveTo i (.starting w)).Ordered
      (marks ++ [TpMark.taken w.id]) := by
  have hsweeps : sweepings marks = [] := by
    by_contra hne
    exact hearly (h.sweeps hne)
  have hs : sweepings (marks ++ [.taken w.id]) = [] := by
    rw [sweepings_append, hsweeps]
    rfl
  have hr : registrations (marks ++ [.taken w.id]) = registrations marks := by simp [registrations]
  refine ⟨?_, by rw [hr]; exact h.nodup, by rw [hr]; exact h.bound, fun hne => absurd hs hne⟩
  rw [hr, hs, h.order, hsweeps, hq]
  simp [takings, TpPool.moveTo]

theorem TpPool.Ordered.sweep (h : s.Ordered marks) {w : TpWorker} {queue : List TpWorker}
    (hq : s.workerQueue = w :: queue) (hlate : s.destroyer.Late) :
    ({ s with workerQueue := queue } : TpPool n).Ordered (marks ++ [.swept w.id]) := by
  have hr : registrations (marks ++ [.swept w.id]) = registrations marks := by simp [registrations]
  refine ⟨?_, by rw [hr]; exact h.nodup, by rw [hr]; exact h.bound, fun _ => hlate⟩
  rw [hr, h.order, hq]
  simp [takings, sweepings]

theorem TpPool.Ordered.step (h : s.Ordered marks) (htidy : s.Tidy) (hstep : TpStep s s' new) :
    s'.Ordered (marks ++ new) := by
  cases hstep with
  | stay | check | go | start | finish => exact h.same rfl rfl id rfl rfl rfl
  | insert => exact h.insert
  | @take i w queue hq hat => exact h.take hq fun hlate => hat (htidy.joined hlate i)
  | free hat =>
    rw [htidy.free_eq hat]
    exact h.same rfl rfl id rfl rfl rfl
  | move hmove => exact h.same rfl rfl hmove.late rfl rfl rfl
  | abort hd => exact h.same rfl rfl (by simp [TpDestroyer.Late, hd]) rfl rfl rfl
  | sweep hd hq => exact h.sweep hq (.inl hd)

end Ordered

/-! ## The workers that were taken -/

/-- Every worker that was taken has run or is with one thread, which runs it once. -/
structure TpPool.Tracked {n : ℕ} (s : TpPool n) (marks : List TpMark) : Prop where
  taken : ∀ i w, (s.threads i).pending = some w → w.id ∈ takings marks
  alone : ∀ i j w w', (s.threads i).pending = some w → (s.threads j).pending = some w' →
    w.id = w'.id → i = j
  waiting : ∀ i w, s.threads i = .starting w → w.id ∉ executions marks
  once : (executions marks).Nodup
  executed : ∀ id ∈ executions marks, id ∈ takings marks
  complete : ∀ id ∈ takings marks,
    id ∈ completions marks ∨ ∃ i w, (s.threads i).pending = some w ∧ w.id = id
  begun : ∀ i w, s.threads i = .running w → w.id ∈ executions marks
  ended : ∀ id ∈ completions marks, id ∈ executions marks

section Tracked

variable {n : ℕ} {s s' : TpPool n} {marks new : List TpMark}

theorem TpPool.Tracked.start (n : ℕ) : (TpPool.start n).Tracked [] :=
  ⟨nofun, nofun, nofun, .nil, nofun, nofun, nofun, nofun⟩

/-- A step that starts and ends no worker. -/
theorem TpPool.Tracked.same (h : s.Tracked marks)
    (hthreads : ∀ i, s'.threads i = s.threads i ∨
      (s'.threads i).pending = none ∧ (s.threads i).pending = none)
    (ht : takings new = []) (he : executions new = []) (hc : completions new = []) :
    s'.Tracked (marks ++ new) := by
  have hpending : ∀ i, (s'.threads i).pending = (s.threads i).pending := by
    intro i
    rcases hthreads i with hi | ⟨hi', hi⟩
    · rw [hi]
    · rw [hi, hi']
  have hsame : ∀ i at', TpThread.pending at' ≠ none → s'.threads i = at' → s.threads i = at' := by
    intro i at' hat hi
    rcases hthreads i with heq | ⟨heq, -⟩
    · rw [← heq, hi]
    · exact absurd (hi ▸ heq) hat
  refine ⟨?_, ?_, ?_, ?_, ?_, ?_, ?_, ?_⟩
  · simpa [ht, hpending] using h.taken
  · simpa [hpending] using h.alone
  · simpa [he] using fun i w hi => h.waiting i w (hsame i _ nofun hi)
  · simpa [he] using h.once
  · simpa [ht, he] using h.executed
  · simpa [ht, hc, hpending] using h.complete
  · simpa [he] using fun i w hi => h.begun i w (hsame i _ nofun hi)
  · simpa [he, hc] using h.ended

theorem TpPool.pending_moveTo {i : Fin n} {at' : TpThread} (j : Fin n) :
    ((s.moveTo i at').threads j).pending =
      if j = i then at'.pending else (s.threads j).pending := by
  rw [threads_moveTo]
  split_ifs <;> rfl

/-- A worker that is taken out of the queue has not been taken before. -/
theorem TpPool.Tracked.take (h : s.Tracked marks) {i : Fin n} {w : TpWorker}
    {queue : List TpWorker} (hnew : w.id ∉ takings marks) (hp : (s.threads i).pending = none) :
    ({ s with workerQueue := queue }.moveTo i (.starting w)).Tracked
      (marks ++ [TpMark.taken w.id]) := by
  have ht : takings (marks ++ [.taken w.id]) = takings marks ++ [w.id] := by simp [takings]
  have he : executions (marks ++ [.taken w.id]) = executions marks := by simp [executions]
  have hc : completions (marks ++ [.taken w.id]) = completions marks := by simp [completions]
  have hold : ∀ j w', (s.threads j).pending = some w' → w'.id ≠ w.id :=
    fun j w' hj heq => hnew (heq ▸ h.taken j w' hj)
  refine ⟨?_, ?_, ?_, ?_, ?_, ?_, ?_, ?_⟩
  · intro j w' hj
    rw [TpPool.pending_moveTo] at hj
    rw [ht]
    split_ifs at hj
    · cases hj
      simp
    · exact List.mem_append_left _ (h.taken j w' hj)
  · intro j k w₁ w₂ hj hk heq
    rw [TpPool.pending_moveTo] at hj hk
    split_ifs at hj hk with hji hki hki
    · rw [hji, hki]
    · cases hj
      exact absurd heq.symm (hold k w₂ hk)
    · cases hk
      exact absurd heq (hold j w₁ hj)
    · exact h.alone j k w₁ w₂ hj hk heq
  · intro j w' hj
    rw [TpPool.threads_moveTo] at hj
    rw [he]
    split_ifs at hj
    · cases hj
      exact fun hmem => hnew (h.executed _ hmem)
    · exact h.waiting j w' hj
  · rw [he]
    exact h.once
  · rw [he, ht]
    exact fun id hid => List.mem_append_left _ (h.executed id hid)
  · rw [ht, hc]
    intro id hid
    rcases List.mem_append.mp hid with hid | hid
    · refine (h.complete id hid).imp_right ?_
      rintro ⟨j, w', hj, rfl⟩
      refine ⟨j, w', ?_, rfl⟩
      rw [TpPool.pending_moveTo, if_neg]
      · exact hj
      · rintro rfl
        exact absurd (hp.symm.trans hj) nofun
    · refine .inr ⟨i, w, ?_, (List.mem_singleton.mp hid).symm⟩
      rw [TpPool.pending_moveTo, if_pos rfl]
      rfl
  · intro j w' hj
    rw [TpPool.threads_moveTo] at hj
    rw [he]
    split_ifs at hj
    exact h.begun j w' hj
  · rw [hc, he]
    exact h.ended

theorem TpPool.Tracked.begin (h : s.Tracked marks) {i : Fin n} {w : TpWorker}
    (hat : s.threads i = .starting w) :
    (s.moveTo i (.running w)).Tracked (marks ++ [.started w.id]) := by
  have ht : takings (marks ++ [.started w.id]) = takings marks := by simp [takings]
  have he : executions (marks ++ [.started w.id]) = executions marks ++ [w.id] := by
    simp [executions]
  have hc : completions (marks ++ [.started w.id]) = completions marks := by simp [completions]
  have hp : (s.threads i).pending = some w := by rw [hat]; rfl
  have hpending : ∀ j, ((s.moveTo i (.running w)).threads j).pending = (s.threads j).pending := by
    intro j
    rw [TpPool.pending_moveTo]
    split_ifs with hj
    · rw [hj, hp]
      rfl
    · rfl
  refine ⟨?_, ?_, ?_, ?_, ?_, ?_, ?_, ?_⟩
  · simpa [ht, hpending] using h.taken
  · simpa [hpending] using h.alone
  · intro j w' hj hmem
    rw [TpPool.threads_moveTo] at hj
    rw [he] at hmem
    split_ifs at hj with hji
    rcases List.mem_append.mp hmem with hmem | hmem
    · exact h.waiting j w' hj hmem
    · exact hji (h.alone j i w' w (by rw [hj]; rfl) hp (List.mem_singleton.mp hmem))
  · rw [he, List.nodup_append]
    refine ⟨h.once, List.nodup_singleton _, ?_⟩
    rintro id hid id' hid' rfl
    rw [List.mem_singleton.mp hid'] at hid
    exact h.waiting i w hat hid
  · rw [he, ht]
    intro id hid
    rcases List.mem_append.mp hid with hid | hid
    · exact h.executed id hid
    · rw [List.mem_singleton.mp hid]
      exact h.taken i w hp
  · simpa [ht, hc, hpending] using h.complete
  · intro j w' hj
    rw [TpPool.threads_moveTo] at hj
    rw [he]
    split_ifs at hj
    · cases hj
      simp
    · exact List.mem_append_left _ (h.begun j w' hj)
  · rw [hc, he]
    exact fun id hid => List.mem_append_left _ (h.ended id hid)

theorem TpPool.Tracked.finish (h : s.Tracked marks) {i : Fin n} {w : TpWorker}
    (hat : s.threads i = .running w) :
    (s.moveTo i (.completing w)).Tracked (marks ++ [.finished w.id]) := by
  have ht : takings (marks ++ [.finished w.id]) = takings marks := by simp [takings]
  have he : executions (marks ++ [.finished w.id]) = executions marks := by simp [executions]
  have hc : completions (marks ++ [.finished w.id]) = completions marks ++ [w.id] := by
    simp [completions]
  have hpending : ∀ j w', ((s.moveTo i (.completing w)).threads j).pending = some w' →
      (s.threads j).pending = some w' := by
    intro j w' hj
    rw [TpPool.pending_moveTo] at hj
    split_ifs at hj with hji
    · cases hj
    · exact hj
  have hthread : ∀ j at', TpThread.pending at' ≠ none →
      (s.moveTo i (.completing w)).threads j = at' → s.threads j = at' := by
    intro j at' hat' hj
    rw [TpPool.threads_moveTo] at hj
    split_ifs at hj
    · exact absurd (hj ▸ rfl) hat'
    · exact hj
  refine ⟨?_, ?_, ?_, ?_, ?_, ?_, ?_, ?_⟩
  · rw [ht]
    exact fun j w' hj => h.taken j w' (hpending j w' hj)
  · exact fun j k w₁ w₂ hj hk => h.alone j k w₁ w₂ (hpending j w₁ hj) (hpending k w₂ hk)
  · rw [he]
    exact fun j w' hj => h.waiting j w' (hthread j _ nofun hj)
  · rw [he]
    exact h.once
  · rw [he, ht]
    exact h.executed
  · rw [ht, hc]
    intro id hid
    rcases h.complete id hid with hid | ⟨j, w', hj, rfl⟩
    · exact .inl (List.mem_append_left _ hid)
    · by_cases hji : j = i
      · subst hji
        rw [hat] at hj
        cases hj
        exact .inl (by simp)
      · refine .inr ⟨j, w', ?_, rfl⟩
        rwa [TpPool.pending_moveTo, if_neg hji]
  · rw [he]
    exact fun j w' hj => h.begun j w' (hthread j _ nofun hj)
  · rw [hc, he]
    intro id hid
    rcases List.mem_append.mp hid with hid | hid
    · exact h.ended id hid
    · rw [List.mem_singleton.mp hid]
      exact h.begun i w hat

theorem TpPool.Tracked.go (h : s.Tracked marks) {i : Fin n} {at' : TpThread}
    (hp : (s.threads i).pending = none) (hp' : at'.pending = none) :
    (s.moveTo i at').Tracked (marks ++ []) := by
  refine h.same (fun j => ?_) rfl rfl rfl
  rw [TpPool.threads_moveTo]
  split_ifs with hj
  · exact .inr ⟨hp', hj ▸ hp⟩
  · exact .inl rfl

theorem TpPool.Tracked.step (h : s.Tracked marks) (htidy : s.Tidy) (hordered : s.Ordered marks)
    (hstep : TpStep s s' new) : s'.Tracked (marks ++ new) := by
  cases hstep with
  | stay | check | insert | move | abort | sweep => exact h.same (fun _ => .inl rfl) rfl rfl rfl
  | go hat hw hp hp' => exact h.go hp hp'
  | @take i w queue hq hat hw hp =>
    refine h.take (fun hmem => ?_) hp
    have hnodup := hordered.nodup
    rw [hordered.order, hq] at hnodup
    exact (List.nodup_append.mp hnodup).2.2 _ hmem _ (by simp) rfl
  | start hat => exact h.begin hat
  | finish hat => exact h.finish hat
  | free hat =>
    rw [htidy.free_eq hat]
    exact h.go (by rw [hat]; rfl) rfl

end Tracked

/-! ## Whole runs -/

structure TpPool.Sound {n : ℕ} (s : TpPool n) (marks : List TpMark) : Prop where
  tidy : s.Tidy
  ordered : s.Ordered marks
  tracked : s.Tracked marks

section Runs

variable {n : ℕ} {s s' : TpPool n} {marks marks' new : List TpMark}

theorem TpPool.Sound.start (n : ℕ) : (TpPool.start n).Sound [] := ⟨.start n, .start n, .start n⟩

theorem TpPool.Sound.step (h : s.Sound marks) (hstep : TpStep s s' new) :
    s'.Sound (marks ++ new) :=
  ⟨h.tidy.step hstep, h.ordered.step h.tidy hstep, h.tracked.step h.tidy h.ordered hstep⟩

theorem TpPool.Sound.reaches {ok : TpPool n × List TpMark → TpAct n → Prop} (h : s.Sound marks)
    (hrun : Reaches (traced TpPool.step) ok (s, marks) (s', marks')) : s'.Sound marks' := by
  refine hrun.invariant (P := fun t => t.1.Sound t.2) h ?_
  rintro ⟨s, w⟩ e ⟨s', w'⟩ hsound - hstep
  obtain ⟨new, hreport, rfl⟩ := traced_eq_some.mp hstep
  exact TpPool.Sound.step hsound (TpPool.step_cases hreport)

/-- `ids` have been registered before the pool is destroyed, and are taken once the
destroyer has seen an empty queue. -/
structure TpPool.Drains (s : TpPool n) (marks : List TpMark) (ids : List ℕ) : Prop where
  called : s.destroyer ≠ .idle
  registered : ∀ id ∈ ids, id ∈ registrations marks
  taken : s.destroyer ≠ .polling → ∀ id ∈ ids, id ∈ takings marks

theorem TpPool.Drains.step {ids : List ℕ} (h : s.Drains marks ids) (hsound : s.Sound marks)
    (hstep : TpStep s s' new) : s'.Drains (marks ++ new) ids := by
  have hregistered : ∀ id ∈ ids, id ∈ registrations (marks ++ new) := by
    intro id hid
    rw [registrations_append]
    exact List.mem_append_left _ (h.registered id hid)
  have htaken : s.destroyer ≠ .polling → ∀ id ∈ ids, id ∈ takings (marks ++ new) := by
    intro hd id hid
    rw [takings_append]
    exact List.mem_append_left _ (h.taken hd id hid)
  cases hstep with
  | stay | check | go | start | finish | insert | take | free | sweep =>
    exact ⟨h.called, hregistered, htaken⟩
  | abort hd => exact ⟨nofun, hregistered, fun _ => htaken (by simp [hd])⟩
  | move hmove =>
    cases hmove with
    | poll hd | skip hd => exact absurd hd h.called
    | drained hd hq =>
      refine ⟨nofun, hregistered, fun _ id hid => ?_⟩
      -- nothing is left in the queue, and nothing has been swept yet
      have horder := hsound.ordered.order
      have hsweeps : sweepings marks = [] := by
        by_contra hne
        have hlate := hsound.ordered.sweeps hne
        simp [TpDestroyer.Late, hd] at hlate
      rw [hq, hsweeps, List.map_nil, List.append_nil, List.append_nil] at horder
      simpa [horder] using h.registered id hid
    | join hd | joined hd | done hd =>
      exact ⟨nofun, hregistered, fun _ => htaken (by simp [hd])⟩

theorem TpPool.Drains.reaches {ids : List ℕ} (h : s.Drains marks ids) (hsound : s.Sound marks)
    (hrun : Reaches (traced TpPool.step) anyStep (s, marks) (s', marks')) :
    s'.Drains marks' ids := by
  suffices hboth : s'.Sound marks' ∧ s'.Drains marks' ids from hboth.2
  refine hrun.invariant (P := fun t => t.1.Sound t.2 ∧ t.1.Drains t.2 ids) ⟨hsound, h⟩ ?_
  rintro ⟨s, w⟩ e ⟨s', w'⟩ ⟨hs, hd⟩ - hstep
  obtain ⟨new, hreport, rfl⟩ := traced_eq_some.mp hstep
  have hcases := TpPool.step_cases hreport
  exact ⟨TpPool.Sound.step hs hcases, TpPool.Drains.step hd hs hcases⟩

/-- When the threads have ended, what was taken has run to its end. -/
theorem TpPool.Sound.completed (h : s.Sound marks) (hlate : s.destroyer.Late) {id : ℕ}
    (hid : id ∈ takings marks) : id ∈ completions marks := by
  rcases h.tracked.complete id hid with hdone | ⟨i, w, hp, -⟩
  · exact hdone
  · rw [h.tidy.joined hlate i] at hp
    cases hp

end Runs

/-- Over every number of threads and every interleaving: no `process_cb` is called twice,
workers are taken in the order of their registration, and when a waiting `ep_tp_destroy`
returns, every worker that was registered before it was called has run to its end. -/
theorem epTp_runs_once (n : ℕ) (s : TpPool n) (marks : List TpMark)
    (h : Reaches (traced TpPool.step) anyStep (TpPool.start n, []) (s, marks)) :
    (executions marks).Nodup ∧ takings marks <+: registrations marks ∧
    ∀ called new s' marks', s.destroyer = .idle → s.step (.destroy .wait) = some (called, new) →
      Reaches (traced TpPool.step) anyStep (called, marks ++ new) (s', marks') →
      s'.destroyer = .returned → ∀ id ∈ registrations marks,
        id ∈ completions marks' ∧ (executions marks').count id = 1 := by
  have hsound := (TpPool.Sound.start n).reaches h
  refine ⟨hsound.tracked.once, ⟨_, hsound.ordered.order.symm⟩, ?_⟩
  intro called new s' marks' hidle hcall hrun hreturned id hid
  have hcalled := hsound.step (TpPool.step_cases hcall)
  have hpolling : called.destroyer = .polling := by
    simp only [TpPool.step, hidle, TpPool.epTpDestroy] at hcall
    cases hcall
    rfl
  have hdrains : called.Drains (marks ++ new) (registrations marks) := by
    refine ⟨by simp [hpolling], fun id hid => ?_, fun hne => absurd hpolling hne⟩
    rw [registrations_append]
    exact List.mem_append_left _ hid
  have hsound' := hcalled.reaches hrun
  have htaken := (hdrains.reaches hcalled hrun).taken (by simp [hreturned]) id hid
  have hdone := hsound'.completed (.inr hreturned) htaken
  exact ⟨hdone, List.count_eq_one_of_mem hsound'.tracked.once (hsound'.tracked.ended id hdone)⟩

/-- The pool is destroyed while its only thread has not taken the worker yet. -/
theorem epTp_runs_once_late_thread :
    ∃ (s : TpPool 1) (marks : List TpMark) (called : TpPool 1) (new : List TpMark) (s' : TpPool 1)
        (marks' : List TpMark),
      Reaches (traced TpPool.step) anyStep (TpPool.start 1, []) (s, marks) ∧
      registrations marks = [0] ∧ takings marks = [] ∧
      s.step (.destroy .wait) = some (called, new) ∧
      Reaches (traced TpPool.step) anyStep (called, marks ++ new) (s', marks') ∧
      s'.destroyer = .returned ∧ 0 ∈ completions marks' ∧ (executions marks').count 0 = 1 := by
  obtain ⟨s, marks, called, new, s', marks', hbefore, hregistered, htaken, hidle, hcall, hrun,
      hreturned⟩ : ∃ (s : TpPool 1) (marks : List TpMark) (called : TpPool 1) (new : List TpMark)
        (s' : TpPool 1) (marks' : List TpMark),
      Reaches (traced TpPool.step) anyStep (TpPool.start 1, []) (s, marks) ∧
      registrations marks = [0] ∧ takings marks = [] ∧ s.destroyer = .idle ∧
      s.step (.destroy .wait) = some (called, new) ∧
      Reaches (traced TpPool.step) anyStep (called, marks ++ new) (s', marks') ∧
      s'.destroyer = .returned :=
    ⟨_, _, _, _, _, _, reaches_of_exec [.check, .insert 5] rfl, rfl, rfl, rfl, rfl,
      reaches_of_exec [.thread 0, .destroy .wait, .thread 0, .destroy .wait, .thread 0,
        .destroy .wait, .thread 0, .thread 0, .thread 0, .thread 0, .destroy .wait, .destroy .wait,
        .destroy .wait] rfl, rfl⟩
  exact ⟨s, marks, called, new, s', marks', hbefore, hregistered, htaken, hcall, hrun, hreturned,
    (epTp_runs_once 1 s marks hbefore).2.2 called new s' marks' hidle hcall hrun hreturned 0
      (hregistered ▸ List.mem_singleton_self 0)⟩

end Youmenu.Eventpack
