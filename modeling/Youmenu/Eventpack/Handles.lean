import Youmenu.Eventpack.ThreadPool

/-!
# The handles of workers

`ep_tp_worker_register` returns a pointer to the worker, and the pool keeps one too. The thread
that has run the worker releases it, and so does a call of `ep_tp_worker_free`. A worker is
followed from its registration on, with the pool on the one side and any number of threads of
its owner on the other.

A call is cut at the points where it uses the worker, and `ep_tp_worker_free` at its mutex, at
`sem_post` and at the release. Memory that was released keeps what it held.

## Main definitions

* `TpHandle.step` — what the pool and the owner do with a worker.
* `TpHandle.Sound` — what the owner of a handle relies on.
* `TpHandle.Timely` — the owner keeps its calls away from the release.
-/

namespace Youmenu.Eventpack

open Transition

variable {ρ : Type*} {m n : ℕ}

/-! ## The state -/

/-- `ep_tp_state`. -/
inductive EpTpState where
  | idle
  | busy
  | complete
  | invalid
deriving DecidableEq

/-- What changes in a worker behind its registration; `none` is a null pointer. -/
structure EpTpWorker (ρ : Type*) where
  result : Option ρ
  state : EpTpState
  sem : ℕ

/-- Where a call of `ep_tp_worker_free` stands. -/
inductive FreeAt where
  /-- Before the mutex. -/
  | locking
  /-- Before `sem_post`. -/
  | posting
  /-- Before `sem_destroy` and `ep_free`. -/
  | releasing
deriving DecidableEq

/-- Where the pool stands with the worker. -/
inductive TpPlace where
  | queued
  /-- A thread has taken it. -/
  | taken
  /-- In `process_cb`. -/
  | running
  /-- Before `sem_post`. -/
  | processed
  /-- In `complete_cb`, or about to call it. -/
  | completing
  | freeing (at' : FreeAt)
  | through
  /-- The owner has taken it out of the queue. -/
  | withdrawn
deriving DecidableEq

/-- Where a call of the owner stands. -/
inductive TpCall where
  | touch
  /-- In `sem_wait`, or before it. -/
  | wait
  /-- Behind `sem_wait`. -/
  | woken
  | free (at' : FreeAt)
deriving DecidableEq

structure TpHandle (ρ : Type*) (m : ℕ) where
  worker : EpTpWorker ρ
  place : TpPlace
  calls : Fin m → Option TpCall
  /-- What `process_cb` has returned. -/
  processed : Option (Option ρ)
  /-- What the calls of `ep_tp_worker_touch` have returned. -/
  touched : List EpTpState
  /-- What the calls of `ep_tp_worker_wait` have returned. -/
  waited : List (Option ρ)
  /-- How often the worker was released. -/
  released : ℕ
  /-- A call of the owner has used the worker after its release. -/
  late : Bool

/-- What the owner calls. -/
inductive HandleOp where
  | touch
  | wait
  | free

inductive HandleAct (ρ : Type*) (m : ℕ) where
  /-- The pool goes on; `process_cb` returns the pointer if it returns. -/
  | pool (result : Option ρ)
  /-- `ep_tp_destroy` finds the worker in the queue. -/
  | sweep
  | call (t : Fin m) (op : HandleOp)
  /-- A call of the owner goes on. -/
  | owner (t : Fin m)

/-- Only the pool acts. -/
def HandleAct.OfPool (_ : TpHandle ρ m) : HandleAct ρ m → Prop
  | .pool _ | .sweep => True
  | .call _ _ | .owner _ => False

/-! ## The operations -/

def EpTpWorker.semPost (worker : EpTpWorker ρ) : EpTpWorker ρ :=
  { worker with sem := worker.sem + 1 }

/-- `none` while it blocks. -/
def EpTpWorker.semWait (worker : EpTpWorker ρ) : Option (EpTpWorker ρ) :=
  if 0 < worker.sem then some { worker with sem := worker.sem - 1 } else none

def epTpWorkerTouch (worker : EpTpWorker ρ) : EpTpState := worker.state

/-- Where a call begins. -/
def HandleOp.enter : HandleOp → TpCall
  | .touch => .touch
  | .wait => .wait
  | .free => .free .locking

def TpCall.isFree : TpCall → Bool
  | .free _ => true
  | .touch | .wait | .woken => false

/-- Where a step of the pool leads. -/
def TpPlace.next : TpPlace → TpPlace
  | .queued => .taken
  | .taken => .running
  | .running => .processed
  | .processed => .completing
  | .completing => .freeing .locking
  | .freeing .locking => .freeing .posting
  | .freeing .posting => .freeing .releasing
  | .freeing .releasing | .through => .through
  | .withdrawn => .withdrawn

/-- How many steps of the pool are left up to the release. -/
def TpPlace.ahead : TpPlace → ℕ
  | .taken => 7
  | .running => 6
  | .processed => 5
  | .completing => 4
  | .freeing .locking => 3
  | .freeing .posting => 2
  | .freeing .releasing => 1
  | .queued | .through | .withdrawn => 0

theorem TpPlace.ne_of_ahead {p : TpPlace} (h : 0 < p.ahead) : p ≠ .through ∧ p ≠ .withdrawn := by
  constructor <;> rintro rfl <;> cases h

theorem TpPlace.ahead_next {p : TpPlace} (h : 0 < p.ahead) (hlast : p ≠ .freeing .releasing) :
    0 < p.next.ahead ∧ p.next.ahead < p.ahead := by
  cases p with
  | queued | through | withdrawn => cases h
  | freeing at' =>
    cases at' with
    | releasing => exact absurd rfl hlast
    | locking | posting => decide
  | taken | running | processed | completing => decide

namespace TpHandle

/-- After `ep_tp_worker_register`. -/
def start : TpHandle ρ m :=
  ⟨⟨none, .idle, 0⟩, .queued, fun _ => none, none, [], [], 0, false⟩

variable (s : TpHandle ρ m)

def setCall (t : Fin m) (c : Option TpCall) : TpHandle ρ m :=
  { s with calls := Function.update s.calls t c }

/-- A stretch of `ep_tp_worker_free`, with its assertion. -/
def epTpWorkerFree : FreeAt → Option (TpHandle ρ m × Option FreeAt)
  | .locking =>
    if s.place = .queued then
      if s.worker.state = .idle then some ({ s with place := .withdrawn }, some .posting) else none
    else some (s, some .posting)
  | .posting => some ({ s with worker := s.worker.semPost }, some .releasing)
  | .releasing => some ({ s with released := s.released + 1 }, none)

/-- A stretch of `ep_tp_routine`. Who reads the result has waited for the semaphore, so that it
may be written together with the state. -/
def epTpRoutine (result : Option ρ) : Option (TpHandle ρ m) :=
  match s.place with
  | .queued => some { s with place := .taken }
  | .taken => some { s with worker := { s.worker with state := .busy }, place := .running }
  | .running => some { s with
      worker := { s.worker with result := result, state := .complete }
      place := .processed
      processed := some result }
  | .processed => some { s with worker := s.worker.semPost, place := .completing }
  | .completing => some { s with place := .freeing .locking }
  | .freeing at' => (s.epTpWorkerFree at').map fun r =>
      { r.1 with place := r.2.elim .through .freeing }
  | .through | .withdrawn => none

/-- The worker is in the queue when the threads have ended. -/
def sweep : Option (TpHandle ρ m) :=
  if s.place = .queued then some { s with place := .freeing .posting } else none

/-- A stretch of a call. -/
def ownerCall (t : Fin m) : TpCall → Option (TpHandle ρ m)
  | .touch =>
    some ({ s with touched := s.touched ++ [epTpWorkerTouch s.worker] }.setCall t none)
  | .wait => s.worker.semWait.map fun worker => { s with worker := worker }.setCall t (some .woken)
  | .woken => some ({ s with waited := s.waited ++ [s.worker.result] }.setCall t none)
  | .free at' => (s.epTpWorkerFree at').map fun r => r.1.setCall t (r.2.map .free)

def step : HandleAct ρ m → Option (TpHandle ρ m)
  | .pool result => s.epTpRoutine result
  | .sweep => s.sweep
  | .call t op => if s.calls t = none then some (s.setCall t (some op.enter)) else none
  | .owner t =>
    match s.calls t with
    | none => none
    | some c =>
      if 0 < s.released then some ({ s with late := true }.setCall t none) else s.ownerCall t c

/-! ## What the owner relies on -/

/-- No call is under way. -/
def Quiet : Prop := ∀ t, s.calls t = none

/-- No call of `ep_tp_worker_free` is. -/
def NoFree : Prop := ∀ t, (s.calls t).any TpCall.isFree = false

/-- No call has used the worker after its release, every call of `ep_tp_worker_wait` has
returned what `process_cb` has, and the worker is released at most once, and once when neither
the pool nor the owner is at it any more. -/
structure Sound : Prop where
  late : s.late = false
  waited : ∀ r ∈ s.waited, s.processed = some r
  released : s.released ≤ 1
  once : s.place = .through ∨ s.place = .withdrawn → s.NoFree → s.released = 1

/-- The worker is in the queue, or its thread has not come back from `complete_cb`. -/
def Held : Prop :=
  s.place = .queued ∨ s.place = .taken ∨ s.place = .running ∨ s.place = .processed ∨
    s.place = .completing

/-- The owner frees the worker only while it is in the queue and stays there, and nothing else
is called then or later; the calls that touch it or wait for it have come to their end when the
thread comes back from `complete_cb` or the pool is destroyed. -/
def Timely : HandleAct ρ m → Prop
  | .pool _ => (s.place = .queued → s.NoFree) ∧ (s.place = .completing → s.Quiet)
  | .sweep => s.Quiet
  | .call _ .touch | .call _ .wait => s.Held ∧ s.NoFree
  | .call _ .free => s.place = .queued ∧ s.Quiet
  | .owner _ => True

instance : Decidable s.Quiet := inferInstanceAs (Decidable (∀ _, _))

instance : Decidable s.NoFree := inferInstanceAs (Decidable (∀ _, _))

instance : Decidable s.Held := inferInstanceAs (Decidable (_ ∨ _))

instance : DecidablePred s.Timely
  | .pool _ => inferInstanceAs (Decidable (_ ∧ _))
  | .sweep => inferInstanceAs (Decidable s.Quiet)
  | .call _ .touch | .call _ .wait | .call _ .free => inferInstanceAs (Decidable (_ ∧ _))
  | .owner _ => .isTrue trivial

/-! ## Steps -/

/-- What a step can do. A call that finds the memory released ends there. -/
inductive HandleStep (s : TpHandle ρ m) : HandleAct ρ m → TpHandle ρ m → Prop
  | take {r : Option ρ} (hp : s.place = .queued) :
      HandleStep s (.pool r) { s with place := .taken }
  | run {r : Option ρ} (hp : s.place = .taken) :
      HandleStep s (.pool r)
        { s with worker := { s.worker with state := .busy }, place := .running }
  | process {r : Option ρ} (hp : s.place = .running) :
      HandleStep s (.pool r) { s with
        worker := { s.worker with result := r, state := .complete }
        place := .processed
        processed := some r }
  | post {r : Option ρ} (hp : s.place = .processed) :
      HandleStep s (.pool r) { s with worker := s.worker.semPost, place := .completing }
  | complete {r : Option ρ} (hp : s.place = .completing) :
      HandleStep s (.pool r) { s with place := .freeing .locking }
  | freeLock {r : Option ρ} (hp : s.place = .freeing .locking) :
      HandleStep s (.pool r) { s with place := .freeing .posting }
  | freePost {r : Option ρ} (hp : s.place = .freeing .posting) :
      HandleStep s (.pool r) { s with worker := s.worker.semPost, place := .freeing .releasing }
  | freeRelease {r : Option ρ} (hp : s.place = .freeing .releasing) :
      HandleStep s (.pool r) { s with released := s.released + 1, place := .through }
  | sweep (hp : s.place = .queued) : HandleStep s .sweep { s with place := .freeing .posting }
  | call {t : Fin m} {op : HandleOp} (hidle : s.calls t = none) :
      HandleStep s (.call t op) (s.setCall t (some op.enter))
  | late {t : Fin m} {c : TpCall} (hc : s.calls t = some c) (hrel : 0 < s.released) :
      HandleStep s (.owner t) ({ s with late := true }.setCall t none)
  | touch {t : Fin m} (hc : s.calls t = some .touch) (hrel : s.released = 0) :
      HandleStep s (.owner t)
        ({ s with touched := s.touched ++ [epTpWorkerTouch s.worker] }.setCall t none)
  | wake {t : Fin m} (hc : s.calls t = some .wait) (hrel : s.released = 0)
      (hsem : 0 < s.worker.sem) :
      HandleStep s (.owner t)
        ({ s with worker := { s.worker with sem := s.worker.sem - 1 } }.setCall t (some .woken))
  | read {t : Fin m} (hc : s.calls t = some .woken) (hrel : s.released = 0) :
      HandleStep s (.owner t) ({ s with waited := s.waited ++ [s.worker.result] }.setCall t none)
  | withdraw {t : Fin m} (hc : s.calls t = some (.free .locking)) (hrel : s.released = 0)
      (hp : s.place = .queued) :
      HandleStep s (.owner t) ({ s with place := .withdrawn }.setCall t (some (.free .posting)))
  | pass {t : Fin m} (hc : s.calls t = some (.free .locking)) (hrel : s.released = 0)
      (hp : s.place ≠ .queued) :
      HandleStep s (.owner t) (s.setCall t (some (.free .posting)))
  | ownPost {t : Fin m} (hc : s.calls t = some (.free .posting)) (hrel : s.released = 0) :
      HandleStep s (.owner t)
        ({ s with worker := s.worker.semPost }.setCall t (some (.free .releasing)))
  | ownRelease {t : Fin m} (hc : s.calls t = some (.free .releasing)) (hrel : s.released = 0) :
      HandleStep s (.owner t) ({ s with released := s.released + 1 }.setCall t none)

section Steps

variable {s s' : TpHandle ρ m} {act : HandleAct ρ m}

theorem epTpRoutine_cases {r : Option ρ} (h : s.epTpRoutine r = some s') :
    HandleStep s (.pool r) s' := by
  cases hp : s.place with
  | freeing at' =>
    cases at' <;> simp only [epTpRoutine, hp, epTpWorkerFree, reduceCtorEq, if_false,
      Option.map_some, Option.elim, Option.some.injEq] at h <;> subst h
    · exact .freeLock hp
    · exact .freePost hp
    · exact .freeRelease hp
  | through | withdrawn => simp [epTpRoutine, hp] at h
  | _ =>
    simp only [epTpRoutine, hp, Option.some.injEq] at h
    subst h
    first | exact .take hp | exact .run hp | exact .process hp | exact .post hp | exact .complete hp

theorem ownerCall_cases {t : Fin m} {c : TpCall} (hc : s.calls t = some c)
    (hrel : s.released = 0) (h : s.ownerCall t c = some s') : HandleStep s (.owner t) s' := by
  cases c with
  | touch =>
    obtain rfl := Option.some.inj h
    exact .touch hc hrel
  | wait =>
    simp only [ownerCall, EpTpWorker.semWait] at h
    split_ifs at h with hsem
    · obtain rfl := Option.some.inj h
      exact .wake hc hrel hsem
    · cases h
  | woken =>
    obtain rfl := Option.some.inj h
    exact .read hc hrel
  | free at' =>
    cases at' with
    | locking =>
      simp only [ownerCall, epTpWorkerFree] at h
      split_ifs at h with hp hidle
      · obtain rfl := Option.some.inj h
        exact .withdraw hc hrel hp
      · cases h
      · obtain rfl := Option.some.inj h
        exact .pass hc hrel hp
    | posting =>
      obtain rfl := Option.some.inj h
      exact .ownPost hc hrel
    | releasing =>
      obtain rfl := Option.some.inj h
      exact .ownRelease hc hrel

theorem step_cases (h : s.step act = some s') : HandleStep s act s' := by
  cases act with
  | pool r => exact epTpRoutine_cases h
  | sweep =>
    simp only [step, TpHandle.sweep] at h
    split_ifs at h with hp
    obtain rfl := Option.some.inj h
    exact .sweep hp
  | call t op =>
    simp only [step] at h
    split_ifs at h with hidle
    obtain rfl := Option.some.inj h
    exact .call hidle
  | owner t =>
    simp only [step] at h
    split at h
    · cases h
    · next c hc =>
      split_ifs at h with hrel
      · obtain rfl := Option.some.inj h
        exact .late hc hrel
      · exact ownerCall_cases hc (Nat.eq_zero_of_not_pos hrel) h

end Steps

/-! ## Timely runs -/

section Timely

variable {s s' : TpHandle ρ m} {act : HandleAct ρ m} {t : Fin m} {c : TpCall}

theorem calls_setCall {next : Option TpCall} (u : Fin m) :
    (s.setCall t next).calls u = if u = t then next else s.calls u :=
  Function.update_apply _ _ _ _

/-- No other call is under way. -/
def Alone (s : TpHandle ρ m) (t : Fin m) : Prop := ∀ u, u ≠ t → s.calls u = none

/-- `process_cb` has not returned, and nobody has come through the semaphore. -/
structure Unprocessed (s : TpHandle ρ m) : Prop where
  processed : s.processed = none
  sem : s.worker.sem = 0
  asleep : ∀ t, s.calls t ≠ some .woken

theorem Quiet.noFree (h : s.Quiet) : s.NoFree := fun t => by rw [h t]; rfl

theorem NoFree.ne_free (h : s.NoFree) {at' : FreeAt} : s.calls t ≠ some (.free at') := by
  intro hc
  have hfree := h t
  rw [hc] at hfree
  cases hfree

theorem NoFree.setCall (h : s.NoFree) {next : Option TpCall}
    (hnext : next.any TpCall.isFree = false) : (s.setCall t next).NoFree := by
  intro u
  rw [calls_setCall]
  split_ifs
  · exact hnext
  · exact h u

theorem Alone.setCall (h : s.Alone t) (next : Option TpCall) : (s.setCall t next).Alone t := by
  intro u hu
  rw [calls_setCall, if_neg hu]
  exact h u hu

theorem Alone.quiet (h : s.Alone t) : (s.setCall t none).Quiet := by
  intro u
  rw [calls_setCall]
  split_ifs with hu
  · rfl
  · exact h u hu

theorem Unprocessed.setCall (h : s.Unprocessed) {next : Option TpCall}
    (hnext : next ≠ some .woken) : (s.setCall t next).Unprocessed := by
  refine ⟨h.processed, h.sem, fun u => ?_⟩
  rw [calls_setCall]
  split_ifs
  · exact hnext
  · exact h.asleep u

/-- Where the worker is in its life, and who may release it. -/
inductive Phase (s : TpHandle ρ m) : Prop
  | early (hp : s.place = .queued ∨ s.place = .taken ∨ s.place = .running)
      (hrel : s.released = 0) (hcalls : s.NoFree) (hun : s.Unprocessed)
  | done (hp : s.place = .processed ∨ s.place = .completing)
      (hrel : s.released = 0) (hcalls : s.NoFree) (hres : s.processed = some s.worker.result)
  | freeing {at' : FreeAt} (hp : s.place = .freeing at') (hrel : s.released = 0)
      (hquiet : s.Quiet)
  | withdrawing {t : Fin m} (hp : s.place = .queued) (hrel : s.released = 0)
      (hc : s.calls t = some (.free .locking)) (halone : s.Alone t)
  | withdrawn {t : Fin m} {at' : FreeAt} (hp : s.place = .withdrawn) (hrel : s.released = 0)
      (hat : at' ≠ .locking) (hc : s.calls t = some (.free at')) (halone : s.Alone t)
  | ended (hp : s.place = .through ∨ s.place = .withdrawn) (hrel : s.released = 1)
      (hquiet : s.Quiet)

theorem Phase.of_early (h : s.Phase)
    (hp : s.place = .queued ∨ s.place = .taken ∨ s.place = .running)
    (hq : s.place = .queued → s.NoFree) : s.released = 0 ∧ s.NoFree ∧ s.Unprocessed := by
  cases h with
  | early _ hrel hcalls hun => exact ⟨hrel, hcalls, hun⟩
  | withdrawing hqueued _ hc => exact absurd hc (hq hqueued).ne_free
  | done hp' | freeing hp' | withdrawn hp' | ended hp' => grind

theorem Phase.of_done (h : s.Phase) (hp : s.place = .processed ∨ s.place = .completing) :
    s.released = 0 ∧ s.NoFree ∧ s.processed = some s.worker.result := by
  cases h with
  | done _ hrel hcalls hres => exact ⟨hrel, hcalls, hres⟩
  | early hp' | freeing hp' | withdrawing hp' | withdrawn hp' | ended hp' => grind

theorem Phase.of_freeing (h : s.Phase) {at' : FreeAt} (hp : s.place = .freeing at') :
    s.released = 0 ∧ s.Quiet := by
  cases h with
  | freeing _ hrel hquiet => exact ⟨hrel, hquiet⟩
  | early hp' | done hp' | withdrawing hp' | withdrawn hp' | ended hp' => grind

/-- While a call is under way that is not `ep_tp_worker_free`, the pool holds the worker. -/
theorem Phase.of_call (h : s.Phase) (hc : s.calls t = some c) (hno : c.isFree = false) :
    s.released = 0 ∧ s.NoFree ∧
      ((s.place = .queued ∨ s.place = .taken ∨ s.place = .running) ∧ s.Unprocessed ∨
        (s.place = .processed ∨ s.place = .completing) ∧
          s.processed = some s.worker.result) := by
  have hbusy : ¬ s.Quiet := fun hquiet => nomatch (hquiet t).symm.trans hc
  have hother : ∀ u at', s.calls u = some (.free at') → ¬ s.Alone u := by
    intro u at' hu halone
    by_cases htu : t = u
    · subst htu
      obtain rfl := Option.some.inj (hc.symm.trans hu)
      cases hno
    · exact nomatch (halone t htu).symm.trans hc
  cases h with
  | early hp hrel hcalls hun => exact ⟨hrel, hcalls, .inl ⟨hp, hun⟩⟩
  | done hp hrel hcalls hres => exact ⟨hrel, hcalls, .inr ⟨hp, hres⟩⟩
  | freeing _ _ hquiet | ended _ _ hquiet => exact absurd hquiet hbusy
  | withdrawing _ _ hu halone | withdrawn _ _ _ hu halone => exact absurd halone (hother _ _ hu)

/-- A call of `ep_tp_worker_free` is alone, and it finds the worker in the queue. -/
theorem Phase.of_free (h : s.Phase) {at' : FreeAt} (hc : s.calls t = some (.free at')) :
    s.released = 0 ∧ s.Alone t ∧
      (s.place = .queued ∧ at' = .locking ∨ s.place = .withdrawn ∧ at' ≠ .locking) := by
  have hbusy : ¬ s.Quiet := fun hquiet => nomatch (hquiet t).symm.trans hc
  have hsame : ∀ u, s.Alone u → t = u := by
    intro u halone
    by_contra htu
    exact nomatch (halone t htu).symm.trans hc
  cases h with
  | early _ _ hcalls | done _ _ hcalls => exact absurd hc hcalls.ne_free
  | freeing _ _ hquiet | ended _ _ hquiet => exact absurd hquiet hbusy
  | @withdrawing u hp hrel hu halone =>
    obtain rfl := hsame u halone
    obtain rfl : FreeAt.locking = at' := by simpa using hu.symm.trans hc
    exact ⟨hrel, halone, .inl ⟨hp, rfl⟩⟩
  | @withdrawn u at'' hp hrel hat hu halone =>
    obtain rfl := hsame u halone
    obtain rfl : at'' = at' := by simpa using hu.symm.trans hc
    exact ⟨hrel, halone, .inr ⟨hp, hat⟩⟩

theorem Phase.unreleased (h : s.Phase) (hc : s.calls t = some c) : s.released = 0 := by
  cases c with
  | free at' => exact (h.of_free hc).1
  | touch | wait | woken => exact (h.of_call hc rfl).1

/-- A call that is not `ep_tp_worker_free` begins while the pool holds the worker. -/
theorem Phase.enter (h : s.Phase) (hheld : s.Held) (hcalls : s.NoFree)
    (hno : c.isFree = false) (hwoken : c ≠ .woken) : (s.setCall t (some c)).Phase := by
  have hcalls' : (s.setCall t (some c)).NoFree := hcalls.setCall (by simpa using hno)
  by_cases hdone : s.place = .processed ∨ s.place = .completing
  · obtain ⟨hrel, -, hres⟩ := h.of_done hdone
    exact .done hdone hrel hcalls' hres
  · have hearly : s.place = .queued ∨ s.place = .taken ∨ s.place = .running := by
      rcases hheld with hp | hp | hp | hp
      · exact .inl hp
      · exact .inr (.inl hp)
      · exact .inr (.inr hp)
      · exact absurd hp hdone
    obtain ⟨hrel, -, hun⟩ := h.of_early hearly fun _ => hcalls
    exact .early hearly hrel hcalls' (hun.setCall (by simpa using hwoken))

theorem Phase.step (h : s.Phase) (hok : s.Timely act) (hstep : HandleStep s act s') :
    s'.Phase := by
  cases hstep with
  | take hp =>
    obtain ⟨hrel, hcalls, hun⟩ := h.of_early (.inl hp) hok.1
    exact .early (.inr (.inl rfl)) hrel hcalls ⟨hun.processed, hun.sem, hun.asleep⟩
  | run hp =>
    obtain ⟨hrel, hcalls, hun⟩ := h.of_early (.inr (.inl hp)) hok.1
    exact .early (.inr (.inr rfl)) hrel hcalls ⟨hun.processed, hun.sem, hun.asleep⟩
  | process hp =>
    obtain ⟨hrel, hcalls, -⟩ := h.of_early (.inr (.inr hp)) hok.1
    exact .done (.inl rfl) hrel hcalls rfl
  | post hp =>
    obtain ⟨hrel, hcalls, hres⟩ := h.of_done (.inl hp)
    exact .done (.inr rfl) hrel hcalls hres
  | complete hp => exact .freeing rfl (h.of_done (.inr hp)).1 (hok.2 hp)
  | freeLock hp | freePost hp =>
    obtain ⟨hrel, hquiet⟩ := h.of_freeing hp
    exact .freeing rfl hrel hquiet
  | freeRelease hp =>
    obtain ⟨hrel, hquiet⟩ := h.of_freeing hp
    exact .ended (.inl rfl) (congrArg (· + 1) hrel) hquiet
  | sweep hp => exact .freeing rfl (h.of_early (.inl hp) fun _ => Quiet.noFree hok).1 hok
  | @call t op hidle =>
    cases op with
    | free =>
      obtain ⟨hp, hquiet⟩ := hok
      have hrel := (h.of_early (.inl hp) fun _ => hquiet.noFree).1
      refine .withdrawing (t := t) hp hrel (by simp [calls_setCall, HandleOp.enter]) fun u hu => ?_
      rw [calls_setCall, if_neg hu]
      exact hquiet u
    | touch | wait => exact h.enter hok.1 hok.2 rfl nofun
  | late hc hrel => exact absurd (h.unreleased hc) hrel.ne'
  | @touch t hc hrel =>
    obtain ⟨-, hcalls, ⟨hp, hun⟩ | ⟨hp, hres⟩⟩ := h.of_call hc rfl
    · have hasleep : (s.setCall t none).Unprocessed := hun.setCall (by simp)
      exact .early hp hrel (hcalls.setCall rfl)
        ⟨hasleep.processed, hasleep.sem, hasleep.asleep⟩
    · exact .done hp hrel (hcalls.setCall rfl) hres
  | wake hc hrel hsem =>
    obtain ⟨-, hcalls, ⟨hp, hun⟩ | ⟨hp, hres⟩⟩ := h.of_call hc rfl
    · -- nobody has posted before the thread does
      exact absurd hun.sem hsem.ne'
    · exact .done hp hrel (hcalls.setCall rfl) hres
  | read hc hrel =>
    obtain ⟨-, hcalls, ⟨hp, hun⟩ | ⟨hp, hres⟩⟩ := h.of_call hc rfl
    · exact absurd hc (hun.asleep _)
    · exact .done hp hrel (hcalls.setCall rfl) hres
  | withdraw hc hrel hp =>
    obtain ⟨-, halone, -⟩ := h.of_free hc
    have hat : FreeAt.posting ≠ .locking := nofun
    exact .withdrawn rfl hrel hat (by simp [calls_setCall]) (halone.setCall _)
  | pass hc hrel hp =>
    -- no thread takes the worker under a call that frees it
    obtain ⟨-, -, ⟨hq, -⟩ | ⟨-, hat⟩⟩ := h.of_free hc
    · exact absurd hq hp
    · exact absurd rfl hat
  | ownPost hc hrel =>
    obtain ⟨-, halone, ⟨-, hat⟩ | ⟨hp, -⟩⟩ := h.of_free hc
    · cases hat
    · have hat' : FreeAt.releasing ≠ .locking := nofun
      exact .withdrawn hp hrel hat' (by simp [calls_setCall]) (halone.setCall _)
  | ownRelease hc hrel =>
    obtain ⟨-, halone, ⟨-, hat⟩ | ⟨hp, -⟩⟩ := h.of_free hc
    · cases hat
    · exact .ended (.inr hp) (congrArg (· + 1) hrel) halone.quiet

/-- What every timely run keeps. -/
structure Guarded (s : TpHandle ρ m) : Prop where
  phase : s.Phase
  late : s.late = false
  waited : ∀ r ∈ s.waited, s.processed = some r

theorem Guarded.start : (start : TpHandle ρ m).Guarded where
  phase := .early (.inl rfl) rfl (fun _ => rfl) ⟨rfl, rfl, nofun⟩
  late := rfl
  waited := nofun

theorem Guarded.step (h : s.Guarded) (hok : s.Timely act) (hstep : s.step act = some s') :
    s'.Guarded := by
  have hcases := step_cases hstep
  refine ⟨h.phase.step hok hcases, ?_, ?_⟩
  · cases hcases with
    | late hc hrel => exact absurd (h.phase.unreleased hc) hrel.ne'
    | _ => exact h.late
  · cases hcases with
    | process hp =>
      obtain ⟨-, -, hun⟩ := h.phase.of_early (.inr (.inr hp)) hok.1
      intro r hr
      exact nomatch hun.processed.symm.trans (h.waited r hr)
    | read hc hrel =>
      obtain ⟨-, -, ⟨-, hun⟩ | ⟨-, hres⟩⟩ := h.phase.of_call hc rfl
      · exact absurd hc (hun.asleep _)
      · intro r hr
        rcases List.mem_append.mp hr with hr | hr
        · exact h.waited r hr
        · rw [List.mem_singleton.mp hr]
          exact hres
    | _ => exact h.waited

theorem Guarded.sound (h : s.Guarded) : s.Sound where
  late := h.late
  waited := h.waited
  released := by
    cases h.phase with
    | early _ hrel | done _ hrel | freeing _ hrel | withdrawing _ hrel | withdrawn _ hrel
    | ended _ hrel => omega
  once hp hno := by
    cases h.phase with
    | ended _ hrel => exact hrel
    | withdrawing _ _ hc | withdrawn _ _ _ hc => exact absurd hc hno.ne_free
    | early hp' | done hp' | freeing hp' => grind

end Timely

/-! ## Other runs -/

section Late

variable {s s' : TpHandle ρ m} {act : HandleAct ρ m} {t u : Fin m} {c : TpCall}

/-- The worker was released, or a call of `ep_tp_worker_free` is under way. -/
def Freeing (s : TpHandle ρ m) : Prop :=
  0 < s.released ∨ ∃ t at', s.calls t = some (.free at')

theorem Freeing.setCall (h : s.Freeing) {next : Option TpCall}
    (hnext : (∀ at', s.calls t ≠ some (.free at')) ∨ ∃ at', next = some (.free at')) :
    (s.setCall t next).Freeing := by
  refine h.imp_right fun ⟨u, at', hu⟩ => ?_
  by_cases hut : u = t
  · subst hut
    obtain ⟨at'', rfl⟩ := hnext.resolve_left fun hno => hno at' hu
    exact ⟨u, at'', by rw [calls_setCall, if_pos rfl]⟩
  · exact ⟨u, at', by rw [calls_setCall, if_neg hut, hu]⟩

/-- A call of `ep_tp_worker_free` comes to an end only behind a release. -/
theorem Freeing.step (h : s.Freeing) (hstep : HandleStep s act s') : s'.Freeing := by
  cases hstep with
  | call hidle => exact h.setCall (.inl (by simp [hidle]))
  | late hc hrel => exact .inl hrel
  | touch hc | wake hc | read hc => exact h.setCall (.inl (by simp [hc]))
  | withdraw | pass | ownPost => exact h.setCall (.inr ⟨_, rfl⟩)
  | freeRelease | ownRelease => exact .inl (Nat.succ_pos _)
  | _ => exact h

/-- What every run keeps. The assertion of `ep_tp_worker_free` never fails. -/
structure Regular (s : TpHandle ρ m) : Prop where
  idle : s.place = .queued → s.worker.state = .idle
  through : s.place = .through → 0 < s.released
  withdrawn : s.place = .withdrawn → s.Freeing

theorem Regular.start : (start : TpHandle ρ m).Regular := ⟨fun _ => rfl, nofun, nofun⟩

theorem Regular.step (h : s.Regular) (hstep : s.step act = some s') : s'.Regular := by
  have hcases := step_cases hstep
  cases hcases with
  | take | run | process | post | complete | freeLock | freePost | sweep =>
    exact ⟨nofun, nofun, nofun⟩
  | freeRelease => exact ⟨nofun, fun _ => Nat.succ_pos _, nofun⟩
  | withdraw hc => exact ⟨nofun, nofun, fun _ => Freeing.setCall (.inr ⟨_, _, hc⟩) (.inr ⟨_, rfl⟩)⟩
  | ownRelease => exact ⟨h.idle, fun _ => Nat.succ_pos _, fun _ => .inl (Nat.succ_pos _)⟩
  | call | late | touch | wake | read | pass | ownPost =>
    exact ⟨h.idle, h.through, fun hp => (h.withdrawn hp).step (step_cases hstep)⟩

/-- The worker can be released before the call of a thread goes on. -/
def CanRelease (s : TpHandle ρ m) (u : Fin m) : Prop :=
  ∃ s'', Reaches TpHandle.step anyStep s s'' ∧ s''.calls u = s.calls u ∧ 0 < s''.released

theorem CanRelease.of_released (h : 0 < s.released) : s.CanRelease u := ⟨s, .refl, rfl, h⟩

theorem CanRelease.head (h : s'.CanRelease u) (hstep : s.step act = some s')
    (hcalls : s'.calls u = s.calls u) : s.CanRelease u := by
  obtain ⟨s'', hrun, hcall, hrel⟩ := h
  exact ⟨s'', hrun.head trivial hstep, hcall.trans hcalls, hrel⟩

theorem exists_pool_step (s : TpHandle ρ m) (hthrough : s.place ≠ .through)
    (hwithdrawn : s.place ≠ .withdrawn) :
    ∃ s', s.step (.pool none) = some s' ∧ s'.calls = s.calls ∧ s'.place = s.place.next ∧
      (s.place = .freeing .releasing → 0 < s'.released) := by
  have hsome : ∃ s', s.step (.pool none) = some s' := by
    cases hp : s.place with
    | through => exact absurd hp hthrough
    | withdrawn => exact absurd hp hwithdrawn
    | freeing at' => cases at' <;> simp [TpHandle.step, epTpRoutine, hp, epTpWorkerFree]
    | _ => simp [TpHandle.step, epTpRoutine, hp]
  obtain ⟨s', hstep⟩ := hsome
  refine ⟨s', hstep, ?_⟩
  cases step_cases hstep with
  | freeRelease hp => exact ⟨rfl, by rw [hp]; rfl, fun _ => Nat.succ_pos _⟩
  | take hp | run hp | process hp | post hp | complete hp | freeLock hp | freePost hp =>
    exact ⟨rfl, by rw [hp]; rfl, by simp [hp]⟩

/-- A thread that has taken the worker comes to its release. -/
theorem canRelease_of_pool (h : 0 < s.place.ahead) : s.CanRelease u := by
  -- the number of steps that are left goes down with each of them
  induction hk : s.place.ahead using Nat.strong_induction_on generalizing s with
  | _ k ih =>
    obtain ⟨hthrough, hwithdrawn⟩ := TpPlace.ne_of_ahead h
    obtain ⟨s', hstep, hcalls, hplace, hrel⟩ := exists_pool_step s hthrough hwithdrawn
    by_cases hlast : s.place = .freeing .releasing
    · exact .head (.of_released (hrel hlast)) hstep (by rw [hcalls])
    · obtain ⟨hpos, hlt⟩ := TpPlace.ahead_next h hlast
      rw [← hplace] at hpos hlt
      exact .head (ih _ (hk ▸ hlt) hpos rfl) hstep (by rw [hcalls])

/-- A call of another thread goes on, if the worker was not released before. -/
theorem CanRelease.owner {next : Option TpCall}
    (h : (s'.setCall t next).CanRelease u) (hc : s.calls t = some c) (hu : u ≠ t)
    (hstep : s.ownerCall t c = some (s'.setCall t next)) (hcalls : s'.calls = s.calls) :
    s.CanRelease u := by
  by_cases hrel : s.released = 0
  · have howner : s.step (.owner t) = some (s'.setCall t next) := by
      simp [TpHandle.step, hc, hrel, hstep]
    exact h.head howner (by rw [calls_setCall, if_neg hu, hcalls])
  · exact .of_released (Nat.pos_of_ne_zero hrel)

/-- A call of `ep_tp_worker_free` comes to the release. -/
theorem canRelease_of_free (hidle : s.place = .queued → s.worker.state = .idle) {at' : FreeAt}
    (hc : s.calls t = some (.free at')) (hu : u ≠ t) : s.CanRelease u := by
  have hreleasing : ∀ s : TpHandle ρ m, s.calls t = some (.free .releasing) → s.CanRelease u := by
    intro s hc
    refine .owner (.of_released ?_) hc hu rfl rfl
    exact Nat.succ_pos _
  have hposting : ∀ s : TpHandle ρ m, s.calls t = some (.free .posting) → s.CanRelease u :=
    fun s hc => .owner (hreleasing _ (by rw [calls_setCall, if_pos rfl]; rfl)) hc hu rfl rfl
  cases at' with
  | releasing => exact hreleasing s hc
  | posting => exact hposting s hc
  | locking =>
    by_cases hp : s.place = .queued
    · have hstep : s.ownerCall t (.free .locking) =
          some ({ s with place := .withdrawn }.setCall t (some (.free .posting))) := by
        simp [ownerCall, epTpWorkerFree, hp, hidle hp]
      exact .owner (hposting _ (by rw [calls_setCall, if_pos rfl])) hc hu hstep rfl
    · have hstep : s.ownerCall t (.free .locking) =
          some (s.setCall t (some (.free .posting))) := by
        simp [ownerCall, epTpWorkerFree, hp]
      exact .owner (hposting _ (by rw [calls_setCall, if_pos rfl])) hc hu hstep rfl

/-- A call that is under way while the worker is released uses it afterwards. -/
theorem CanRelease.late (h : s.CanRelease u) (hc : s.calls u = some c) :
    ∃ s'', Reaches TpHandle.step anyStep s s'' ∧ ¬ s''.Sound := by
  obtain ⟨s'', hrun, hcalls, hrel⟩ := h
  have hstep : s''.step (.owner u) = some ({ s'' with late := true }.setCall u none) := by
    simp [TpHandle.step, hcalls, hc, hrel]
  exact ⟨_, .tail hrun trivial hstep, fun hsound => nomatch hsound.late⟩

theorem exists_call (h : ¬ s.Quiet) : ∃ u c, s.calls u = some c := by
  obtain ⟨u, hu⟩ := not_forall.mp h
  exact ⟨u, Option.ne_none_iff_exists'.mp hu⟩

theorem exists_free (h : ¬ s.NoFree) : ∃ u at', s.calls u = some (.free at') := by
  obtain ⟨u, hu⟩ := not_forall.mp h
  cases hc : s.calls u with
  | none => exact absurd (by rw [hc]; rfl) hu
  | some c =>
    cases c with
    | free at' => exact ⟨u, at', hc⟩
    | touch | wait | woken => exact absurd (by rw [hc]; rfl) hu

/-- A call that begins while the worker is not in the queue, or while the owner frees it, can
come after the release. -/
theorem Regular.canRelease_call (h : s.Regular) (hidle : s.calls t = none)
    (hout : s.place ≠ .queued ∨ ¬ s.NoFree) (next : Option TpCall) :
    (s.setCall t next).CanRelease t := by
  have hfree : ∀ u at', s.calls u = some (.free at') → (s.setCall t next).CanRelease t := by
    intro u at' hu
    have hut : u ≠ t := by
      rintro rfl
      exact nomatch hidle.symm.trans hu
    exact canRelease_of_free h.idle (by rw [calls_setCall, if_neg hut, hu]) hut.symm
  rcases hout with hq | hbusy
  · cases hp : s.place with
    | queued => exact absurd hp hq
    | through => exact .of_released (h.through hp)
    | withdrawn =>
      obtain hrel | ⟨u, at', hu⟩ := h.withdrawn hp
      · exact .of_released hrel
      · exact hfree u at' hu
    | freeing at' =>
      have hahead : 0 < (s.setCall t next).place.ahead := by
        cases at' <;> simp [TpHandle.setCall, hp, TpPlace.ahead]
      exact canRelease_of_pool hahead
    | _ => exact canRelease_of_pool (by simp [TpHandle.setCall, hp, TpPlace.ahead])
  · obtain ⟨u, at', hu⟩ := exists_free hbusy
    exact hfree u at' hu

/-- Where a step is not timely, a call comes to use the worker after its release. -/
theorem Regular.broken (h : s.Regular) (hstep : s.step act = some s') (hno : ¬ s.Timely act) :
    ∃ s'', Reaches TpHandle.step anyStep s' s'' ∧ ¬ s''.Sound := by
  have hregular := h.step hstep
  cases step_cases hstep with
  | take hp =>
    obtain ⟨u, at', hu⟩ := exists_free fun hfree => hno ⟨fun _ => hfree, by simp [hp]⟩
    refine CanRelease.late (canRelease_of_pool ?_) hu
    exact Nat.succ_pos _
  | complete hp =>
    obtain ⟨u, c, hu⟩ := exists_call fun hquiet => hno ⟨by simp [hp], fun _ => hquiet⟩
    refine CanRelease.late (canRelease_of_pool ?_) hu
    exact Nat.succ_pos _
  | run hp | process hp | post hp | freeLock hp | freePost hp | freeRelease hp =>
    exact absurd ⟨by simp [hp], by simp [hp]⟩ hno
  | sweep hp =>
    obtain ⟨u, c, hu⟩ := exists_call hno
    refine CanRelease.late (canRelease_of_pool ?_) hu
    exact Nat.succ_pos _
  | @call t op hidle =>
    have hc : (s.setCall t (some op.enter)).calls t = some op.enter := by
      rw [calls_setCall, if_pos rfl]
    cases op with
    | touch | wait =>
      by_cases hout : s.place ≠ .queued ∨ ¬ s.NoFree
      · exact (h.canRelease_call hidle hout _).late hc
      · obtain ⟨hp, hfree⟩ := not_or.mp hout
        exact absurd ⟨.inl (not_not.mp hp), not_not.mp hfree⟩ hno
    | free =>
      by_cases hp : s.place = .queued
      · obtain ⟨u, c, hu⟩ := exists_call fun hquiet => hno ⟨hp, hquiet⟩
        have hut : u ≠ t := by
          rintro rfl
          exact nomatch hidle.symm.trans hu
        -- the call that begins releases the worker under the other one
        exact (canRelease_of_free hregular.idle hc hut).late
          (by rw [calls_setCall, if_neg hut, hu])
      · exact (h.canRelease_call hidle (.inl hp) _).late hc
  | _ => exact absurd trivial hno

end Late

/-! ## The pool -/

theorem reaches_next (s : TpHandle ρ m) (k : ℕ) :
    ∃ s', Reaches TpHandle.step HandleAct.OfPool s s' ∧ s'.place = TpPlace.next^[k] s.place := by
  induction k with
  | zero => exact ⟨s, .refl, rfl⟩
  | succ k ih =>
    obtain ⟨s', hrun, hplace⟩ := ih
    rw [Function.iterate_succ_apply', ← hplace]
    by_cases hend : s'.place = .through ∨ s'.place = .withdrawn
    · refine ⟨s', hrun, ?_⟩
      rcases hend with hp | hp <;> rw [hp] <;> rfl
    · obtain ⟨hthrough, hwithdrawn⟩ := not_or.mp hend
      obtain ⟨s'', hstep, -, hnext, -⟩ := exists_pool_step s' hthrough hwithdrawn
      have hpool : HandleAct.OfPool s' (.pool none) := trivial
      exact ⟨s'', .tail hrun hpool hstep, hnext⟩

end TpHandle

section Pool

variable {s s' : TpPool n} {w : TpWorker} {p : TpPlace} {i : Fin n} {at' : TpThread}

/-- Where a thread stands with the worker that it has. -/
def TpThread.place : TpThread → TpPlace
  | .starting _ => .taken
  | .running _ => .running
  | .completing _ => .completing
  | .freeing _ => .freeing .locking
  | .testing | .locking | .waiting | .exited => .through

/-- Where the pool stands with a worker that was registered. -/
inductive TpPool.Stands (s : TpPool n) (w : TpWorker) : TpPlace → Prop
  | queued (hq : w ∈ s.workerQueue) : Stands s w .queued
  | held {i : Fin n} (hw : (s.threads i).worker = some w) : Stands s w (s.threads i).place
  | through (hq : w ∉ s.workerQueue) (ht : ∀ i, (s.threads i).worker ≠ some w) :
      Stands s w .through

theorem TpPool.Stands.moveTo (h : s.Stands w p) (hold : (s.threads i).worker ≠ some w)
    (hnew : at'.worker ≠ some w) : (s.moveTo i at').Stands w p := by
  cases h with
  | queued hq => exact .queued hq
  | @held j hw =>
    have hji : j ≠ i := by
      rintro rfl
      exact hold hw
    have hsame : (s.moveTo i at').threads j = s.threads j := by
      rw [TpPool.threads_moveTo, if_neg hji]
    rw [← hsame]
    exact .held (by rw [hsame, hw])
  | through hq ht =>
    refine .through hq fun j => ?_
    rw [TpPool.threads_moveTo]
    split_ifs
    · exact hnew
    · exact ht j

/-- The worker of a thread is nowhere else. -/
theorem TpPool.Stands.eq_place (h : s.Stands w p) (htidy : s.Tidy)
    (hw : (s.threads i).worker = some w) : p = (s.threads i).place := by
  cases h with
  | queued hq => exact absurd rfl (htidy.apart i w hw w hq)
  | @held j hj =>
    obtain rfl := htidy.alone j i w w hj hw rfl
    rfl
  | through hq ht => exact absurd hw (ht i)

theorem TpPool.stands_moveTo (hw : at'.worker = some w) : (s.moveTo i at').Stands w at'.place := by
  have hsame : (s.moveTo i at').threads i = at' := by rw [TpPool.threads_moveTo, if_pos rfl]
  have hheld := TpPool.Stands.held (s := s.moveTo i at') (i := i) (w := w) (by rw [hsame, hw])
  rwa [hsame] at hheld

/-- One step of the pool is none, one or more of the steps of a worker, or it is swept. -/
inductive TpPlace.Leads (p : TpPlace) : TpPlace → Prop
  | next (k : ℕ) : Leads p (TpPlace.next^[k] p)
  | swept (hp : p = .queued) : Leads p .through

theorem TpPool.Stands.of_queued (h : s.Stands w p) (htidy : s.Tidy) (hq : w ∈ s.workerQueue) :
    p = .queued := by
  cases h with
  | queued => rfl
  | @held i hw => exact absurd rfl (htidy.apart i w hw w hq)
  | through hout => exact absurd hq hout

theorem TpPool.Stands.congr (h : s.Stands w p) (hq : s'.workerQueue = s.workerQueue)
    (ht : s'.threads = s.threads) : s'.Stands w p := by
  cases h with
  | queued hw => exact .queued (hq ▸ hw)
  | @held i hw =>
    rw [← ht] at hw ⊢
    exact .held hw
  | through hout hno => exact .through (hq ▸ hout) (ht ▸ hno)

/-- Another worker is taken out of the queue. -/
theorem TpPool.Stands.dequeue (h : s.Stands w p) {v : TpWorker} {queue : List TpWorker}
    (hq : s.workerQueue = v :: queue) (hne : w ≠ v) :
    ({ s with workerQueue := queue } : TpPool n).Stands w p := by
  cases h with
  | queued hw =>
    rw [hq] at hw
    exact .queued (List.mem_of_ne_of_mem hne hw)
  | @held i hw => exact .held (s := { s with workerQueue := queue }) (i := i) hw
  | through hout hno =>
    rw [hq] at hout
    exact .through (List.not_mem_of_not_mem_cons hout) hno

/-- A thread goes on with the worker that it has. -/
theorem TpPool.Stands.goOn (h : s.Stands w p) (htidy : s.Tidy) {v : TpWorker}
    (hat : (s.threads i).worker = some v) (hat' : at'.worker = some v) (k : ℕ)
    (hk : TpPlace.next^[k] (s.threads i).place = at'.place) :
    ∃ p', (s.moveTo i at').Stands w p' ∧ p.Leads p' := by
  by_cases hv : v = w
  · subst hv
    obtain rfl := h.eq_place htidy hat
    exact ⟨_, TpPool.stands_moveTo hat', hk ▸ .next k⟩
  · refine ⟨p, h.moveTo ?_ ?_, .next 0⟩
    · simpa [hat] using hv
    · simpa [hat'] using hv

theorem TpPool.Stands.scan (h : s.Stands w p) (htidy : s.Tidy)
    (hat : (s.threads i).worker = none) :
    ∃ p', (s.scan i).1.Stands w p' ∧ p.Leads p' := by
  have hnone : (s.threads i).worker ≠ some w := by simp [hat]
  unfold TpPool.scan
  split
  · next v queue hq =>
    by_cases hv : w = v
    · subst hv
      obtain rfl := h.of_queued htidy (by simp [hq])
      exact ⟨.taken, TpPool.stands_moveTo rfl, .next 1⟩
    · exact ⟨p, (h.dequeue hq hv).moveTo hnone (by simpa [TpThread.worker] using Ne.symm hv),
        .next 0⟩
  · refine ⟨p, h.moveTo hnone ?_, .next 0⟩
    split_ifs <;> nofun

theorem TpPool.Stands.free (h : s.Stands w p) (htidy : s.Tidy) {v : TpWorker}
    (hat : s.threads i = .freeing v) :
    ∃ p', (s.epTpWorkerFree i v).Stands w p' ∧ p.Leads p' := by
  have hworker : (s.threads i).worker = some v := by rw [hat]; rfl
  rw [htidy.free_eq hat]
  by_cases hv : v = w
  · subst hv
    obtain rfl := h.eq_place htidy hworker
    refine ⟨.through, .through (fun hq => htidy.apart i v hworker v hq rfl) fun j => ?_, ?_⟩
    · rw [TpPool.threads_moveTo]
      split_ifs with hji
      · nofun
      · exact fun hw => hji (htidy.alone j i v v hw hworker rfl)
    · rw [hat]
      exact .next 3
  · exact ⟨p, h.moveTo (by simpa [hworker] using hv) nofun, .next 0⟩

theorem TpPool.Stands.epTpRoutine (h : s.Stands w p) (htidy : s.Tidy) {new : List TpMark}
    (hstep : s.epTpRoutine i = some (s', new)) : ∃ p', s'.Stands w p' ∧ p.Leads p' := by
  unfold TpPool.epTpRoutine at hstep
  split at hstep
  · next hat =>
    obtain ⟨rfl, -⟩ := Prod.mk.inj (Option.some.inj hstep)
    refine ⟨p, h.moveTo (by simp [hat, TpThread.worker]) ?_, .next 0⟩
    split_ifs <;> nofun
  · next hat =>
    have hscan := h.scan (i := i) htidy (by rw [hat]; rfl)
    rwa [Option.some.inj hstep] at hscan
  · next hat =>
    have hscan := h.scan (i := i) htidy (by rw [hat]; rfl)
    rwa [Option.some.inj hstep] at hscan
  · next v hat =>
    obtain ⟨rfl, -⟩ := Prod.mk.inj (Option.some.inj hstep)
    exact h.goOn htidy (by rw [hat]; rfl) rfl 1 (by rw [hat]; rfl)
  · next v hat =>
    obtain ⟨rfl, -⟩ := Prod.mk.inj (Option.some.inj hstep)
    exact h.goOn htidy (by rw [hat]; rfl) rfl 2 (by rw [hat]; rfl)
  · next v hat =>
    obtain ⟨rfl, -⟩ := Prod.mk.inj (Option.some.inj hstep)
    exact h.goOn htidy (by rw [hat]; rfl) rfl 1 (by rw [hat]; rfl)
  · next v hat =>
    obtain ⟨rfl, -⟩ := Prod.mk.inj (Option.some.inj hstep)
    exact h.free htidy hat
  · cases hstep

theorem TpPool.Stands.epTpDestroy (h : s.Stands w p) (htidy : s.Tidy) {type : TpKill}
    {new : List TpMark} (hstep : s.epTpDestroy type = some (s', new)) :
    ∃ p', s'.Stands w p' ∧ p.Leads p' := by
  have hsame : ∀ s' : TpPool n, s'.workerQueue = s.workerQueue → s'.threads = s.threads →
      ∃ p', s'.Stands w p' ∧ p.Leads p' := fun s' hq ht => ⟨p, h.congr hq ht, .next 0⟩
  cases hd : s.destroyer with
  | sweeping =>
    simp only [TpPool.epTpDestroy, hd] at hstep
    split at hstep
    · next v queue hq =>
      obtain ⟨rfl, -⟩ := Prod.mk.inj (Option.some.inj hstep)
      by_cases hv : w = v
      · subst hv
        have hw : w ∈ s.workerQueue := by simp [hq]
        obtain rfl := h.of_queued htidy hw
        have hnodup := htidy.queued
        rw [hq, List.map_cons, List.nodup_cons] at hnodup
        refine ⟨.through, .through (fun hin => hnodup.1 (List.mem_map_of_mem hin)) fun i hi => ?_,
          .swept rfl⟩
        exact htidy.apart i w hi w hw rfl
      · exact ⟨p, (h.dequeue hq hv).congr rfl rfl, .next 0⟩
    · obtain ⟨rfl, -⟩ := Prod.mk.inj (Option.some.inj hstep)
      exact hsame _ rfl rfl
  | returned => simp [TpPool.epTpDestroy, hd] at hstep
  | joining index =>
    simp only [TpPool.epTpDestroy, hd] at hstep
    split_ifs at hstep <;> cases hstep <;> exact hsame _ rfl rfl
  | idle | polling | locking =>
    simp only [TpPool.epTpDestroy, hd] at hstep
    first
    | cases hstep; exact hsame _ rfl rfl
    | split at hstep <;> cases hstep <;> exact hsame _ rfl rfl

/-- What a step of the pool does with a worker are steps of its handle. -/
theorem TpPool.Stands.step (h : s.Stands w p) (htidy : s.Tidy) (hid : w.id < s.fresh)
    {act : TpAct n} {new : List TpMark} (hstep : s.step act = some (s', new)) :
    ∃ p', s'.Stands w p' ∧ p.Leads p' := by
  unfold TpPool.step at hstep
  split_ifs at hstep
  cases act with
  | check =>
    obtain ⟨rfl, -⟩ := Prod.mk.inj (Option.some.inj hstep)
    unfold TpPool.registerCheck
    refine ⟨p, ?_, .next 0⟩
    split_ifs
    · exact h
    · exact h.congr rfl rfl
  | insert addr =>
    simp only [TpPool.registerInsert] at hstep
    split_ifs at hstep
    obtain ⟨rfl, -⟩ := Prod.mk.inj (Option.some.inj hstep)
    refine ⟨p, ?_, .next 0⟩
    cases h with
    | queued hq => exact .queued (List.mem_append_left _ hq)
    | held hw => exact .held hw
    | through hq ht =>
      refine .through (fun hin => ?_) ht
      rcases List.mem_append.mp hin with hin | hin
      · exact hq hin
      · rw [List.mem_singleton.mp hin] at hid
        exact lt_irrefl _ hid
  | thread i => exact h.epTpRoutine htidy hstep
  | destroy type => exact h.epTpDestroy htidy hstep

theorem TpStep.fresh_le {new : List TpMark} (h : TpStep s s' new) : s.fresh ≤ s'.fresh := by
  cases h with
  | insert => exact Nat.le_succ _
  | _ => exact le_rfl

/-- Along the steps of the pool a handle goes where its worker does. -/
theorem TpHandle.exists_leads (h : TpHandle ρ m) {p' : TpPlace} (hleads : h.place.Leads p') :
    ∃ h', Reaches TpHandle.step HandleAct.OfPool h h' ∧ h'.place = p' := by
  cases hleads with
  | next k => exact h.reaches_next k
  | swept hp =>
    have hstep : h.step .sweep = some { h with place := .freeing .posting } := by
      simp [TpHandle.step, TpHandle.sweep, hp]
    have hpool : HandleAct.OfPool h .sweep := trivial
    obtain ⟨h', hrun, hplace⟩ := TpHandle.reaches_next { h with place := .freeing .posting } 2
    exact ⟨h', hrun.head hpool hstep, hplace⟩

/-- From the registration of a worker on, every run of the pool is a run of its handle. -/
theorem TpPool.stands_reaches {marks marks' new : List TpMark} {addr : ℕ} {s₀ : TpPool n}
    (hbefore : Reaches (traced TpPool.step) anyStep (TpPool.start n, []) (s, marks))
    (hinsert : s.step (.insert addr) = some (s₀, new))
    (hrun : Reaches (traced TpPool.step) anyStep (s₀, marks ++ new) (s', marks')) :
    ∃ h : TpHandle ρ m, Reaches TpHandle.step HandleAct.OfPool .start h ∧
      s'.Stands ⟨addr, s.fresh⟩ h.place := by
  have hsound := ((TpPool.Sound.start n).reaches hbefore).step (TpPool.step_cases hinsert)
  have hqueued : ⟨addr, s.fresh⟩ ∈ s₀.workerQueue ∧ s.fresh < s₀.fresh := by
    simp only [TpPool.step, TpPool.registerInsert] at hinsert
    split_ifs at hinsert
    obtain ⟨rfl, -⟩ := Prod.mk.inj (Option.some.inj hinsert)
    simp
  have hinit : s₀.Sound (marks ++ new) ∧ s.fresh < s₀.fresh ∧
      ∃ h : TpHandle ρ m, Reaches TpHandle.step HandleAct.OfPool .start h ∧
        s₀.Stands ⟨addr, s.fresh⟩ h.place :=
    ⟨hsound, hqueued.2, .start, .refl, .queued hqueued.1⟩
  refine (hrun.invariant (P := fun r => r.1.Sound r.2 ∧ s.fresh < r.1.fresh ∧
    ∃ h : TpHandle ρ m, Reaches TpHandle.step HandleAct.OfPool .start h ∧
      r.1.Stands ⟨addr, s.fresh⟩ h.place) hinit ?_).2.2
  rintro ⟨s₁, w₁⟩ e ⟨s₂, w₂⟩ ⟨hsound, hid, h, hreach, hstands⟩ - hstep
  obtain ⟨new', hreport, rfl⟩ := traced_eq_some.mp hstep
  have hcases := TpPool.step_cases hreport
  obtain ⟨p', hstands', hleads⟩ := hstands.step hsound.tidy hid hreport
  obtain ⟨h', hreach', rfl⟩ := h.exists_leads hleads
  exact ⟨hsound.step hcases, hid.trans_le hcases.fresh_le, h', hreach.trans hreach', hstands'⟩

end Pool

/-- Over every interleaving of the pool with any number of threads of the owner: where every
step is timely, no call uses the worker after its release, every wait returns what `process_cb`
has returned and the worker is released once, and every run with a step that is not timely goes
on to one where that fails. -/
theorem epTpWorker_sound :
    (∀ s : TpHandle ρ m, Reaches TpHandle.step TpHandle.Timely .start s → s.Sound) ∧
    (∀ (s : TpHandle ρ m) act s', Reaches TpHandle.step anyStep .start s →
      s.step act = some s' → ¬ s.Timely act →
        ∃ s'', Reaches TpHandle.step anyStep s' s'' ∧ ¬ s''.Sound) := by
  constructor
  · intro s hrun
    exact (hrun.invariant TpHandle.Guarded.start fun h hok hstep => h.step hok hstep).sound
  · intro s act s' hrun hstep hno
    have hregular := hrun.invariant TpHandle.Regular.start fun h _ hstep => h.step hstep
    exact hregular.broken hstep hno

/-- The owner touches the worker, waits for it and is through before the thread comes back from
`complete_cb`. -/
theorem epTpWorker_sound_waited :
    ∃ s : TpHandle ℕ 1, Reaches TpHandle.step TpHandle.Timely .start s ∧ s.waited = [some 7] ∧
      s.released = 1 ∧ s.Sound := by
  have hrun : Reaches TpHandle.step TpHandle.Timely (.start : TpHandle ℕ 1) _ := reaches_of_exec
    [.pool none, .call 0 .touch, .owner 0, .call 0 .wait, .pool none, .pool (some 7), .pool none,
      .owner 0, .owner 0, .pool none, .pool none, .pool none, .pool none] rfl
  exact ⟨_, hrun, rfl, rfl, epTpWorker_sound.1 _ hrun⟩

/-- A call that comes behind the release, a wait that a thread of the owner ends by freeing the
worker, and a worker that both sides release. -/
theorem epTpWorker_late :
    (∃ s : TpHandle ℕ 1, Reaches TpHandle.step anyStep .start s ∧ s.late = true ∧ ¬ s.Sound) ∧
    (∃ s : TpHandle ℕ 2, Reaches TpHandle.step anyStep .start s ∧ s.processed = none ∧
      s.waited = [none] ∧ ¬ s.Sound) ∧
    ∃ s : TpHandle ℕ 1, Reaches TpHandle.step anyStep .start s ∧ s.released = 2 ∧ ¬ s.Sound := by
  refine ⟨⟨_, reaches_of_exec [.pool none, .pool none, .pool (some 7), .pool none, .pool none,
    .pool none, .call 0 .touch, .pool none, .pool none, .owner 0] rfl, rfl, ?_⟩,
    ⟨_, reaches_of_exec [.call 0 .wait, .call 1 .free, .owner 1, .owner 1, .owner 0, .owner 0] rfl,
      rfl, rfl, ?_⟩,
    ⟨_, reaches_of_exec [.pool none, .call 0 .free, .owner 0, .owner 0, .owner 0, .pool none,
      .pool (some 7), .pool none, .pool none, .pool none, .pool none, .pool none] rfl, rfl, ?_⟩⟩
  · exact fun hsound => nomatch hsound.late
  · exact fun hsound => nomatch hsound.waited none List.mem_cons_self
  · exact fun hsound => absurd hsound.released (by decide)

end Youmenu.Eventpack
