import Youmenu.Eventpack.Queue
import Youmenu.Eventpack.Request

/-!
# A request from `ep_req_new` to `ep_req_destroy`

While its category is in the dispatch table a request gets every frame of the category, with
or without a body, whatever was asked. The thread that made the request waits any number of
times and destroys it in the end; `ep_req_destroy` takes the entry out of the table only
while the client is connected, and then looks for one frame.

The queue of a request is stopped by nobody but `ep_queue_destroy`.

## Main definitions

* `epReqWaitEnter`, `epReqWaitWake` — `ep_req_wait` before and after it waits.
* `ReqLife.step` — frames, waits and the stretches of `ep_req_destroy`, in any order.
* `ReqLife.Honoured` — what `ep_req_wait` promises, for its last call.
* `ReqLife.Clean` — what `ep_req_destroy` is to leave behind.
-/

namespace Youmenu.Eventpack

open Transition

variable {Pack : Type*}

/-! ## The source -/

/-- What `ep_queue_get` on the queue of a request returns to `ep_req_wait`: the code and
`*pack`, or a wait. The pointer that is compared with `NULL` is that of the caller. -/
def EpReq.afterGet (h : EpReq (Option Pack)) :
    EpQueue (Option Pack) × GetEnd (Option Pack) → EpReq (Option Pack) × Option (ℕ × Option Pack)
  | (q, .ret code body) =>
    ({ h with packQueue := q.queue }, some (if code = 1 then 1 else 0, body.join))
  | (q, .wait) => ({ h with packQueue := q.queue }, none)

def EpReq.queue (h : EpReq (Option Pack)) : EpQueue (Option Pack) := ⟨h.packQueue, false⟩

/-- `ep_req_wait` up to its return or its wait. -/
def epReqWaitEnter (h : EpReq (Option Pack)) (timeout : ℤ) :
    EpReq (Option Pack) × Option (ℕ × Option Pack) :=
  if h.req = .post then (h, some (2, none)) else h.afterGet (epQueueGetEnter h.queue timeout)

/-- From the end of the wait. -/
def epReqWaitWake (h : EpReq (Option Pack)) (waitR : ℤ) :
    EpReq (Option Pack) × Option (ℕ × Option Pack) :=
  h.afterGet (epQueueGetWake h.queue waitR)

/-- The frame that `ep_req_destroy` finds in the queue. -/
def epReqDrain (h : EpReq (Option Pack)) : EpReq (Option Pack) × Option (Option Pack) :=
  match epQueueGetEnter h.queue 0 with
  | (q, .ret code body) => ({ h with packQueue := q.queue }, if code = 1 then body else none)
  | (q, .wait) => ({ h with packQueue := q.queue }, none)

/-- The dispatcher puts a frame into the queue. -/
def EpReq.push (h : EpReq Pack) (pack : Pack) : EpReq Pack :=
  { h with packQueue := h.packQueue ++ [pack] }

/-! ## A request and its owner -/

/-- Where the thread that made the request stands. -/
inductive ReqOwner where
  | free
  /-- In the wait of `ep_queue_get`. -/
  | waiting
  /-- In `ep_req_destroy`, behind `ep_disp_del`. -/
  | deleted
  /-- In `ep_req_destroy`, behind `ep_queue_get`. -/
  | drained
  | destroyed
  /-- An assertion of `ep_req_destroy` or `ep_queue_destroy` has failed. -/
  | aborted
deriving DecidableEq

/-- A call of `ep_req_wait`. It is answered if a frame with a body was in the queue when it
was made, or was queued since and before the timeout was reached. -/
structure WaitCall (Pack : Type*) where
  timeout : ℤ
  expired : Bool
  answered : Bool
  result : Option (ℕ × Option Pack)

/-- `registered` says that the table has the entry of the request. The frames that were
queued, that were returned and that were destroyed are kept, and the last call. -/
structure ReqLife (Pack : Type*) where
  type : ReqType
  handle : EpReq (Option Pack)
  registered : Bool
  connected : Bool
  owner : ReqOwner
  call : Option (WaitCall Pack)
  delivered : List (Option Pack)
  taken : List (Option Pack)
  released : List Pack

inductive ReqEvent (Pack : Type*) where
  /-- A frame of the category is dispatched. -/
  | deliver (pack : Option Pack)
  | wait (timeout : ℤ)
  /-- The timeout of the last call is reached. -/
  | expire
  /-- The wait ends with the value of the library function. -/
  | wake (waitR : ℤ)
  | disconnect
  | destroy
  | drain
  | close

namespace ReqLife

/-- A request of the type, as `ep_req_new` has left it. -/
def start (type : ReqType) (handle : EpReq (Option Pack)) : ReqLife Pack :=
  ⟨type, handle, true, true, .free, none, [], [], []⟩

variable (s : ReqLife Pack)

/-- The thread goes on with what a stretch of `ep_req_wait` ended in. -/
def returned (call : WaitCall Pack) :
    EpReq (Option Pack) × Option (ℕ × Option Pack) → ReqLife Pack
  | (h, none) => { s with handle := h, owner := .waiting, call := some call }
  | (h, some (code, pack)) =>
    { s with
      handle := h
      owner := .free
      call := some { call with result := some (code, pack) }
      taken := s.taken ++ if code = 1 then [pack] else [] }

/-- A library wait reports a timeout only when it was reached. The handle is no more once it
is destroyed. -/
def step : ReqEvent Pack → Option (ReqLife Pack)
  | .deliver pack =>
    if s.registered ∧ s.owner ≠ .destroyed ∧ s.owner ≠ .aborted then
      some { s with
        handle := s.handle.push pack
        call := s.call.map fun c =>
          { c with answered := c.answered || (!c.expired && pack.isSome) }
        delivered := s.delivered ++ [pack] }
    else none
  | .wait timeout =>
    if s.owner = .free then
      some (s.returned ⟨timeout, timeout = 0, s.handle.packQueue.any (·.isSome), none⟩
        (epReqWaitEnter s.handle timeout))
    else none
  | .expire =>
    match s.call with
    | none => none
    | some c =>
      if 0 < c.timeout then some { s with call := some { c with expired := true } } else none
  | .wake waitR =>
    match s.call with
    | none => none
    | some c =>
      if s.owner = .waiting ∧ (waitR ≠ 0 → c.expired = true) then
        some (s.returned c (epReqWaitWake s.handle waitR))
      else none
  | .disconnect => some { s with connected := false }
  | .destroy =>
    if s.owner = .free then
      some { s with registered := s.registered && !s.connected, owner := .deleted }
    else none
  | .drain =>
    if s.owner = .deleted then
      match epReqDrain s.handle with
      | (h, none) => some { s with handle := h, owner := .drained }
      | (h, some none) => some { s with handle := h, owner := .aborted }
      | (h, some (some pack)) =>
        some { s with handle := h, owner := .drained, released := s.released ++ [pack] }
    else none
  | .close =>
    if s.owner = .drained then
      some { s with owner := if s.handle.packQueue = [] then .destroyed else .aborted }
    else none

/-- What `ep_req_wait` promises: a post is not waited for, a response has a body, and there is
no response if none with a body was queued before the timeout. -/
structure Honoured : Prop where
  post : s.type = .post →
    s.owner ≠ .waiting ∧ ∀ c ∈ s.call, ∀ code pack, c.result = some (code, pack) → code = 2
  get : s.type = .get → ∀ c ∈ s.call, ∀ code pack, c.result = some (code, pack) →
    code = 1 ∧ pack.isSome ∨ code = 0 ∧ pack = none ∧ c.answered = false

/-- No assertion of `ep_req_destroy` and `ep_queue_destroy` fails, and every frame that was
queued was returned or is destroyed. -/
structure Clean : Prop where
  holds : s.owner ≠ .aborted
  released : s.owner = .destroyed → s.delivered = s.taken ++ s.released.map some

/-- The request is no post, the first frame of the queue has a body, and a wait does not end
without a frame before its timeout is reached. -/
def Answers : ReqEvent Pack → Prop
  | .wait _ => s.type = .get ∧ s.handle.packQueue.head?.all (·.isSome) = true
  | .wake _ => s.handle.packQueue.head?.all (·.isSome) = true ∧
      (s.handle.packQueue = [] → s.call.all (·.expired) = true)
  | _ => True

/-- At most one frame is left when the request is destroyed, it has a body, and no other is
dispatched before the queue is destroyed. -/
def Drains : ReqEvent Pack → Prop
  | .deliver _ => s.owner ≠ .drained
  | .drain => s.handle.packQueue.length ≤ 1 ∧ s.handle.packQueue.all (·.isSome) = true
  | _ => True

instance : DecidablePred s.Answers
  | .wait _ => inferInstanceAs (Decidable (_ ∧ _))
  | .wake _ => inferInstanceAs (Decidable (_ ∧ (_ → _)))
  | .deliver _ | .expire | .disconnect | .destroy | .drain | .close => .isTrue trivial

instance : DecidablePred s.Drains
  | .deliver _ => inferInstanceAs (Decidable (_ ≠ _))
  | .drain => inferInstanceAs (Decidable (_ ∧ _))
  | .wait _ | .expire | .wake _ | .disconnect | .destroy | .close => .isTrue trivial

end ReqLife

/-! ## The stretches -/

section Stretches

variable {h : EpReq (Option Pack)}

theorem epReqDefaultDispatcher_eq (handles : List (EpReq Pack)) (id : ℕ) (pack : Pack) :
    epReqDefaultDispatcher handles id pack =
      handles.map fun h => if h.id = id then h.push pack else h := rfl

theorem epReqWaitEnter_cons {body : Option Pack} {rest : List (Option Pack)} (hreq : h.req = .get)
    (hq : h.packQueue = body :: rest) (timeout : ℤ) :
    epReqWaitEnter h timeout = ({ h with packQueue := rest }, some (1, body)) := by
  simp [epReqWaitEnter, hreq, EpReq.queue, epQueueGetEnter, hq, EpReq.afterGet]

theorem epReqWaitEnter_nil (hreq : h.req = .get) (hq : h.packQueue = []) (timeout : ℤ) :
    epReqWaitEnter h timeout = (h, if timeout = 0 then some (0, none) else none) := by
  obtain ⟨id, category, req, packQueue⟩ := h
  obtain rfl : req = .get := hreq
  obtain rfl : packQueue = [] := hq
  by_cases htimeout : timeout = 0 <;>
    simp [epReqWaitEnter, EpReq.queue, epQueueGetEnter, htimeout, EpReq.afterGet]

theorem epReqWaitWake_cons {body : Option Pack} {rest : List (Option Pack)}
    (hq : h.packQueue = body :: rest) (waitR : ℤ) :
    epReqWaitWake h waitR = ({ h with packQueue := rest }, some (1, body)) := by
  simp [epReqWaitWake, EpReq.queue, epQueueGetWake, hq, EpReq.afterGet]

/-- A wait that ends without a frame, for whatever reason, is a timeout to the caller. -/
theorem epReqWaitWake_nil (hq : h.packQueue = []) (waitR : ℤ) :
    epReqWaitWake h waitR = (h, some (0, none)) := by
  have hsame : { h with packQueue := [] } = h := by rw [← hq]
  by_cases hwait : waitR = 0 <;>
    simp [epReqWaitWake, EpReq.queue, epQueueGetWake, hq, hwait, EpReq.afterGet, hsame]

theorem epReqDrain_cons {body : Option Pack} {rest : List (Option Pack)}
    (hq : h.packQueue = body :: rest) :
    epReqDrain h = ({ h with packQueue := rest }, some body) := by
  simp [epReqDrain, EpReq.queue, epQueueGetEnter, hq]

theorem epReqDrain_nil (hq : h.packQueue = []) : epReqDrain h = (h, none) := by
  have hsame : { h with packQueue := [] } = h := by rw [← hq]
  simp [epReqDrain, EpReq.queue, epQueueGetEnter, hq, hsame]

end Stretches

/-! ## Steps -/

namespace ReqLife

/-- The record of a call that is made now. -/
def newCall (s : ReqLife Pack) (timeout : ℤ) : WaitCall Pack :=
  ⟨timeout, timeout = 0, s.handle.packQueue.any (·.isSome), none⟩

/-- A call ends with the first frame of the queue. -/
def took (s : ReqLife Pack) (c : WaitCall Pack) (body : Option Pack) (rest : List (Option Pack)) :
    ReqLife Pack :=
  { s with
    handle := { s.handle with packQueue := rest }
    owner := .free
    call := some { c with result := some (1, body) }
    taken := s.taken ++ [body] }

/-- A call ends without a frame. -/
def gaveUp (s : ReqLife Pack) (c : WaitCall Pack) : ReqLife Pack :=
  { s with owner := .free, call := some { c with result := some (0, none) } }

/-- What a step of a request can do. A call of `ep_req_wait` ends at once or after a wait. -/
inductive ReqStep (s : ReqLife Pack) : ReqEvent Pack → ReqLife Pack → Prop
  | deliver {pack : Option Pack} (hreg : s.registered = true) (hdes : s.owner ≠ .destroyed)
      (habort : s.owner ≠ .aborted) :
      ReqStep s (.deliver pack) { s with
        handle := s.handle.push pack
        call := s.call.map fun c =>
          { c with answered := c.answered || (!c.expired && pack.isSome) }
        delivered := s.delivered ++ [pack] }
  | waitTake {timeout : ℤ} {body : Option Pack} {rest : List (Option Pack)}
      (hfree : s.owner = .free) (hq : s.handle.packQueue = body :: rest) :
      ReqStep s (.wait timeout) (s.took (s.newCall timeout) body rest)
  | waitNone (hfree : s.owner = .free) (hq : s.handle.packQueue = []) :
      ReqStep s (.wait 0) (s.gaveUp (s.newCall 0))
  | block {timeout : ℤ} (hfree : s.owner = .free) (hq : s.handle.packQueue = [])
      (htimeout : timeout ≠ 0) :
      ReqStep s (.wait timeout) { s with owner := .waiting, call := some (s.newCall timeout) }
  | expire {c : WaitCall Pack} (hcall : s.call = some c) (htimeout : 0 < c.timeout) :
      ReqStep s .expire { s with call := some { c with expired := true } }
  | wakeTake {waitR : ℤ} {c : WaitCall Pack} {body : Option Pack} {rest : List (Option Pack)}
      (hwait : s.owner = .waiting) (hcall : s.call = some c)
      (hq : s.handle.packQueue = body :: rest) : ReqStep s (.wake waitR) (s.took c body rest)
  | wakeNone {waitR : ℤ} {c : WaitCall Pack} (hwait : s.owner = .waiting) (hcall : s.call = some c)
      (hq : s.handle.packQueue = []) : ReqStep s (.wake waitR) (s.gaveUp c)
  | disconnect : ReqStep s .disconnect { s with connected := false }
  | destroy (hfree : s.owner = .free) :
      ReqStep s .destroy { s with registered := s.registered && !s.connected, owner := .deleted }
  | drainNone (hdel : s.owner = .deleted) (hq : s.handle.packQueue = []) :
      ReqStep s .drain { s with owner := .drained }
  | drainNull {rest : List (Option Pack)} (hdel : s.owner = .deleted)
      (hq : s.handle.packQueue = none :: rest) :
      ReqStep s .drain
        { s with handle := { s.handle with packQueue := rest }, owner := .aborted }
  | drainPack {pack : Pack} {rest : List (Option Pack)} (hdel : s.owner = .deleted)
      (hq : s.handle.packQueue = some pack :: rest) :
      ReqStep s .drain { s with
        handle := { s.handle with packQueue := rest }
        owner := .drained
        released := s.released ++ [pack] }
  | closeEmpty (hdr : s.owner = .drained) (hq : s.handle.packQueue = []) :
      ReqStep s .close { s with owner := .destroyed }
  | closeFull (hdr : s.owner = .drained) (hq : s.handle.packQueue ≠ []) :
      ReqStep s .close { s with owner := .aborted }

variable {s s' : ReqLife Pack} {e : ReqEvent Pack}

theorem step_cases (hreq : s.handle.req = .get) (h : s.step e = some s') : ReqStep s e s' := by
  cases e with
  | deliver pack =>
    simp only [step] at h
    split_ifs at h with hlive
    obtain rfl := Option.some.inj h
    exact .deliver hlive.1 hlive.2.1 hlive.2.2
  | wait timeout =>
    simp only [step] at h
    split_ifs at h with hfree
    obtain rfl := Option.some.inj h
    cases hq : s.handle.packQueue with
    | cons body rest =>
      rw [epReqWaitEnter_cons hreq hq, ← hq]
      exact .waitTake hfree hq
    | nil =>
      rw [epReqWaitEnter_nil hreq hq, ← hq]
      by_cases htimeout : timeout = 0
      · subst htimeout
        simp only [if_true, returned, zero_ne_one, if_false, List.append_nil]
        exact .waitNone hfree hq
      · rw [if_neg htimeout]
        exact .block hfree hq htimeout
  | expire =>
    simp only [step] at h
    split at h
    · cases h
    · next c hcall =>
      split_ifs at h with htimeout
      obtain rfl := Option.some.inj h
      exact .expire hcall htimeout
  | wake waitR =>
    simp only [step] at h
    split at h
    · cases h
    · next c hcall =>
      split_ifs at h with hwait
      obtain rfl := Option.some.inj h
      cases hq : s.handle.packQueue with
      | cons body rest =>
        rw [epReqWaitWake_cons hq]
        exact .wakeTake hwait.1 hcall hq
      | nil =>
        rw [epReqWaitWake_nil hq]
        simp only [returned, zero_ne_one, if_false, List.append_nil]
        exact .wakeNone hwait.1 hcall hq
  | disconnect =>
    obtain rfl := Option.some.inj h
    exact .disconnect
  | destroy =>
    simp only [step] at h
    split_ifs at h with hfree
    obtain rfl := Option.some.inj h
    exact .destroy hfree
  | drain =>
    simp only [step] at h
    split_ifs at h with hdel
    cases hq : s.handle.packQueue with
    | nil =>
      rw [epReqDrain_nil hq] at h
      obtain rfl := Option.some.inj h
      exact .drainNone hdel hq
    | cons body rest =>
      rw [epReqDrain_cons hq] at h
      cases body with
      | none =>
        obtain rfl := Option.some.inj h
        exact .drainNull hdel hq
      | some pack =>
        obtain rfl := Option.some.inj h
        exact .drainPack hdel hq
  | close =>
    simp only [step] at h
    split_ifs at h with hdr hq
    · obtain rfl := Option.some.inj h
      exact .closeEmpty hdr hq
    · obtain rfl := Option.some.inj h
      exact .closeFull hdr hq

/-! ## What every run keeps -/

/-- The frames of the queue are those that nobody took, and the call of a thread that waits is
not answered by anything else. -/
structure Kept (s : ReqLife Pack) : Prop where
  req : s.handle.req = .get
  registered : s.owner = .free ∨ s.owner = .waiting → s.registered = true
  call : s.owner = .waiting → ∃ c, s.call = some c ∧ c.result = none
  answered : s.owner = .waiting → ∀ c, s.call = some c → c.answered = true →
    s.handle.packQueue.any (·.isSome) = true
  conserved : s.owner ≠ .aborted →
    s.delivered = s.taken ++ (s.released.map some ++ s.handle.packQueue)
  unreleased : s.owner = .free ∨ s.owner = .waiting ∨ s.owner = .deleted → s.released = []

theorem Kept.start (type : ReqType) {handle : EpReq (Option Pack)} (hreq : handle.req = .get)
    (hq : handle.packQueue = []) : Kept (start type handle) :=
  ⟨hreq, fun _ => rfl, (nomatch ·), (nomatch ·), fun _ => hq.symm, fun _ => rfl⟩

/-- Behind `ep_queue_get`. -/
def Past : ReqOwner → Prop
  | .drained | .destroyed | .aborted => True
  | .free | .waiting | .deleted => False

theorem not_past {owner : ReqOwner} (h : owner = .free ∨ owner = .waiting ∨ owner = .deleted) :
    ¬ Past owner := by
  rcases h with rfl | rfl | rfl <;> exact id

theorem Kept.of_past (hreq : s.handle.req = .get) (hpast : Past s.owner)
    (hcons : s.owner ≠ .aborted →
      s.delivered = s.taken ++ (s.released.map some ++ s.handle.packQueue)) : Kept s where
  req := hreq
  registered hw := absurd hpast (not_past (hw.imp_right .inl))
  call hw := absurd hpast (not_past (.inr (.inl hw)))
  answered hw := absurd hpast (not_past (.inr (.inl hw)))
  conserved := hcons
  unreleased hw := absurd hpast (not_past hw)

theorem Kept.took (h : Kept s) {c : WaitCall Pack} {body : Option Pack} {rest : List (Option Pack)}
    (howner : s.owner = .free ∨ s.owner = .waiting) (hq : s.handle.packQueue = body :: rest) :
    Kept (s.took c body rest) where
  req := h.req
  registered _ := h.registered howner
  call hw := nomatch hw
  answered hw := nomatch hw
  conserved _ := by
    have hrel := h.unreleased (howner.imp_right .inl)
    have hcons := h.conserved (by rintro heq; rw [heq] at howner; simp at howner)
    simpa [ReqLife.took, hq, hrel] using hcons
  unreleased _ := h.unreleased (howner.imp_right .inl)

theorem Kept.gaveUp (h : Kept s) {c : WaitCall Pack}
    (howner : s.owner = .free ∨ s.owner = .waiting) : Kept (s.gaveUp c) where
  req := h.req
  registered _ := h.registered howner
  call hw := nomatch hw
  answered hw := nomatch hw
  conserved _ := h.conserved (by rintro heq; rw [heq] at howner; simp at howner)
  unreleased _ := h.unreleased (howner.imp_right .inl)

theorem Kept.step (h : Kept s) (hstep : s.step e = some s') : Kept s' := by
  cases step_cases h.req hstep with
  | @deliver pack hreg hdes habort =>
    refine ⟨h.req, h.registered, fun hw => ?_, fun hw c hc hans => ?_, fun _ => ?_, h.unreleased⟩
    · obtain ⟨c, hc, hnone⟩ := h.call hw
      exact ⟨_, Option.map_eq_some_iff.mpr ⟨c, hc, rfl⟩, hnone⟩
    · obtain ⟨c₀, hc₀, rfl⟩ := Option.map_eq_some_iff.mp hc
      simp only [EpReq.push, List.any_append, Bool.or_eq_true]
      rcases Bool.or_eq_true _ _ ▸ hans with hold | hnew
      · exact .inl (h.answered hw c₀ hc₀ hold)
      · simp only [Bool.and_eq_true] at hnew
        exact .inr (by simpa using hnew.2)
    · simp only [EpReq.push, h.conserved habort, List.append_assoc]
  | waitTake hfree hq => exact h.took (.inl hfree) hq
  | waitNone hfree hq => exact h.gaveUp (.inl hfree)
  | @block timeout hfree hq htimeout =>
    refine ⟨h.req, fun _ => h.registered (.inl hfree), fun _ => ⟨_, rfl, rfl⟩, fun _ c hc hans => ?_,
      fun _ => h.conserved (by rw [hfree]; decide), fun _ => h.unreleased (.inl hfree)⟩
    obtain rfl := Option.some.inj hc
    exact hans
  | expire hcall htimeout =>
    refine ⟨h.req, h.registered, fun hw => ?_, fun hw c hc hans => ?_, h.conserved, h.unreleased⟩
    · obtain ⟨c, hc, hnone⟩ := h.call hw
      obtain rfl := Option.some.inj (hcall.symm.trans hc)
      exact ⟨_, rfl, hnone⟩
    · obtain rfl := Option.some.inj hc
      exact h.answered hw _ hcall hans
  | wakeTake hwait hcall hq => exact h.took (.inr hwait) hq
  | wakeNone hwait hcall hq => exact h.gaveUp (.inr hwait)
  | disconnect => exact ⟨h.req, h.registered, h.call, h.answered, h.conserved, h.unreleased⟩
  | destroy hfree =>
    exact ⟨h.req, fun hw => hw.elim (nomatch ·) (nomatch ·), (nomatch ·), (nomatch ·),
      fun _ => h.conserved (by rw [hfree]; decide), fun _ => h.unreleased (.inl hfree)⟩
  | drainNone hdel hq =>
    exact .of_past h.req trivial fun _ => h.conserved (by rw [hdel]; decide)
  | drainNull hdel hq => exact .of_past h.req trivial fun hno => absurd rfl hno
  | @drainPack pack rest hdel hq =>
    have hrel := h.unreleased (.inr (.inr hdel))
    have hcons := h.conserved (by rw [hdel]; decide)
    exact .of_past h.req trivial fun _ => by simpa [hq, hrel] using hcons
  | closeEmpty hdr hq =>
    exact .of_past h.req trivial fun _ => h.conserved (by rw [hdr]; decide)
  | closeFull hdr hq => exact .of_past h.req trivial fun hno => absurd rfl hno

/-! ## Waiting -/

/-- A call that has returned has got a frame with a body, or its timeout was reached and no
such frame came before. -/
structure Answered (s : ReqLife Pack) : Prop where
  kept : Kept s
  post : s.type = .post → s.owner ≠ .waiting ∧ s.call = none
  result : ∀ c, s.call = some c → ∀ code pack, c.result = some (code, pack) →
    code = 1 ∧ pack.isSome ∨ code = 0 ∧ pack = none ∧ c.answered = false ∧ c.expired = true

theorem Answered.honoured (h : Answered s) : s.Honoured where
  post hpost := by
    obtain ⟨hwait, hnone⟩ := h.post hpost
    exact ⟨hwait, fun c hc => (nomatch hnone.symm.trans hc)⟩
  get _ c hc code pack hresult :=
    (h.result c hc code pack hresult).imp_right fun h => ⟨h.1, h.2.1, h.2.2.1⟩

theorem body_of_head {body : Option Pack} {rest : List (Option Pack)}
    (hq : s.handle.packQueue = body :: rest)
    (hhead : s.handle.packQueue.head?.all (·.isSome) = true) : body.isSome := by
  simpa [hq] using hhead

theorem Answered.step (h : Answered s) (hok : s.Answers e) (hstep : s.step e = some s') :
    Answered s' := by
  have hkept := h.kept.step hstep
  cases step_cases h.kept.req hstep with
  | @deliver pack hreg hdes habort =>
    refine ⟨hkept, fun hpost => ?_, fun c hc code got hresult => ?_⟩
    · obtain ⟨hwait, hnone⟩ := h.post hpost
      exact ⟨hwait, by simp [hnone]⟩
    · obtain ⟨c₀, hc₀, rfl⟩ := Option.map_eq_some_iff.mp hc
      -- a frame that comes behind the timeout answers nothing
      refine (h.result c₀ hc₀ code got hresult).imp_right ?_
      rintro ⟨hcode, hpack, hans, hexp⟩
      exact ⟨hcode, hpack, by simp [hans, hexp], hexp⟩
  | waitTake hfree hq =>
    refine ⟨hkept, fun hpost => (nomatch hok.1.symm.trans hpost), ?_⟩
    rintro _ ⟨⟩ code pack ⟨⟩
    exact .inl ⟨rfl, body_of_head hq hok.2⟩
  | waitNone hfree hq =>
    refine ⟨hkept, fun hpost => (nomatch hok.1.symm.trans hpost), ?_⟩
    rintro _ ⟨⟩ code pack ⟨⟩
    exact .inr ⟨rfl, rfl, by simp [newCall, hq], rfl⟩
  | block hfree hq htimeout =>
    refine ⟨hkept, fun hpost => (nomatch hok.1.symm.trans hpost), ?_⟩
    rintro _ ⟨⟩ code pack ⟨⟩
  | expire hcall htimeout =>
    refine ⟨hkept, fun hpost => (nomatch (h.post hpost).2.symm.trans hcall), ?_⟩
    rintro _ ⟨⟩ code pack hresult
    refine (h.result _ hcall code pack hresult).imp_right ?_
    exact fun ⟨hcode, hpack, hans, _⟩ => ⟨hcode, hpack, hans, rfl⟩
  | wakeTake hwait hcall hq =>
    refine ⟨hkept, fun hpost => absurd hwait (h.post hpost).1, ?_⟩
    rintro _ ⟨⟩ code pack ⟨⟩
    exact .inl ⟨rfl, body_of_head hq hok.1⟩
  | @wakeNone waitR c hwait hcall hq =>
    refine ⟨hkept, fun hpost => absurd hwait (h.post hpost).1, ?_⟩
    rintro _ ⟨⟩ code pack ⟨⟩
    refine .inr ⟨rfl, rfl, Bool.eq_false_iff.mpr fun hans => ?_, ?_⟩
    · -- an answer would still be in the queue
      simpa [hq] using h.kept.answered hwait c hcall hans
    · simpa [hcall] using hok.2 hq
  | disconnect => exact ⟨hkept, h.post, h.result⟩
  | destroy hfree => exact ⟨hkept, fun hpost => ⟨by simp, (h.post hpost).2⟩, h.result⟩
  | drainNone hdel hq => exact ⟨hkept, fun hpost => ⟨by simp, (h.post hpost).2⟩, h.result⟩
  | drainNull hdel hq => exact ⟨hkept, fun hpost => ⟨by simp, (h.post hpost).2⟩, h.result⟩
  | drainPack hdel hq => exact ⟨hkept, fun hpost => ⟨by simp, (h.post hpost).2⟩, h.result⟩
  | closeEmpty hdr hq => exact ⟨hkept, fun hpost => ⟨by simp, (h.post hpost).2⟩, h.result⟩
  | closeFull hdr hq => exact ⟨hkept, fun hpost => ⟨by simp, (h.post hpost).2⟩, h.result⟩

/-- A call that ends with a frame without a body breaks the promise, and so does every call for
a post. -/
theorem not_honoured_took {c : WaitCall Pack} {body : Option Pack} {rest : List (Option Pack)}
    (h : s.type = .post ∨ body = none) : ¬ (s.took c body rest).Honoured := by
  intro hon
  rcases htype : s.type with - | -
  · obtain rfl := h.resolve_left (by rw [htype]; decide)
    obtain ⟨-, hsome⟩ | ⟨hcode, -⟩ := hon.get htype _ rfl _ _ rfl
    · cases hsome
    · cases hcode
  · cases (hon.post htype).2 _ rfl _ _ rfl

theorem not_honoured_gaveUp {c : WaitCall Pack} (h : s.type = .post ∨ c.answered = true) :
    ¬ (s.gaveUp c).Honoured := by
  intro hon
  rcases htype : s.type with - | -
  · have hans := h.resolve_left (by rw [htype]; decide)
    obtain ⟨hcode, -⟩ | ⟨-, -, hno⟩ := hon.get htype _ rfl _ _ rfl
    · cases hcode
    · cases hans.symm.trans hno
  · cases (hon.post htype).2 _ rfl _ _ rfl

/-- A call that gave up before its timeout is answered by the next frame with a body. -/
theorem not_honoured_late {c : WaitCall Pack} (hreg : s.registered = true)
    (hexp : c.expired = false) (body : Pack) :
    ∃ s'', Reaches ReqLife.step anyStep (s.gaveUp c) s'' ∧ ¬ s''.Honoured := by
  have hstep : (s.gaveUp c).step (.deliver (some body)) = some { s.gaveUp c with
      handle := s.handle.push (some body)
      call := some { c with answered := true, result := some (0, none) }
      delivered := s.delivered ++ [some body] } := by
    simp [ReqLife.step, ReqLife.gaveUp, hreg, hexp]
  refine ⟨_, .tail .refl trivial hstep, fun hon => ?_⟩
  rcases htype : s.type with - | -
  · obtain ⟨hcode, -⟩ | ⟨-, -, hno⟩ := hon.get htype _ rfl _ _ rfl
    · cases hcode
    · cases hno
  · cases (hon.post htype).2 _ rfl _ _ rfl

/-- Where a step does not meet the condition, the promise is broken, at once or by the next
frame. -/
theorem Kept.broken (h : Kept s) (body : Pack) (hstep : s.step e = some s')
    (hno : ¬ s.Answers e) : ∃ s'', Reaches ReqLife.step anyStep s' s'' ∧ ¬ s''.Honoured := by
  have hpost : s.type ≠ .get → s.type = .post := by
    intro hget
    rcases htype : s.type with - | -
    · exact absurd htype hget
    · rfl
  cases step_cases h.req hstep with
  | @waitTake timeout got rest hfree hq =>
    refine ⟨_, .refl, not_honoured_took ?_⟩
    by_contra hneither
    obtain ⟨hget, hsome⟩ := not_or.mp hneither
    refine hno ⟨not_not.mp fun hne => hget (hpost hne), ?_⟩
    simpa [hq] using Option.isSome_iff_ne_none.mpr hsome
  | waitNone hfree hq =>
    refine ⟨_, .refl, not_honoured_gaveUp (.inl (hpost fun hget => hno ⟨hget, by simp [hq]⟩))⟩
  | block hfree hq htimeout =>
    refine ⟨_, .refl, fun hon => ?_⟩
    exact (hon.post (hpost fun hget => hno ⟨hget, by simp [hq]⟩)).1 rfl
  | @wakeTake waitR c got rest hwait hcall hq =>
    refine ⟨_, .refl, not_honoured_took (.inr ?_)⟩
    by_contra hsome
    exact hno ⟨by simpa [hq] using Option.isSome_iff_ne_none.mpr hsome, by simp [hq]⟩
  | @wakeNone waitR c hwait hcall hq =>
    refine not_honoured_late (h.registered (.inr hwait)) (Bool.eq_false_iff.mpr fun hexp => ?_) body
    exact hno ⟨by simp [hq], fun _ => by simpa [hcall] using hexp⟩
  | _ => exact absurd trivial hno

/-! ## Destroying -/

/-- Behind `ep_queue_get` the queue is empty. -/
structure Emptied (s : ReqLife Pack) : Prop where
  kept : Kept s
  holds : s.owner ≠ .aborted
  empty : s.owner = .drained ∨ s.owner = .destroyed → s.handle.packQueue = []

theorem Emptied.clean (h : Emptied s) : s.Clean where
  holds := h.holds
  released hdes := by
    have hcons := h.kept.conserved h.holds
    rwa [h.empty (.inr hdes), List.append_nil] at hcons

theorem Emptied.step (h : Emptied s) (hok : s.Drains e) (hstep : s.step e = some s') :
    Emptied s' := by
  have hkept := h.kept.step hstep
  cases step_cases h.kept.req hstep with
  | deliver hreg hdes habort =>
    exact ⟨hkept, habort, fun hpast => absurd hpast (not_or.mpr ⟨hok, hdes⟩)⟩
  | waitTake hfree hq => exact ⟨hkept, by simp [took], by simp [took]⟩
  | waitNone hfree hq => exact ⟨hkept, by simp [gaveUp], by simp [gaveUp]⟩
  | block hfree hq htimeout => exact ⟨hkept, by simp, by simp⟩
  | expire hcall htimeout => exact ⟨hkept, h.holds, h.empty⟩
  | wakeTake hwait hcall hq => exact ⟨hkept, by simp [took], by simp [took]⟩
  | wakeNone hwait hcall hq => exact ⟨hkept, by simp [gaveUp], by simp [gaveUp]⟩
  | disconnect => exact ⟨hkept, h.holds, h.empty⟩
  | destroy hfree => exact ⟨hkept, by simp, by simp⟩
  | drainNone hdel hq => exact ⟨hkept, by simp, fun _ => hq⟩
  | drainNull hdel hq =>
    have hall := hok.2
    simp [hq] at hall
  | @drainPack pack rest hdel hq =>
    have hlen := hok.1
    rw [hq, List.length_cons] at hlen
    obtain rfl : rest = [] := List.eq_nil_of_length_eq_zero (by omega)
    exact ⟨hkept, by simp, fun _ => rfl⟩
  | closeEmpty hdr hq => exact ⟨hkept, by simp, fun _ => hq⟩
  | closeFull hdr hq => exact absurd (h.empty (.inl hdr)) hq

/-- A queue that is not empty fails the assertion of `ep_queue_destroy`. -/
theorem not_clean_close (hdr : s.owner = .drained) (hq : s.handle.packQueue ≠ []) :
    ∃ s'', Reaches ReqLife.step anyStep s s'' ∧ ¬ s''.Clean := by
  have hstep : s.step .close = some { s with owner := .aborted } := by
    simp [ReqLife.step, hdr, hq]
  exact ⟨_, .tail .refl trivial hstep, fun hclean => hclean.holds rfl⟩

theorem Kept.soiled (h : Kept s) (hstep : s.step e = some s') (hno : ¬ s.Drains e) :
    ∃ s'', Reaches ReqLife.step anyStep s' s'' ∧ ¬ s''.Clean := by
  cases step_cases h.req hstep with
  | deliver hreg hdes habort =>
    exact not_clean_close (not_not.mp hno) (by simp [EpReq.push])
  | drainNone hdel hq => exact absurd ⟨by simp [hq], by simp [hq]⟩ hno
  | drainNull hdel hq => exact ⟨_, .refl, fun hclean => hclean.holds rfl⟩
  | @drainPack pack rest hdel hq =>
    refine not_clean_close rfl fun hnil => hno ?_
    obtain rfl : rest = [] := hnil
    exact ⟨by simp [hq], by simp [hq]⟩
  | _ => exact absurd trivial hno

end ReqLife

/-! ## Requests of a client -/

section Request

variable {l l' : Link (Option Pack)} {param : EpReqParam} {handle : EpReq (Option Pack)}

theorem epReqNew_handle (hnew : epReqNew l param = (l', .ok))
    (hhandle : l'.handles.head? = some handle) :
    l'.dispList.find? (·.category = param.category) = some ⟨param.category, handle.id⟩ ∧
      handle.req = .get ∧ handle.packQueue = [] := by
  unfold epReqNew epDispAddCb at hnew
  split_ifs at hnew with hsize hcount
  · cases (Prod.mk.inj hnew).2
  · cases (Prod.mk.inj hnew).2
  · obtain ⟨rfl, -⟩ := Prod.mk.inj hnew
    obtain rfl := Option.some.inj hhandle
    exact ⟨by simp, rfl, rfl⟩

/-- The dispatcher of the client finds the request by its category. -/
theorem epReqNew_delivers (hnew : epReqNew l param = (l', .ok))
    (hhandle : l'.handles.head? = some handle) (pack : Option Pack) :
    (epDispProcessor l' param.category pack).head? = some (handle.push pack) := by
  rw [epDispProcessor, (epReqNew_handle hnew hhandle).1]
  simp [epReqDefaultDispatcher_eq, List.head?_map, hhandle]

/-- In every run of a request whose waits meet the condition `ep_req_wait` keeps its promise,
and every run with a wait that does not meet it goes on to one where the promise is broken. -/
theorem epReqWait_honoured (l l' : Link (Option Pack)) (param : EpReqParam)
    (handle : EpReq (Option Pack)) (hnew : epReqNew l param = (l', .ok))
    (hhandle : l'.handles.head? = some handle) :
    (∀ s, Reaches ReqLife.step ReqLife.Answers (.start param.type handle) s → s.Honoured) ∧
    (∀ (_ : Pack) s e s', Reaches ReqLife.step anyStep (.start param.type handle) s →
      s.step e = some s' → ¬ s.Answers e →
        ∃ s'', Reaches ReqLife.step anyStep s' s'' ∧ ¬ s''.Honoured) := by
  obtain ⟨-, hreq, hq⟩ := epReqNew_handle hnew hhandle
  have hstart := ReqLife.Kept.start param.type hreq hq
  constructor
  · intro s hrun
    have hinit : ReqLife.Answered (.start param.type handle) :=
      ⟨hstart, fun _ => ⟨by simp [ReqLife.start], rfl⟩, fun c hc => nomatch hc⟩
    exact (hrun.invariant hinit fun h hok hstep => h.step hok hstep).honoured
  · intro body s e s' hrun hstep hno
    have hkept := hrun.invariant hstart fun h _ hstep => h.step hstep
    exact hkept.broken body hstep hno

/-- A request of category 1 waits five seconds and gets a response. -/
theorem epReqWait_honoured_answered :
    ∃ s : ReqLife ℕ, Reaches ReqLife.step ReqLife.Answers (.start .get ⟨0, 1, .get, []⟩) s ∧
      s.taken = [some 7] ∧ s.Honoured := by
  have hrun : Reaches ReqLife.step ReqLife.Answers (.start .get ⟨0, 1, .get, []⟩ : ReqLife ℕ) _ :=
    reaches_of_exec [.wait 5, .deliver (some 7), .wake 0] rfl
  exact ⟨_, hrun, rfl,
    (epReqWait_honoured (Link.start 4096) _ ⟨1, .get, 10⟩ ⟨0, 1, .get, []⟩ rfl rfl).1 _ hrun⟩

/-- A frame without a body is a response to `ep_req_wait`, and a post is waited for. -/
theorem epReqWait_null :
    (∃ s : ReqLife ℕ, Reaches ReqLife.step anyStep (.start .get ⟨0, 1, .get, []⟩) s ∧
      s.taken = [none] ∧ ¬ s.Honoured) ∧
    ∃ s : ReqLife ℕ, Reaches ReqLife.step anyStep (.start .post ⟨0, 1, .get, []⟩) s ∧
      s.owner = .waiting ∧ ¬ s.Honoured := by
  constructor
  · refine ⟨_, reaches_of_exec [.deliver none, .wait 5] rfl, rfl, fun hon => ?_⟩
    obtain ⟨-, hsome⟩ | ⟨hcode, -⟩ := hon.get rfl _ rfl _ _ rfl
    · cases hsome
    · cases hcode
  · exact ⟨_, reaches_of_exec [.wait 5] rfl, rfl, fun hon => (hon.post rfl).1 rfl⟩

/-- In every run of a request in which `ep_req_destroy` finds at most one frame, with a body,
and gets no other, no assertion fails and every frame is released; every other run goes on to
one where an assertion fails. -/
theorem epReqDestroy_clean (l l' : Link (Option Pack)) (param : EpReqParam)
    (handle : EpReq (Option Pack)) (hnew : epReqNew l param = (l', .ok))
    (hhandle : l'.handles.head? = some handle) :
    (∀ s, Reaches ReqLife.step ReqLife.Drains (.start param.type handle) s → s.Clean) ∧
    (∀ s e s', Reaches ReqLife.step anyStep (.start param.type handle) s →
      s.step e = some s' → ¬ s.Drains e →
        ∃ s'', Reaches ReqLife.step anyStep s' s'' ∧ ¬ s''.Clean) := by
  obtain ⟨-, hreq, hq⟩ := epReqNew_handle hnew hhandle
  have hstart := ReqLife.Kept.start param.type hreq hq
  constructor
  · intro s hrun
    have hinit : ReqLife.Emptied (.start param.type handle) :=
      ⟨hstart, by simp [ReqLife.start], fun _ => hq⟩
    exact (hrun.invariant hinit fun h hok hstep => h.step hok hstep).clean
  · intro s e s' hrun hstep hno
    have hkept := hrun.invariant hstart fun h _ hstep => h.step hstep
    exact hkept.soiled hstep hno

/-- A response that came after the wait is released. -/
theorem epReqDestroy_clean_late :
    ∃ s : ReqLife ℕ, Reaches ReqLife.step ReqLife.Drains (.start .get ⟨0, 1, .get, []⟩) s ∧
      s.owner = .destroyed ∧ s.released = [7] ∧ s.Clean := by
  have hrun : Reaches ReqLife.step ReqLife.Drains (.start .get ⟨0, 1, .get, []⟩ : ReqLife ℕ) _ :=
    reaches_of_exec [.wait 0, .deliver (some 7), .destroy, .drain, .close] rfl
  exact ⟨_, hrun, rfl, rfl,
    (epReqDestroy_clean (Link.start 4096) _ ⟨1, .get, 10⟩ ⟨0, 1, .get, []⟩ rfl rfl).1 _ hrun⟩

/-- The late response to an earlier request and the request's own. -/
theorem epReqDestroy_two :
    ∃ s : ReqLife ℕ, Reaches ReqLife.step anyStep (.start .get ⟨0, 1, .get, []⟩) s ∧
      s.handle.packQueue = [some 8] ∧ ¬ s.Clean :=
  ⟨_, reaches_of_exec [.deliver (some 7), .deliver (some 8), .destroy, .drain, .close] rfl, rfl,
    fun hclean => hclean.holds rfl⟩

end Request

end Youmenu.Eventpack
