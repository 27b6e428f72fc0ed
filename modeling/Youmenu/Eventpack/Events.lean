import Mathlib.Algebra.Order.Ring.Int
import Mathlib.Logic.Function.Basic
import Youmenu.Lib.Transition

/-!
# Connection events: `ep_service.c` over `ep_socket.c`

The event loop accepts, reads and closes connections, and the send thread closes one on
which it cannot write. Both change the table of connections under its lock, and raise
the event for it afterwards. `ep_service_on_close` raises its event only if it has taken
the connection out of the table; `ep_service_on_read` does not look at that.

A descriptor may be handed out again as soon as it is closed.

## Main definitions

* `Service.step` — the two threads, interleaved where they read or change what they share.
* `Service.Serial` — the steps of the two on one connection do not get in each other's way.
* `alternates` — every event that ends a connection follows an accept.
-/

namespace Youmenu.Eventpack

open Transition

/-! ## The source -/

/-- `ep_event_type`. -/
inductive EpEventType where
  | fdAccept
  | fdClose
  | ioOverflow
  | ioException
deriving DecidableEq

/-- Where the event loop stands. -/
inductive LoopAt where
  | idle
  /-- In `ep_service_on_accept`, before `ep_io_add`. -/
  | adding (fd : ℤ)
  /-- About to raise `event_fd_accept`. -/
  | accepting (fd : ℤ)
  /-- In `ep_service_on_read`, with bytes that were read, before `ep_io_enqueue`. -/
  | enqueuing (fd : ℤ)
  /-- Before `ep_io_del`, with the event that follows it. -/
  | deleting (fd : ℤ) (type : EpEventType)
  /-- About to raise that event. -/
  | refusing (fd : ℤ) (type : EpEventType)
  /-- In `aeClientClose`. -/
  | closing (fd : ℤ)
  /-- In `ep_service_on_close`, before `ep_io_del`. -/
  | onClose (fd : ℤ)
  /-- About to raise `event_fd_close`. -/
  | closed (fd : ℤ)
deriving DecidableEq

/-- Where the send thread stands. -/
inductive SenderAt where
  | idle
  /-- It has a buffer for the connection. -/
  | sending (fd : ℤ)
  /-- In `aeClientClose`. -/
  | closing (fd : ℤ)
  /-- In `ep_service_on_close`, before `ep_io_del`; `again` says that
  `ep_service_send_error_cb` will call it once more. -/
  | onClose (fd : ℤ) (again : Bool)
  /-- About to raise `event_fd_close`. -/
  | closed (fd : ℤ) (again : Bool)
deriving DecidableEq

/-- `registered` says which descriptors have a connection in the table. -/
structure Service where
  opened : ℤ → Bool
  registered : ℤ → Bool
  loop : LoopAt
  sender : SenderAt

def Service.start : Service := ⟨fun _ => false, fun _ => false, .idle, .idle⟩

/-- What is raised for a result of `ep_io_enqueue` below 0. -/
def refusal (ret : ℤ) : EpEventType :=
  if ret = -1 then .ioException else if ret = -2 then .ioOverflow else .fdClose

inductive ServiceAct where
  /-- `aeAcceptTcpHandler` gets a connection. -/
  | accept (fd : ℤ)
  /-- `aeReadFromClient` gets bytes. -/
  | read (fd : ℤ)
  /-- `aeReadFromClient` gets an error or the end of the connection. -/
  | hangUp (fd : ℤ)
  /-- The next step of the event loop; `ret` is what `ep_io_enqueue` makes of the bytes. -/
  | loop (ret : ℤ)
  /-- `ep_io_get` returns a buffer to the send thread. -/
  | take (fd : ℤ)
  /-- `write` on the connection succeeds or fails. -/
  | write (ok : Bool)
  /-- The next step of the send thread. -/
  | sender
deriving DecidableEq

namespace Service

variable (s : Service)

abbrev Reported := Option (Service × List (ℤ × EpEventType))

/-- After `ep_io_del`. -/
def unregister (fd : ℤ) : Service := { s with registered := Function.update s.registered fd false }

def loopStep (ret : ℤ) : Reported :=
  match s.loop with
  | .idle => none
  | .adding fd =>
    if s.registered fd then some ({ s with loop := .idle }, [])
    else some ({ s with
      registered := Function.update s.registered fd true
      loop := .accepting fd }, [])
  | .accepting fd => some ({ s with loop := .idle }, [(fd, .fdAccept)])
  | .enqueuing fd =>
    let ret := if s.registered fd then ret else -3
    if ret ≥ 0 then some ({ s with loop := .idle }, [])
    else some ({ s with loop := .deleting fd (refusal ret) }, [])
  | .deleting fd type => some ({ s.unregister fd with loop := .refusing fd type }, [])
  | .refusing fd type => some ({ s with loop := .closing fd }, [(fd, type)])
  | .closing fd => some ({ s with
      opened := Function.update s.opened fd false
      loop := .onClose fd }, [])
  | .onClose fd =>
    if s.registered fd then some ({ s.unregister fd with loop := .closed fd }, [])
    else some ({ s with loop := .idle }, [])
  | .closed fd => some ({ s with loop := .idle }, [(fd, .fdClose)])

/-- After a call of `ep_service_on_close`. -/
def afterClose (fd : ℤ) (again : Bool) : SenderAt := if again then .onClose fd false else .idle

def senderStep : Reported :=
  match s.sender with
  | .idle | .sending _ => none
  | .closing fd => some ({ s with
      opened := Function.update s.opened fd false
      sender := .onClose fd true }, [])
  | .onClose fd again =>
    if s.registered fd then some ({ s.unregister fd with sender := .closed fd again }, [])
    else some ({ s with sender := afterClose fd again }, [])
  | .closed fd again => some ({ s with sender := afterClose fd again }, [(fd, .fdClose)])

def step : ServiceAct → Reported
  | .accept fd =>
    if s.loop = .idle ∧ s.opened fd = false then
      some ({ s with opened := Function.update s.opened fd true, loop := .adding fd }, [])
    else none
  | .read fd =>
    if s.loop = .idle ∧ s.opened fd = true then some ({ s with loop := .enqueuing fd }, [])
    else none
  | .hangUp fd =>
    if s.loop = .idle ∧ s.opened fd = true then some ({ s with loop := .closing fd }, []) else none
  | .loop ret => s.loopStep ret
  | .take fd =>
    if s.sender = .idle ∧ s.registered fd = true then some ({ s with sender := .sending fd }, [])
    else none
  | .write ok =>
    match s.sender with
    | .sending fd => some ({ s with sender := if ok then .idle else .closing fd }, [])
    | _ => none
  | .sender => s.senderStep

end Service

/-- The event loop is about to raise an event that ends the connection. -/
def LoopAt.ends (fd : ℤ) : LoopAt → Bool
  | .refusing fd' _ | .closed fd' => fd' = fd
  | _ => false

def SenderAt.ends (fd : ℤ) : SenderAt → Bool
  | .closed fd' _ => fd' = fd
  | _ => false

/-- `ep_service_on_read` takes out a connection that is in the table, and neither thread
changes the entry of a connection while the other is about to raise an event for it. -/
def Service.serial (s : Service) : ServiceAct → Bool
  | .loop _ =>
    match s.loop with
    | .deleting fd _ => s.registered fd
    | .adding fd => s.registered fd || !s.sender.ends fd
    | _ => true
  | .sender =>
    match s.sender with
    | .onClose fd _ => !s.registered fd || s.loop ≠ .accepting fd
    | _ => true
  | _ => true

def Service.Serial (t : Service × List (ℤ × EpEventType)) (act : ServiceAct) : Prop :=
  t.1.serial act = true

instance (t : Service × List (ℤ × EpEventType)) : DecidablePred (Service.Serial t) :=
  fun _ => inferInstanceAs (Decidable (_ = true))

/-! ## The events of a connection -/

/-- What was raised for a descriptor. -/
def eventsOf (fd : ℤ) (log : List (ℤ × EpEventType)) : List EpEventType :=
  (log.filter (·.1 = fd)).map Prod.snd

/-- Whether a connection is announced and not ended after the events. -/
def announced : Bool → List EpEventType → Bool
  | live, [] => live
  | _, type :: types => announced (type = .fdAccept) types

/-- No event ends a connection that is not announced. -/
def alternates : Bool → List EpEventType → Bool
  | _, [] => true
  | live, type :: types =>
    (type = .fdAccept || live) && alternates (type = .fdAccept) types

theorem announced_append (live : Bool) (types : List EpEventType) (type : EpEventType) :
    announced live (types ++ [type]) = decide (type = .fdAccept) := by
  induction types generalizing live with
  | nil => rfl
  | cons t types ih => exact ih _

theorem alternates_append (live : Bool) (types : List EpEventType) (type : EpEventType) :
    alternates live (types ++ [type]) =
      (alternates live types && (type = .fdAccept || announced live types)) := by
  induction types generalizing live with
  | nil => simp [alternates, announced]
  | cons t types ih => simp [alternates, announced, ih, Bool.and_assoc]

@[simp] theorem eventsOf_nil_append (fd : ℤ) (log : List (ℤ × EpEventType)) :
    eventsOf fd (log ++ []) = eventsOf fd log := by rw [List.append_nil]

theorem eventsOf_append (fd fd' : ℤ) (log : List (ℤ × EpEventType)) (type : EpEventType) :
    eventsOf fd (log ++ [(fd', type)]) =
      if fd' = fd then eventsOf fd log ++ [type] else eventsOf fd log := by
  by_cases h : fd' = fd <;> simp [eventsOf, h]

/-- A registered connection has been announced or is about to be, and an event that is
about to end one is the only one and ends an announced connection. -/
structure Service.Told (s : Service) (log : List (ℤ × EpEventType)) : Prop where
  registered : ∀ fd, s.registered fd = true → s.loop ≠ .accepting fd →
    announced false (eventsOf fd log) = true
  accepting : ∀ fd, s.loop = .accepting fd → s.registered fd = true
  loop : ∀ fd, s.loop.ends fd = true → announced false (eventsOf fd log) = true ∧
    s.registered fd = false ∧ s.sender.ends fd = false
  sender : ∀ fd, s.sender.ends fd = true →
    announced false (eventsOf fd log) = true ∧ s.registered fd = false
  alternates : ∀ fd, alternates false (eventsOf fd log) = true

section Told

variable {s s' : Service} {log : List (ℤ × EpEventType)} {fd : ℤ}

theorem Service.Told.start : Service.start.Told [] :=
  ⟨nofun, nofun, nofun, nofun, fun _ => rfl⟩

/-- A step of the event loop that changes no entry and raises nothing. -/
theorem Service.Told.loopTo (h : s.Told log) {next : LoopAt} {opened : ℤ → Bool}
    (hold : ∀ fd, s.loop ≠ .accepting fd) (hnext : ∀ fd, next ≠ .accepting fd)
    (hends : ∀ fd, next.ends fd = false) :
    ({ s with opened := opened, loop := next } : Service).Told (log ++ []) := by
  refine ⟨?_, ?_, ?_, ?_, ?_⟩
  · simpa using fun fd hreg _ => h.registered fd hreg (hold fd)
  · exact fun fd heq => absurd heq (hnext fd)
  · exact fun fd hend => by simp [hends fd] at hend
  · simpa using h.sender
  · simpa using h.alternates

theorem Service.Told.senderTo (h : s.Told log) {next : SenderAt} {opened : ℤ → Bool}
    (hends : ∀ fd, next.ends fd = false) :
    ({ s with opened := opened, sender := next } : Service).Told (log ++ []) := by
  refine ⟨?_, h.accepting, ?_, ?_, ?_⟩
  · simpa using h.registered
  · simpa [hends] using fun fd hend => ⟨(h.loop fd hend).1, (h.loop fd hend).2.1⟩
  · exact fun fd hend => by simp [hends fd] at hend
  · simpa using h.alternates

theorem Service.unregister_apply (s : Service) (fd fd' : ℤ) :
    (s.unregister fd).registered fd' = if fd' = fd then false else s.registered fd' :=
  Function.update_apply _ _ _ _

/-- `ep_io_del` finds the connection, and the event loop is about to say so. -/
theorem Service.Told.loopDel (h : s.Told log) {next : LoopAt} (hreg : s.registered fd = true)
    (hold : ∀ fd, s.loop ≠ .accepting fd) (hnext : ∀ fd, next ≠ .accepting fd)
    (hends : ∀ fd', next.ends fd' = decide (fd = fd')) :
    ({ s.unregister fd with loop := next } : Service).Told (log ++ []) := by
  have hsender : s.sender.ends fd = false := by
    by_contra hend
    have := (h.sender fd (by simpa using hend)).2
    simp [hreg] at this
  refine ⟨?_, fun fd' heq => absurd heq (hnext fd'), ?_, ?_, ?_⟩
  · intro fd' hreg' _
    rw [show ({ s.unregister fd with loop := next } : Service).registered fd' = _ from
      s.unregister_apply fd fd'] at hreg'
    split_ifs at hreg'
    simpa using h.registered fd' hreg' (hold fd')
  · intro fd' hend
    simp only [hends, decide_eq_true_eq] at hend
    subst hend
    refine ⟨by simpa using h.registered fd hreg (hold fd), ?_, hsender⟩
    exact (s.unregister_apply fd fd).trans (if_pos rfl)
  · intro fd' hend
    obtain ⟨hann, hnot⟩ := h.sender fd' hend
    refine ⟨by simpa using hann, ?_⟩
    refine (s.unregister_apply fd fd').trans ?_
    split_ifs
    · rfl
    · exact hnot
  · simpa using h.alternates

theorem Service.Told.senderDel (h : s.Told log) {next : SenderAt} (hreg : s.registered fd = true)
    (hloop : s.loop ≠ .accepting fd) (hends : ∀ fd', next.ends fd' = decide (fd = fd')) :
    ({ s.unregister fd with sender := next } : Service).Told (log ++ []) := by
  have hloopEnd : s.loop.ends fd = false := by
    by_contra hend
    have := (h.loop fd (by simpa using hend)).2.1
    simp [hreg] at this
  refine ⟨?_, ?_, ?_, ?_, ?_⟩
  · intro fd' hreg' hne
    rw [show ({ s.unregister fd with sender := next } : Service).registered fd' = _ from
      s.unregister_apply fd fd'] at hreg'
    split_ifs at hreg'
    simpa using h.registered fd' hreg' hne
  · intro fd' heq
    have hne : fd' ≠ fd := by
      rintro rfl
      exact hloop heq
    exact (s.unregister_apply fd fd').trans ((if_neg hne).trans (h.accepting fd' heq))
  · intro fd' hend
    have hend' : s.loop.ends fd' = true := hend
    have hne : fd ≠ fd' := by
      rintro rfl
      simp [hloopEnd] at hend'
    obtain ⟨hann, hnot, -⟩ := h.loop fd' hend'
    refine ⟨by simpa using hann, ?_, by simp [hends, hne]⟩
    exact (s.unregister_apply fd fd').trans ((if_neg hne.symm).trans hnot)
  · intro fd' hend
    simp only [hends, decide_eq_true_eq] at hend
    subst hend
    refine ⟨by simpa using h.registered fd hreg hloop, ?_⟩
    exact (s.unregister_apply fd fd).trans (if_pos rfl)
  · simpa using h.alternates

theorem Service.Told.register (h : s.Told log) (hold : ∀ fd, s.loop ≠ .accepting fd)
    (hsender : s.sender.ends fd = false) :
    ({ s with
        registered := Function.update s.registered fd true
        loop := .accepting fd } : Service).Told (log ++ []) := by
  refine ⟨?_, ?_, nofun, ?_, ?_⟩
  · intro fd' hreg hne
    have hfd : fd' ≠ fd := by
      rintro rfl
      exact hne rfl
    simp only [Function.update_of_ne hfd] at hreg
    simpa using h.registered fd' hreg (hold fd')
  · rintro fd' heq
    obtain rfl : fd = fd' := by simpa using heq
    exact Function.update_self _ _ _
  · intro fd' hend
    have hend' : s.sender.ends fd' = true := hend
    have hfd : fd' ≠ fd := by
      rintro rfl
      simp [hsender] at hend'
    obtain ⟨hann, hnot⟩ := h.sender fd' hend'
    exact ⟨by simpa using hann, (Function.update_of_ne hfd _ _).trans hnot⟩
  · simpa using h.alternates

/-- An event for a connection leaves what was said about the others as it is. -/
theorem announced_raise (log : List (ℤ × EpEventType)) (fd fd' : ℤ) (type : EpEventType) :
    announced false (eventsOf fd' (log ++ [(fd, type)])) =
      if fd = fd' then decide (type = .fdAccept) else announced false (eventsOf fd' log) := by
  rw [eventsOf_append]
  split_ifs
  · exact announced_append _ _ _
  · rfl

theorem Service.Told.raise (h : s.Told log) {type : EpEventType}
    (htype : type = .fdAccept ∨ announced false (eventsOf fd log) = true) (fd' : ℤ) :
    Eventpack.alternates false (eventsOf fd' (log ++ [(fd, type)])) = true := by
  rw [eventsOf_append]
  split_ifs with hfd
  · subst hfd
    rw [alternates_append, h.alternates fd]
    simpa using htype
  · exact h.alternates fd'

theorem Service.Told.accept (h : s.Told log) (hloop : s.loop = .accepting fd) :
    ({ s with loop := .idle } : Service).Told (log ++ [(fd, .fdAccept)]) := by
  have hreg := h.accepting fd hloop
  refine ⟨?_, nofun, nofun, ?_, h.raise (.inl rfl)⟩
  · intro fd' hreg' _
    rw [announced_raise]
    split_ifs with hfd
    · rfl
    · exact h.registered fd' hreg' (by simpa [hloop] using hfd)
  · intro fd' hend
    obtain ⟨hann, hnot⟩ := h.sender fd' hend
    refine ⟨?_, hnot⟩
    rw [announced_raise]
    split_ifs
    · rfl
    · exact hann

/-- The event loop raises the event that it owes. -/
theorem Service.Told.loopRaise (h : s.Told log) {next : LoopAt} (type : EpEventType)
    (hends : ∀ fd', s.loop.ends fd' = decide (fd = fd')) (hnext : ∀ fd, next ≠ .accepting fd)
    (hnextEnds : ∀ fd, next.ends fd = false) :
    ({ s with loop := next } : Service).Told (log ++ [(fd, type)]) := by
  obtain ⟨hann, hnot, hsender⟩ := h.loop fd (by simp [hends])
  have hold : ∀ fd, s.loop ≠ .accepting fd := by
    intro fd' heq
    have := hends fd
    simp [heq, LoopAt.ends] at this
  refine ⟨?_, fun fd' heq => absurd heq (hnext fd'), ?_, ?_, h.raise (.inr hann)⟩
  · intro fd' hreg _
    have hfd : fd ≠ fd' := by
      rintro rfl
      exact absurd (hreg.symm.trans hnot) nofun
    rw [announced_raise, if_neg hfd]
    exact h.registered fd' hreg (hold fd')
  · exact fun fd' hend => by simp [hnextEnds fd'] at hend
  · intro fd' hend
    have hfd : fd ≠ fd' := by
      rintro rfl
      exact absurd (hend.symm.trans hsender) nofun
    rw [announced_raise, if_neg hfd]
    exact h.sender fd' hend

theorem Service.Told.senderRaise (h : s.Told log) {next : SenderAt} (type : EpEventType)
    (hends : ∀ fd', s.sender.ends fd' = decide (fd = fd')) (hnext : ∀ fd, next.ends fd = false) :
    ({ s with sender := next } : Service).Told (log ++ [(fd, type)]) := by
  obtain ⟨hann, hnot⟩ := h.sender fd (by simp [hends])
  refine ⟨?_, h.accepting, ?_, ?_, h.raise (.inr hann)⟩
  · intro fd' hreg hne
    have hfd : fd ≠ fd' := by
      rintro rfl
      exact absurd (hreg.symm.trans hnot) nofun
    rw [announced_raise, if_neg hfd]
    exact h.registered fd' hreg hne
  · intro fd' hend
    obtain ⟨hann', hnot', hother⟩ := h.loop fd' hend
    have hfd : fd ≠ fd' := by
      rintro rfl
      simp [hends] at hother
    rw [announced_raise, if_neg hfd]
    exact ⟨hann', hnot', hnext fd'⟩
  · exact fun fd' hend => by simp [hnext fd'] at hend

theorem afterClose_ends (fd fd' : ℤ) (again : Bool) :
    (Service.afterClose fd again).ends fd' = false := by cases again <;> rfl

theorem Service.Told.loopStep {ret : ℤ} {new : List (ℤ × EpEventType)} (h : s.Told log)
    (hok : s.serial (.loop ret) = true) (hstep : s.loopStep ret = some (s', new)) :
    s'.Told (log ++ new) := by
  unfold Service.loopStep at hstep
  unfold Service.serial at hok
  split at hstep
  · cases hstep
  · next fd hloop =>
    have hold : ∀ fd, s.loop ≠ .accepting fd := by simp [hloop]
    simp only [hloop] at hok
    split_ifs at hstep with hreg <;> cases hstep
    · exact h.loopTo hold nofun fun _ => rfl
    · exact h.register hold (by simpa [hreg] using hok)
  · next fd hloop =>
    cases hstep
    exact h.accept hloop
  · next fd hloop =>
    have hold : ∀ fd, s.loop ≠ .accepting fd := by simp [hloop]
    simp only at hstep
    split_ifs at hstep <;> cases hstep <;> exact h.loopTo hold nofun fun _ => rfl
  · next fd type hloop =>
    cases hstep
    simp only [hloop] at hok
    exact h.loopDel hok (by simp [hloop]) nofun fun _ => rfl
  · next fd type hloop =>
    cases hstep
    exact h.loopRaise type (by simp [hloop, LoopAt.ends]) nofun fun _ => rfl
  · next fd hloop =>
    cases hstep
    exact h.loopTo (by simp [hloop]) nofun fun _ => rfl
  · next fd hloop =>
    split_ifs at hstep with hreg <;> cases hstep
    · exact h.loopDel hreg (by simp [hloop]) nofun fun _ => rfl
    · exact h.loopTo (by simp [hloop]) nofun fun _ => rfl
  · next fd hloop =>
    cases hstep
    exact h.loopRaise .fdClose (by simp [hloop, LoopAt.ends]) nofun fun _ => rfl

theorem Service.Told.senderStep {new : List (ℤ × EpEventType)} (h : s.Told log)
    (hok : s.serial .sender = true) (hstep : s.senderStep = some (s', new)) :
    s'.Told (log ++ new) := by
  unfold Service.senderStep at hstep
  unfold Service.serial at hok
  split at hstep
  · cases hstep
  · cases hstep
  · next fd hsender =>
    cases hstep
    exact h.senderTo fun _ => rfl
  · next fd again hsender =>
    simp only [hsender] at hok
    split_ifs at hstep with hreg <;> cases hstep
    · exact h.senderDel hreg (by simpa [hreg] using hok) fun _ => rfl
    · exact h.senderTo fun fd' => afterClose_ends fd fd' again
  · next fd again hsender =>
    cases hstep
    exact h.senderRaise .fdClose (by simp [hsender, SenderAt.ends])
      fun fd' => afterClose_ends fd fd' again

theorem Service.Told.step {act : ServiceAct} {new : List (ℤ × EpEventType)} (h : s.Told log)
    (hok : s.serial act = true) (hstep : s.step act = some (s', new)) : s'.Told (log ++ new) := by
  cases act with
  | accept fd | read fd | hangUp fd =>
    simp only [Service.step] at hstep
    split_ifs at hstep with hidle
    cases hstep
    exact h.loopTo (by simp [hidle.1]) nofun fun _ => rfl
  | loop ret => exact h.loopStep hok hstep
  | take fd =>
    simp only [Service.step] at hstep
    split_ifs at hstep
    cases hstep
    exact h.senderTo fun _ => rfl
  | write ok =>
    simp only [Service.step] at hstep
    split at hstep <;> cases hstep
    exact h.senderTo (by cases ok <;> exact fun _ => rfl)
  | sender => exact h.senderStep hok hstep

end Told

/-- If `ep_service_on_read` never takes out a connection that is gone, and neither thread
changes an entry while the other owes an event for it, then for every descriptor the events
alternate: an event that ends a connection is raised only after an accept, and only once. -/
theorem events_alternate (s : Service) (log : List (ℤ × EpEventType))
    (h : Reaches (traced Service.step) Service.Serial (Service.start, []) (s, log)) (fd : ℤ) :
    alternates false (eventsOf fd log) = true := by
  have htold : s.Told log := by
    refine h.invariant (P := fun t => t.1.Told t.2) .start ?_
    rintro ⟨s, w⟩ act ⟨s', w'⟩ htold hok hstep
    obtain ⟨new, hreport, rfl⟩ := traced_eq_some.mp hstep
    exact Service.Told.step htold hok hreport
  exact htold.alternates fd

/-- A failed write and bad input on two connections, and a number that comes back. -/
theorem events_alternate_reused :
    ∃ s log, Reaches (traced Service.step) Service.Serial (Service.start, []) (s, log) ∧
      eventsOf 5 log = [.fdAccept, .fdClose, .fdAccept, .ioException] ∧
      alternates false (eventsOf 5 log) = true := by
  have hrun : Reaches (traced Service.step) Service.Serial (Service.start, []) _ :=
    reaches_of_exec [.accept 5, .loop 0, .loop 0, .take 5, .write false, .sender, .sender, .sender,
      .sender, .accept 5, .loop 0, .loop 0, .read 5, .loop (-1), .loop 0, .loop 0, .loop 0,
      .loop 0] rfl
  exact ⟨_, _, hrun, rfl, events_alternate _ _ hrun 5⟩

/-- A read is in progress when the send thread closes the connection: both raise
`event_fd_close`. And a push to a connection that is not announced yet fails: the close
comes before the accept. -/
theorem events_doubled :
    (∃ s log, Reaches (traced Service.step) anyStep (Service.start, []) (s, log) ∧
      eventsOf 5 log = [.fdAccept, .fdClose, .fdClose] ∧
      alternates false (eventsOf 5 log) = false) ∧
    ∃ s log, Reaches (traced Service.step) anyStep (Service.start, []) (s, log) ∧
      eventsOf 5 log = [.fdClose, .fdAccept] ∧ alternates false (eventsOf 5 log) = false := by
  refine ⟨⟨_, _, reaches_of_exec [.accept 5, .loop 0, .loop 0, .take 5, .read 5, .write false,
    .sender, .sender, .sender, .loop 1, .loop 0, .loop 0] rfl, rfl, rfl⟩,
    ⟨_, _, reaches_of_exec [.accept 5, .loop 0, .take 5, .write false, .sender, .sender, .sender,
      .loop 0] rfl, rfl, rfl⟩⟩

end Youmenu.Eventpack
