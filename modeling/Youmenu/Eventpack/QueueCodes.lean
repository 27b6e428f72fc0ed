import Youmenu.Eventpack.Queue

/-!
# The return codes of `ep_queue_get`

Every call of `ep_queue_get` that is under way is kept with its timeout, whether that has
been reached, and the queue as the call found it when it last got the mutex: the state of the
queue that its code is about. A library wait returns nonzero only when the timeout was
reached, and a wait without a timeout never does; it may return zero at any time.

## Main definitions

* `TimedSys.step` — the threads of a queue, with timeouts.
* `GetReturn.Means` — a code means what the interface says.
* `TimedSys.Clear` — no thread gets the mutex where the code goes wrong.
-/

namespace Youmenu.Eventpack

open Transition

variable {β : Type*}

/-! ## Calls with timeouts -/

/-- A call of `ep_queue_get` under way. -/
structure GetCall (β : Type*) where
  timeout : ℤ
  expired : Bool
  found : EpQueue β

structure TimedSys (β : Type*) where
  sys : QueueSys β
  calls : ℕ → Option (GetCall β)

inductive TimedAct (β : Type*) where
  | act (a : QueueAct β)
  /-- The timeout of a thread that waits is reached. -/
  | expire (t : ℕ)

/-- A call that has returned. -/
structure GetReturn (β : Type*) where
  code : ℤ
  body : Option β
  call : GetCall β

/-- A body with 1, a stopped queue with -1, and an empty one that is not stopped with 0, when
the timeout was reached. Where the queue is stopped and empty the code is -1. -/
structure GetReturn.Means (r : GetReturn β) : Prop where
  code : r.code = 1 ∧ r.body.isSome ∨ r.code = -1 ∧ r.call.found.stopSign = true ∨
    r.code = 0 ∧ r.call.found.queue = [] ∧ r.call.found.stopSign = false ∧
      0 ≤ r.call.timeout ∧ r.call.expired = true
  stopped : r.call.found.queue = [] → r.call.found.stopSign = true → r.code = -1

namespace TimedSys

def start : TimedSys β := ⟨.start, fun _ => none⟩

variable (s : TimedSys β)

/-- The calls after an action. -/
def note : QueueAct β → ℕ → Option (GetCall β)
  | .call t (.get timeout) => Function.update s.calls t (some ⟨timeout, timeout = 0, s.sys.q⟩)
  | .call t (.push _) | .call t .stop => Function.update s.calls t none
  | .enter t _ | .wake t _ =>
    Function.update s.calls t ((s.calls t).map fun c => { c with found := s.sys.q })
  | .ret t => Function.update s.calls t none

/-- The calls of `ep_queue_get` that return in an action. -/
def returns : QueueAct β → List (GetReturn β)
  | .ret t =>
    match s.sys.threads t, s.calls t with
    | .leaving code body, some c => [⟨code, body, c⟩]
    | _, _ => []
  | .call _ _ | .enter _ _ | .wake _ _ => []

/-- What the library waits allow. -/
def Allowed : QueueAct β → Prop
  | .wake t waitR => waitR ≠ 0 → (s.calls t).any (·.expired) = true
  | .call _ _ | .enter _ _ | .ret _ => True

instance : DecidablePred s.Allowed
  | .wake _ _ => inferInstanceAs (Decidable (_ → _))
  | .call _ _ | .enter _ _ | .ret _ => .isTrue trivial

def step : TimedAct β → Option (TimedSys β × List (GetReturn β))
  | .act a =>
    if s.Allowed a then (s.sys.step a).map fun r => (⟨r.1, s.note a⟩, s.returns a) else none
  | .expire t =>
    match s.sys.threads t, s.calls t with
    | .waiting, some c =>
      if 0 < c.timeout then
        some ({ s with calls := Function.update s.calls t (some { c with expired := true }) }, [])
      else none
    | _, _ => none

/-- No call of `ep_queue_get` begins on a queue that is stopped and empty, and no wait ends
without a timeout on one that is empty and not stopped. -/
def Clear : TimedAct β → Prop
  | .act (.enter t _) =>
    (s.calls t).isSome → ¬ (s.sys.q.queue = [] ∧ s.sys.q.stopSign = true)
  | .act (.wake _ waitR) =>
    ¬ (waitR = 0 ∧ s.sys.q.queue = [] ∧ s.sys.q.stopSign = false)
  | .act (.call _ _) | .act (.ret _) | .expire _ => True

instance : DecidablePred s.Clear
  | .act (.enter _ _) => inferInstanceAs (Decidable (_ → ¬ _))
  | .act (.wake _ _) => inferInstanceAs (Decidable (¬ _))
  | .act (.call _ _) | .act (.ret _) | .expire _ => .isTrue trivial

/-! ## Steps -/

/-- One thread goes on, and its call with it. -/
def move (q : EpQueue β) (t : ℕ) (at' : QueueThread β) (c : Option (GetCall β)) : TimedSys β :=
  ⟨s.sys.put q t at', Function.update s.calls t c⟩

end TimedSys

/-- Where a thread stands behind a stretch of `ep_queue_get`. -/
def GetEnd.thread : GetEnd β → QueueThread β
  | .ret code body => .leaving code body
  | .wait => .waiting

theorem QueueSys.getStretch_fst (s : QueueSys β) (t : ℕ) (r : EpQueue β × GetEnd β) :
    (s.getStretch t r).1 = s.put r.1 t r.2.thread := by
  obtain ⟨q, code | -⟩ := r <;> rfl

/-- The call that is kept for a thread is the one that it makes. -/
def Tracks : QueueThread β → Option (GetCall β) → Prop
  | .entering (.get timeout), c => ∃ found, c = some ⟨timeout, timeout = 0, found⟩
  | .entering (.push _), c | .entering .stop, c => c = none
  | .waiting, c => ∃ c', c = some c' ∧ (c'.expired = true → 0 ≤ c'.timeout)
  | .idle, _ | .leaving _ _, _ => True

namespace TimedSys

def Tracked (s : TimedSys β) : Prop := ∀ t, Tracks (s.sys.threads t) (s.calls t)

/-- What a step of the threads can do. -/
inductive TimedStep (s : TimedSys β) : TimedAct β → TimedSys β → List (GetReturn β) → Prop
  | call {t : ℕ} {call : QueueCall β} {c : Option (GetCall β)} (hc : Tracks (.entering call) c) :
      TimedStep s (.act (.call t call)) (s.move s.sys.q t (.entering call) c) []
  | change {t : ℕ} {alloc : Bool} {q : EpQueue β} {code : ℤ} (hnone : s.calls t = none) :
      TimedStep s (.act (.enter t alloc)) (s.move q t (.leaving code none) none) []
  | enter {t : ℕ} {alloc : Bool} {timeout : ℤ} (hsome : (s.calls t).isSome) :
      TimedStep s (.act (.enter t alloc))
        (s.move (epQueueGetEnter s.sys.q timeout).1 t (epQueueGetEnter s.sys.q timeout).2.thread
          (some ⟨timeout, timeout = 0, s.sys.q⟩)) []
  | wake {t : ℕ} {waitR : ℤ} {c : GetCall β} (hwait : waitR ≠ 0 → c.expired = true)
      (htimeout : c.expired = true → 0 ≤ c.timeout) :
      TimedStep s (.act (.wake t waitR))
        (s.move (epQueueGetWake s.sys.q waitR).1 t (epQueueGetWake s.sys.q waitR).2.thread
          (some { c with found := s.sys.q })) []
  | ret {t : ℕ} {code : ℤ} {body : Option β} (hat : s.sys.threads t = .leaving code body) :
      TimedStep s (.act (.ret t)) (s.move s.sys.q t .idle none)
        ((s.calls t).toList.map fun c => ⟨code, body, c⟩)
  | expire {t : ℕ} {c : GetCall β} (hat : s.sys.threads t = .waiting) (htimeout : 0 < c.timeout) :
      TimedStep s (.expire t) (s.move s.sys.q t .waiting (some { c with expired := true })) []

variable {s s' : TimedSys β} {e : TimedAct β} {new : List (GetReturn β)}

theorem Tracked.start : Tracked (start : TimedSys β) := fun _ => trivial

theorem expire_cases {t : ℕ} (hstep : s.step (.expire t) = some (s', new)) :
    TimedStep s (.expire t) s' new := by
  simp only [step] at hstep
  split at hstep
  · next c hat hc =>
    split_ifs at hstep with htimeout
    obtain ⟨rfl, rfl⟩ := Prod.mk.inj (Option.some.inj hstep)
    have hsame : s.sys.put s.sys.q t .waiting = s.sys := by
      rw [QueueSys.put, ← hat, Function.update_eq_self]
    have hexpire := TimedStep.expire (s := s) hat htimeout
    rwa [move, hsame] at hexpire
  · cases hstep

section Act

variable {sys : QueueSys β} {marks : List (QueueMark β)} {t : ℕ}

theorem call_cases {call : QueueCall β} (hsys : s.sys.step (.call t call) = some (sys, marks)) :
    TimedStep s (.act (.call t call)) ⟨sys, s.note (.call t call)⟩ [] := by
  simp only [QueueSys.step] at hsys
  split at hsys <;> cases hsys
  cases call with
  | get timeout => exact .call ⟨_, rfl⟩
  | push body => exact .call rfl
  | stop => exact .call rfl

theorem Tracked.enter_cases (h : Tracked s) {alloc : Bool}
    (hsys : s.sys.step (.enter t alloc) = some (sys, marks)) :
    TimedStep s (.act (.enter t alloc)) ⟨sys, s.note (.enter t alloc)⟩ [] := by
  simp only [QueueSys.step] at hsys
  split at hsys
  · next call hat =>
    have hcall := h t
    rw [hat] at hcall
    obtain ⟨rfl, -⟩ := Prod.mk.inj (Option.some.inj hsys)
    cases call with
    | get timeout =>
      obtain ⟨found, hc⟩ := hcall
      have henter := @TimedStep.enter _ s t alloc timeout (by rw [hc]; rfl)
      simpa only [note, hc, Option.map_some, QueueSys.enter, QueueSys.getStretch_fst, move]
        using henter
    | push body =>
      have hnone : s.calls t = none := hcall
      simp only [note, hnone, Option.map_none]
      cases alloc <;> exact .change hnone
    | stop =>
      have hnone : s.calls t = none := hcall
      simp only [note, hnone, Option.map_none]
      exact .change hnone
  · cases hsys

theorem Tracked.wake_cases (h : Tracked s) {waitR : ℤ} (hallowed : s.Allowed (.wake t waitR))
    (hsys : s.sys.step (.wake t waitR) = some (sys, marks)) :
    TimedStep s (.act (.wake t waitR)) ⟨sys, s.note (.wake t waitR)⟩ [] := by
  simp only [QueueSys.step] at hsys
  split at hsys
  · next hat =>
    have hcall := h t
    rw [hat] at hcall
    obtain ⟨c, hc, htimeout⟩ := hcall
    obtain rfl : (s.sys.getStretch t (epQueueGetWake s.sys.q waitR)).1 = sys :=
      congrArg Prod.fst (Option.some.inj hsys)
    have hwait : waitR ≠ 0 → c.expired = true := by simpa [Allowed, hc] using hallowed
    have hwake := TimedStep.wake (s := s) (t := t) hwait htimeout
    simpa only [note, hc, Option.map_some, QueueSys.getStretch_fst, move] using hwake
  · cases hsys

theorem ret_cases (hsys : s.sys.step (.ret t) = some (sys, marks)) :
    TimedStep s (.act (.ret t)) ⟨sys, s.note (.ret t)⟩ (s.returns (.ret t)) := by
  simp only [QueueSys.step] at hsys
  split at hsys <;> cases hsys
  next code body hat =>
  have hret := TimedStep.ret hat
  cases hc : s.calls t with
  | none => simpa only [note, move, returns, hat, hc, Option.toList_none, List.map_nil] using hret
  | some c =>
    simpa only [note, move, returns, hat, hc, Option.toList_some, List.map_cons,
      List.map_nil] using hret

end Act

theorem Tracked.step_cases (h : Tracked s) (hstep : s.step e = some (s', new)) :
    TimedStep s e s' new := by
  cases e with
  | expire t => exact expire_cases hstep
  | act a =>
    simp only [step] at hstep
    split_ifs at hstep with hallowed
    obtain ⟨⟨sys, marks⟩, hsys, heq⟩ := Option.map_eq_some_iff.mp hstep
    obtain ⟨rfl, rfl⟩ := Prod.mk.inj heq
    cases a with
    | call t call => exact call_cases hsys
    | enter t alloc => exact h.enter_cases hsys
    | wake t waitR => exact h.wake_cases hallowed hsys
    | ret t => exact ret_cases hsys

/-- The other threads and their calls stay as they are. -/
theorem Tracked.move (h : Tracked s) {q : EpQueue β} {t : ℕ} {at' : QueueThread β}
    {c : Option (GetCall β)} (hc : Tracks at' c) : Tracked (s.move q t at' c) := by
  intro u
  by_cases hu : u = t
  · subst hu
    simpa [TimedSys.move, QueueSys.put] using hc
  · simpa [TimedSys.move, QueueSys.put, hu] using h u

theorem tracks_thread {r : GetEnd β} {c : GetCall β} (h : c.expired = true → 0 ≤ c.timeout) :
    Tracks r.thread (some c) := by
  cases r with
  | ret code body => trivial
  | wait => exact ⟨c, rfl, h⟩

theorem Tracked.step (h : Tracked s) (hstep : s.step e = some (s', new)) : Tracked s' := by
  cases h.step_cases hstep with
  | call hc => exact h.move hc
  | change hnone => exact h.move trivial
  | enter hsome => exact h.move (tracks_thread fun hexp => (of_decide_eq_true hexp).ge)
  | wake hwait htimeout => exact h.move (tracks_thread htimeout)
  | ret hat => exact h.move trivial
  | expire hat htimeout => exact h.move ⟨_, rfl, fun _ => htimeout.le⟩

/-! ## What the codes mean -/

theorem means_enter {q : EpQueue β} {timeout code : ℤ} {body : Option β}
    (hclear : ¬ (q.queue = [] ∧ q.stopSign = true))
    (h : (epQueueGetEnter q timeout).2 = .ret code body) :
    GetReturn.Means ⟨code, body, ⟨timeout, timeout = 0, q⟩⟩ := by
  unfold epQueueGetEnter at h
  split at h
  · next b queue hq =>
    cases h
    exact ⟨.inl ⟨rfl, rfl⟩, fun hnil => nomatch hq.symm.trans hnil⟩
  · next hq =>
    split_ifs at h with hstop htimeout <;> cases h
    · exact absurd ⟨hq, hstop⟩ hclear
    · exact ⟨.inr (.inr ⟨rfl, hq, Bool.eq_false_iff.mpr hstop, htimeout.ge, decide_eq_true htimeout⟩),
        fun _ h => absurd h hstop⟩

theorem means_wake {q : EpQueue β} {waitR code : ℤ} {body : Option β} {c : GetCall β}
    (hclear : ¬ (waitR = 0 ∧ q.queue = [] ∧ q.stopSign = false))
    (hwait : waitR ≠ 0 → c.expired = true) (htimeout : c.expired = true → 0 ≤ c.timeout)
    (h : (epQueueGetWake q waitR).2 = .ret code body) :
    GetReturn.Means ⟨code, body, { c with found := q }⟩ := by
  unfold epQueueGetWake at h
  split at h
  · next hstop =>
    cases h
    exact ⟨.inr (.inl ⟨rfl, hstop⟩), fun _ _ => rfl⟩
  · next hstop =>
    split at h
    · next hq =>
      split_ifs at h with hwaitR <;> cases h
      · exact ⟨.inr (.inr ⟨rfl, hq, Bool.eq_false_iff.mpr hstop, htimeout (hwait hwaitR),
          hwait hwaitR⟩), fun _ h => absurd h hstop⟩
      · exact absurd ⟨not_not.mp hwaitR, hq, Bool.eq_false_iff.mpr hstop⟩ hclear
    · next b queue hq =>
      cases h
      exact ⟨.inl ⟨rfl, rfl⟩, fun hnil => nomatch hq.symm.trans hnil⟩

theorem GetEnd.thread_eq {r : GetEnd β} {code : ℤ} {body : Option β} :
    r.thread = .leaving code body ↔ r = .ret code body := by
  cases r <;> simp [GetEnd.thread]

/-- The codes that are about to be returned, and those that were, mean what they say. -/
structure Meant (s : TimedSys β) (returned : List (GetReturn β)) : Prop where
  tracked : Tracked s
  leaving : ∀ t code body c, s.sys.threads t = .leaving code body → s.calls t = some c →
    GetReturn.Means ⟨code, body, c⟩
  returned : ∀ r ∈ returned, r.Means

section Meaning

variable {marks : List (GetReturn β)}

theorem Meant.leaving_move (h : Meant s marks) {q : EpQueue β} {t : ℕ} {at' : QueueThread β}
    {c : Option (GetCall β)}
    (hmeans : ∀ code body c', at' = .leaving code body → c = some c' →
      GetReturn.Means ⟨code, body, c'⟩) :
    ∀ u code body c', (s.move q t at' c).sys.threads u = .leaving code body →
      (s.move q t at' c).calls u = some c' → GetReturn.Means ⟨code, body, c'⟩ := by
  intro u code body c' hat hc
  by_cases hu : u = t
  · subst hu
    exact hmeans code body c' (by simpa [TimedSys.move, QueueSys.put] using hat)
      (by simpa [TimedSys.move] using hc)
  · exact h.leaving u code body c' (by simpa [TimedSys.move, QueueSys.put, hu] using hat)
      (by simpa [TimedSys.move, hu] using hc)

theorem Meant.step (h : Meant s marks) (hclear : s.Clear e) (hstep : s.step e = some (s', new)) :
    Meant s' (marks ++ new) := by
  have htracked := h.tracked.step hstep
  have hquiet : ∀ r ∈ marks ++ [], r.Means := by simpa using h.returned
  cases h.tracked.step_cases hstep with
  | call hc => exact ⟨htracked, h.leaving_move fun _ _ _ hat => (nomatch hat), hquiet⟩
  | change hnone => exact ⟨htracked, h.leaving_move fun _ _ _ _ hc => (nomatch hc), hquiet⟩
  | enter hsome =>
    refine ⟨htracked, h.leaving_move fun code body c hat hc => ?_, hquiet⟩
    obtain rfl := Option.some.inj hc
    exact means_enter (hclear hsome) (GetEnd.thread_eq.mp hat)
  | wake hwait htimeout =>
    refine ⟨htracked, h.leaving_move fun code body c hat hc => ?_, hquiet⟩
    obtain rfl := Option.some.inj hc
    exact means_wake hclear hwait htimeout (GetEnd.thread_eq.mp hat)
  | @ret t code body hat =>
    refine ⟨htracked, h.leaving_move fun _ _ _ hat => (nomatch hat), ?_⟩
    intro r hr
    rcases List.mem_append.mp hr with hr | hr
    · exact h.returned r hr
    · obtain ⟨c, hc, rfl⟩ := List.mem_map.mp hr
      exact h.leaving t code body c hat (Option.mem_toList.mp hc)
  | expire hat htimeout =>
    exact ⟨htracked, h.leaving_move fun _ _ _ hat => (nomatch hat), hquiet⟩

/-- A thread that is about to return a code returns it. -/
theorem exists_return {q : EpQueue β} {t : ℕ} {code : ℤ} {body : Option β} {c : GetCall β}
    (hno : ¬ GetReturn.Means ⟨code, body, c⟩) :
    ∃ r, Reaches (traced TimedSys.step) anyStep
      (s.move q t (.leaving code body) (some c), marks) r ∧ ∃ m ∈ r.2, ¬ m.Means := by
  have hstep : (s.move q t (.leaving code body) (some c)).step (.act (.ret t)) =
      some (s.move q t .idle none, [⟨code, body, c⟩]) := by
    simp [TimedSys.step, TimedSys.Allowed, QueueSys.step, TimedSys.move, QueueSys.put,
      TimedSys.note, TimedSys.returns]
  exact ⟨_, .tail .refl trivial (traced_eq_some.mpr ⟨_, hstep, rfl⟩),
    _, List.mem_append_right _ (List.mem_singleton_self _), hno⟩

/-- Where a step is not clear, its thread returns a code that does not mean what it says. -/
theorem Tracked.exists_return (h : Tracked s) (hstep : s.step e = some (s', new))
    (hno : ¬ s.Clear e) :
    ∃ r, Reaches (traced TimedSys.step) anyStep (s', marks ++ new) r ∧ ∃ m ∈ r.2, ¬ m.Means := by
  cases h.step_cases hstep with
  | change hnone => exact absurd (fun hsome => by rw [hnone] at hsome; cases hsome) hno
  | @enter t alloc timeout hsome =>
    have hboth : s.sys.q.queue = [] ∧ s.sys.q.stopSign = true := by
      by_contra hclear
      exact hno fun _ => hclear
    have hend : (epQueueGetEnter s.sys.q timeout).2 = .ret 0 none := by
      simp [epQueueGetEnter, hboth]
    rw [hend]
    refine TimedSys.exists_return fun hmeans => ?_
    cases hmeans.stopped hboth.1 hboth.2
  | @wake t waitR c hwait htimeout =>
    obtain ⟨rfl, hq, hstop⟩ := not_not.mp hno
    have hend : (epQueueGetWake s.sys.q 0).2 = .ret (-1) none := by
      simp [epQueueGetWake, hq, hstop]
    rw [hend]
    refine TimedSys.exists_return fun hmeans => ?_
    obtain ⟨hcode, -⟩ | ⟨-, hstopped⟩ | ⟨hcode, -⟩ := hmeans.code
    · cases hcode
    · cases hstop.symm.trans hstopped
    · cases hcode
  | _ => exact absurd trivial hno

end Meaning

end TimedSys

/-- Over every interleaving of any number of threads: if every step is clear, every code that
`ep_queue_get` has returned means what it says, and every run with a step that is not clear
goes on to the return of a code that does not. -/
theorem epQueueGet_means :
    (∀ (s : TimedSys β) returned, Reaches (traced TimedSys.step) (fun s e => s.1.Clear e)
      (.start, []) (s, returned) → ∀ r ∈ returned, r.Means) ∧
    (∀ (s : TimedSys β) returned e s' returned',
      Reaches (traced TimedSys.step) anyStep (.start, []) (s, returned) →
      traced TimedSys.step (s, returned) e = some (s', returned') → ¬ s.Clear e →
        ∃ r, Reaches (traced TimedSys.step) anyStep (s', returned') r ∧ ∃ m ∈ r.2, ¬ m.Means) := by
  constructor
  · intro s returned hrun
    have hinit : TimedSys.Meant (TimedSys.start : TimedSys β) [] :=
      ⟨.start, fun _ _ _ _ hat => (nomatch hat), by simp⟩
    refine (hrun.invariant (P := fun r => TimedSys.Meant r.1 r.2) hinit ?_).returned
    rintro ⟨s, w⟩ e ⟨s', w'⟩ hmeant hclear hstep
    obtain ⟨new, hreport, rfl⟩ := traced_eq_some.mp hstep
    exact hmeant.step hclear hreport
  · intro s returned e s' returned' hrun hstep hno
    have htracked : TimedSys.Tracked s := by
      refine hrun.invariant (P := fun r => TimedSys.Tracked r.1) TimedSys.Tracked.start ?_
      rintro ⟨s, w⟩ e ⟨s', w'⟩ h - hstep
      obtain ⟨new, hreport, rfl⟩ := traced_eq_some.mp hstep
      exact h.step hreport
    obtain ⟨new, hreport, rfl⟩ := traced_eq_some.mp hstep
    exact htracked.exists_return hreport hno

/-- One consumer waits for a second and gives up, and the next one is told that the queue was
stopped. -/
theorem epQueueGet_means_stopped :
    ∃ (s : TimedSys ℕ) (returned : List (GetReturn ℕ)),
      Reaches (traced TimedSys.step) (fun s e => s.1.Clear e) (.start, []) (s, returned) ∧
        returned.map (·.code) = [0, -1] ∧ ∀ r ∈ returned, r.Means := by
  have hrun : Reaches (traced TimedSys.step) (fun s e => s.1.Clear e)
      ((.start, []) : TimedSys ℕ × List (GetReturn ℕ)) _ :=
    reaches_of_exec [.act (.call 0 (.get 1)), .act (.enter 0 true), .expire 0, .act (.wake 0 1),
      .act (.ret 0), .act (.call 1 (.get (-1))), .act (.enter 1 true), .act (.call 2 .stop),
      .act (.enter 2 true), .act (.wake 1 0), .act (.ret 1)] rfl
  exact ⟨_, _, hrun, rfl, epQueueGet_means.1 _ _ hrun⟩

/-- A call on a queue that is stopped and empty returns 0; and of two consumers that a push
wakes, the one that comes too late returns -1, though nobody stopped the queue. -/
theorem epQueueGet_stopped_zero :
    (∃ (s : TimedSys ℕ) (r : GetReturn ℕ),
      Reaches (traced TimedSys.step) anyStep (.start, []) (s, [r]) ∧ r.code = 0 ∧
        r.call.timeout = -1 ∧ r.call.found.stopSign = true ∧ ¬ r.Means) ∧
    ∃ (s : TimedSys ℕ) (r : GetReturn ℕ),
      Reaches (traced TimedSys.step) anyStep (.start, []) (s, [r]) ∧ r.code = -1 ∧
        s.sys.q.stopSign = false ∧ ¬ r.Means := by
  constructor
  · refine ⟨_, _, reaches_of_exec
      [.act (.call 0 .stop), .act (.enter 0 true), .act (.call 1 (.get (-1))),
        .act (.enter 1 true), .act (.ret 1)] rfl, rfl, rfl, rfl, fun hmeans => ?_⟩
    exact nomatch hmeans.stopped rfl rfl
  · refine ⟨_, _, reaches_of_exec
      [.act (.call 0 (.get (-1))), .act (.enter 0 true), .act (.call 1 (.get (-1))),
        .act (.enter 1 true), .act (.call 2 (.push 7)), .act (.enter 2 true), .act (.wake 0 0),
        .act (.wake 1 0), .act (.ret 1)] rfl, rfl, rfl, fun hmeans => ?_⟩
    obtain ⟨hcode, -⟩ | ⟨-, hstopped⟩ | ⟨hcode, -⟩ := hmeans.code
    · cases hcode
    · cases hstopped
    · cases hcode

end Youmenu.Eventpack
