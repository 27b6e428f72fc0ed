import Youmenu.Eventpack.SendQueues
import Youmenu.Lib.Custody

/-!
# Who owns a queued buffer

A buffer is an object on the heap, and the queue of a connection holds a pointer to it.
Whoever takes the pointer out of a queue releases the buffer: the send thread with
`ep_buffer_free_shell`, `ep_io_del` and `ep_io_destroy` with `ep_buffer_free`. The
buffers are followed through the transitions of the send path: the places of the ledger
are the addresses of the connections, and what is spent has been released.

## Main definitions

* `custodyStep`, `stepOwned` — what a step does to the buffers.
* `Alone` — a notification goes to one connection at most.
* `Matches` — the ledger has a buffer for each frame of a queue.
-/

namespace Youmenu.Eventpack

open Transition Custody

/-! ## The buffers along a run -/

namespace SendMgr

variable (s : SendMgr) (l : Ledger ℕ)

/-- `ep_queue_get` on the queue of the connection with the descriptor. -/
def takeFrom (fd : ℤ) : Ledger ℕ :=
  match s.epIoFind fd with
  | none => l
  | some c => l.take c.io

/-- The end of `ep_io_del`: the queue of the connection is stopped and emptied. -/
def discardFrom (fd : ℤ) : Ledger ℕ :=
  match s.epIoFind fd with
  | none => l
  | some c => l.discard c.io

/-- A reply and the frame of a notification are new buffers. -/
def custodyStep : SendAct → Ledger ℕ
  | .add fd io =>
    match s.epIoFind fd with
    | some _ => l
    | none => l.clear io
  | .reply fd _ =>
    match s.epIoFind fd with
    | some child => l.issue [child.io]
    | none => l.waste
  | .nodify curfd notifyType _ =>
    l.issue ((s.ioList.filter (SendIo.Notified curfd notifyType)).map SendIo.io)
  | .del fd => s.discardFrom l fd
  | .routine junk r _ =>
    match s.routine with
    | .getting _ fd => s.takeFrom l fd
    | .sending io frame =>
      if (s.refor.send r frame).closed then s.discardFrom l (s.fdOf io junk) else l
    | .closing io => s.discardFrom l (s.fdOf io junk)
    | _ => l
  | .destroy _ =>
    match s.destroyer with
    | .joining => s.ioList.foldl (fun l c => l.discard c.io) l
    | .getting _ fd => s.takeFrom l fd
    | _ => l

end SendMgr

def stepOwned (o : SendMgr × Ledger ℕ) (act : SendAct) : Option (SendMgr × Ledger ℕ) :=
  (o.1.step act).map fun r => (r.1, o.1.custodyStep o.2 act)

/-- A notification that selects one connection at most. -/
def Alone (o : SendMgr × Ledger ℕ) : SendAct → Prop
  | .nodify curfd notifyType _ =>
    (o.1.ioList.filter (SendIo.Notified curfd notifyType)).length ≤ 1
  | _ => True

instance (o : SendMgr × Ledger ℕ) : DecidablePred (Alone o)
  | .nodify _ _ _ => inferInstanceAs (Decidable (_ ≤ _))
  | .add _ _ | .reply _ _ | .del _ | .routine _ _ _ | .destroy _ => .isTrue trivial

theorem stepOwned_eq_some {s s' : SendMgr} {l l' : Ledger ℕ} {act : SendAct} :
    stepOwned (s, l) act = some (s', l') ↔
      (∃ marks, s.step act = some (s', marks)) ∧ l' = s.custodyStep l act := by
  simp only [stepOwned, Option.map_eq_some_iff, Prod.exists, Prod.mk.injEq]
  constructor
  · rintro ⟨t, marks, hstep, rfl, rfl⟩
    exact ⟨⟨marks, hstep⟩, rfl⟩
  · rintro ⟨⟨marks, hstep⟩, rfl⟩
    exact ⟨s', marks, hstep, rfl, rfl⟩

/-! ## One owner -/

section Sole

variable {s : SendMgr} {l : Ledger ℕ}

theorem SendMgr.sole_takeFrom (h : l.Sole) (fd : ℤ) : (s.takeFrom l fd).Sole := by
  unfold takeFrom
  split
  · exact h
  · exact h.take _

theorem SendMgr.sole_discardFrom (h : l.Sole) (fd : ℤ) : (s.discardFrom l fd).Sole := by
  unfold discardFrom
  split
  · exact h
  · exact h.discard _

theorem sole_foldl_discard (cs : List SendIo) (h : l.Sole) :
    (cs.foldl (fun l c => l.discard c.io) l).Sole := by
  induction cs generalizing l with
  | nil => exact h
  | cons c cs ih => exact ih (h.discard c.io)

theorem SendMgr.sole_custodyStep {act : SendAct} (h : l.Sole) (hok : Alone (s, l) act) :
    (s.custodyStep l act).Sole := by
  cases act with
  | add fd io =>
    simp only [custodyStep]
    split
    · exact h
    · exact h.clear io
  | reply fd body =>
    simp only [custodyStep]
    split
    · exact h.issue (Nat.le_refl 1)
    · exact h.waste
  | nodify curfd notifyType input => exact h.issue (by rw [List.length_map]; exact hok)
  | del fd => exact sole_discardFrom h fd
  | routine junk r wake =>
    simp only [custodyStep]
    split
    · exact sole_takeFrom h _
    · split_ifs
      · exact sole_discardFrom h _
      · exact h
    · exact sole_discardFrom h _
    · exact h
  | destroy junk =>
    simp only [custodyStep]
    split
    · exact sole_foldl_discard s.ioList h
    · exact sole_takeFrom h _
    · exact h

end Sole

/-! ## The ledger follows the queues -/

/-- Every queue of a connection holds as many buffers as frames. -/
def Matches (s : SendMgr) (l : Ledger ℕ) : Prop :=
  ∀ c ∈ s.ioList, (l.held c.io).length = c.send.length

section Matches

variable {s s' : SendMgr} {l : Ledger ℕ} {fd junk r : ℤ}

theorem Matches.keep (h : Matches s l) (hlist : s'.ioList = s.ioList) : Matches s' l := by
  rw [Matches, hlist]
  exact h

/-- Posting a frame to the connections that `p` selects, with a buffer for each. -/
theorem Matches.post (h : Matches s l) (p : SendIo → Bool) (frame : List UInt8) {l' : Ledger ℕ}
    (hheld : ∀ c ∈ s.ioList, (l'.held c.io).length =
      (l.held c.io).length + if p c then 1 else 0) : Matches (s.post p frame).1 l' := by
  intro c hc
  obtain ⟨x, hx, rfl⟩ := List.mem_map.mp hc
  have hlen := hheld x hx
  rw [h x hx] at hlen
  split_ifs at hlen ⊢
  · rw [SendIo.push, List.length_append]
    exact hlen
  · exact hlen

theorem Matches.issue (h : Matches s l) (hwf : s.Wf) (p : SendIo → Bool) (frame : List UInt8) :
    Matches (s.post p frame).1 (l.issue ((s.ioList.filter p).map SendIo.io)) := by
  refine h.post p frame fun c hc => ?_
  have hmem : c.io ∈ (s.ioList.filter p).map SendIo.io ↔ p c = true := by
    constructor
    · intro hio
      obtain ⟨x, hx, heq⟩ := List.mem_map.mp hio
      obtain ⟨hxmem, hxp⟩ := List.mem_filter.mp hx
      rwa [← hwf.eq_of_io hxmem hc heq]
    · exact fun hp => List.mem_map_of_mem (List.mem_filter.mpr ⟨hc, hp⟩)
  by_cases hp : p c = true
  · simp [Ledger.issue, hmem.mpr hp, hp]
  · simp [Ledger.issue, mt hmem.mp hp, hp]

theorem Matches.reply (h : Matches s l) (hwf : s.Wf) (body : List UInt8) :
    Matches (s.reply fd body).1 (s.custodyStep l (.reply fd body)) := by
  rw [hwf.reply_eq]
  simp only [SendMgr.custodyStep]
  split
  · next child hfind =>
    obtain ⟨hmem, rfl⟩ := SendMgr.mem_of_epIoFind hfind
    have hissue := h.issue hwf (fun c => c.fd = child.fd) body
    rwa [filter_fd hwf.fd_nodup hmem, List.map_singleton] at hissue
  · next hfind =>
    refine h.post _ body fun c hc => ?_
    simp [Ledger.waste, SendMgr.epIoFind_eq_none hfind hc]

theorem Matches.del (h : Matches s l) (hwf : s.Wf) (fd : ℤ) :
    Matches (s.epIoDel fd) (s.discardFrom l fd) := by
  intro c hc
  rw [SendMgr.epIoDel, eraseP_fd_eq_filter hwf.fd_nodup] at hc
  obtain ⟨hmem, hne⟩ := List.mem_filter.mp hc
  unfold SendMgr.discardFrom
  split
  · exact h c hmem
  · next c' hfind =>
    obtain ⟨hmem', hfd⟩ := SendMgr.mem_of_epIoFind hfind
    have hio : c.io ≠ c'.io := fun heq => by
      rw [hwf.eq_of_io hmem hmem' heq] at hne
      simp [hfd] at hne
    simpa [Ledger.discard, hio] using h c hmem

theorem Matches.get (h : Matches s l) (hwf : s.Wf) {frame : List UInt8}
    (hget : s.epIoGet fd = some (s', frame)) : Matches s' (s.takeFrom l fd) := by
  obtain ⟨c, hc, rfl, hsend, rfl⟩ := hwf.epIoGet_eq_some hget
  rw [SendMgr.takeFrom, hwf.epIoFind_eq hc]
  intro c' hc'
  obtain ⟨x, hx, rfl⟩ := List.mem_map.mp hc'
  by_cases hfd : x.fd = c.fd
  · obtain rfl := hwf.eq_of_fd hx hc hfd
    simp [Ledger.take, SendIo.pop, h x hx]
  · have hio : x.io ≠ c.io := fun heq => hfd (by rw [hwf.eq_of_io hx hc heq])
    simpa [Ledger.take, hfd, hio] using h x hx

/-- A queue without a frame gives up nothing. -/
theorem Matches.takeFrom_none (h : Matches s l) (hwf : s.Wf) (hget : s.epIoGet fd = none) :
    s.takeFrom l fd = l := by
  unfold SendMgr.takeFrom
  split
  · rfl
  · next c hfind =>
    obtain ⟨hmem, hfd⟩ := SendMgr.mem_of_epIoFind hfind
    have hempty : l.held c.io = [] := by
      rw [← List.length_eq_zero_iff, h c hmem, hwf.epIoGet_eq_none (hfd ▸ hget) hmem]
      rfl
    have hupdate : Function.update l.held c.io [] = l.held := by
      rw [← hempty, Function.update_eq_self]
    simp [Ledger.take, hempty, hupdate]

theorem Matches.routine (h : Matches s l) (hwf : s.Wf) {marks : List Mark} (wake : Bool)
    (hstep : RoutineStep s junk r s' marks) :
    Matches s' (s.custodyStep l (.routine junk r wake)) := by
  cases hstep with
  | test hr | wake hr | dequeue hr | read hr =>
    simp only [SendMgr.custodyStep, hr]
    exact h.keep rfl
  | empty hr hget =>
    simp only [SendMgr.custodyStep, hr, h.takeFrom_none hwf hget]
    exact h.keep rfl
  | take hr hget =>
    simp only [SendMgr.custodyStep, hr]
    exact (h.get hwf hget).keep rfl
  | sent hr hcode =>
    simp only [SendMgr.custodyStep, hr, EpIoRefor.closed_of_code hcode]
    exact h.keep rfl
  | failed hr hcode =>
    simp only [SendMgr.custodyStep, hr]
    split_ifs
    · exact (h.del hwf _).keep rfl
    · exact h.keep rfl
  | close hr =>
    simp only [SendMgr.custodyStep, hr]
    exact (h.del hwf _).keep rfl

theorem Matches.destroy (h : Matches s l) (hwf : s.Wf) (junk : ℤ) (hstep : DestroyStep s s') :
    Matches s' (s.custodyStep l (.destroy junk)) := by
  cases hstep with
  | stop hd | finish hd | dequeue hd | read _ hd =>
    simp only [SendMgr.custodyStep, hd]
    exact h.keep rfl
  | free hd => nofun
  | empty hd hget =>
    simp only [SendMgr.custodyStep, hd, h.takeFrom_none hwf hget]
    exact h.keep rfl
  | take hd hget =>
    simp only [SendMgr.custodyStep, hd]
    exact (h.get hwf hget).keep rfl

theorem Matches.add (h : Matches s l) {io : ℕ} {marks : List Mark}
    (hadd : s.epIoAdd fd io = some (s', marks)) : Matches s' (s.custodyStep l (.add fd io)) := by
  unfold SendMgr.epIoAdd at hadd
  simp only [SendMgr.custodyStep]
  cases hfind : s.epIoFind fd with
  | some c =>
    simp only [hfind] at hadd
    cases hadd
    exact h
  | none =>
    simp only [hfind] at hadd
    split_ifs at hadd with hlive
    cases hadd
    intro c hc
    rcases List.mem_append.mp hc with hc | hc
    · have hio : c.io ≠ io := fun heq => hlive ⟨c, hc, heq⟩
      simpa [Ledger.clear, hio] using h c hc
    · rw [List.mem_singleton.mp hc]
      simp [Ledger.clear]

theorem Matches.step {act : SendAct} {marks : List Mark} (h : Matches s l) (hwf : s.Wf)
    (hstep : s.step act = some (s', marks)) : Matches s' (s.custodyStep l act) := by
  obtain ⟨-, hact⟩ := SendMgr.step_eq_some hstep
  cases act with
  | add fd io => exact h.add hact
  | reply fd body => exact (Prod.mk.inj hact).1 ▸ h.reply hwf body
  | nodify curfd notifyType input => exact (Prod.mk.inj hact).1 ▸ h.issue hwf _ input
  | del fd => exact hact.1 ▸ h.del hwf fd
  | routine junk r wake => exact h.routine hwf wake hact
  | destroy junk => exact h.destroy hwf junk hact.1

end Matches

/-- As long as every notification selects one connection at most, each buffer is in one
position of one queue at most, no buffer is released twice, and none is in a queue once it
is released. -/
theorem buffers_one_owner (refor : EpIoRefor) (s : SendMgr) (l : Ledger ℕ)
    (h : Reaches stepOwned Alone (SendMgr.start refor, Ledger.empty) (s, l)) :
    (∀ c ∈ s.ioList, (l.held c.io).length = c.send.length) ∧
    (∀ io, (l.held io).Nodup) ∧
    (∀ io io' b, b ∈ l.held io → b ∈ l.held io' → io = io') ∧
    l.spent.Nodup ∧ ∀ io, ∀ b ∈ l.held io, b ∉ l.spent := by
  obtain ⟨-, hmatches, hsole⟩ : s.Wf ∧ Matches s l ∧ l.Sole := by
    refine h.invariant (P := fun o => o.1.Wf ∧ Matches o.1 o.2 ∧ o.2.Sole)
      ⟨SendMgr.wf_start refor, nofun, .empty⟩ ?_
    rintro ⟨s, l⟩ act ⟨s', l'⟩ ⟨hwf, hmatches, hsole⟩ hok hstep
    obtain ⟨⟨marks, hreport⟩, rfl⟩ := stepOwned_eq_some.mp hstep
    exact ⟨hwf.step hreport, hmatches.step hwf hreport, SendMgr.sole_custodyStep hsole hok⟩
  exact ⟨hmatches, hsole.nodup, hsole.apart, hsole.spent, hsole.kept⟩

/-- Two connections, a reply to the first and a notification of the second alone; the
thread sends the reply, and the second connection is deleted. -/
theorem buffers_one_owner_two :
    ∃ s l, Reaches stepOwned Alone (SendMgr.start .server, Ledger.empty) (s, l) ∧
      l.spent = [0, 1] ∧ l.spent.Nodup := by
  have hrun : Reaches stepOwned Alone (SendMgr.start .server, Ledger.empty) _ :=
    reaches_of_exec [.add 5 0, .add 6 1, .reply 5 [1, 2], .nodify 6 1 [3], .routine 0 0 false,
      .routine 0 0 false, .routine 0 0 false, .routine 0 0 false, .routine 0 2 false, .del 6] rfl
  obtain ⟨-, -, -, hspent, -⟩ := buffers_one_owner .server _ _ hrun
  exact ⟨_, _, hrun, rfl, hspent⟩

/-- A notification of both connections puts one buffer into two queues; the thread
releases it after the first, and again after the second. -/
theorem buffer_released_twice :
    (∃ s l, Reaches stepOwned anyStep (SendMgr.start .server, Ledger.empty) (s, l) ∧
      s.Live 0 ∧ s.Live 1 ∧ l.held 0 = [0] ∧ l.held 1 = [0]) ∧
    ∃ s l, Reaches stepOwned anyStep (SendMgr.start .server, Ledger.empty) (s, l) ∧
      l.spent = [0, 0] := by
  refine ⟨⟨_, _, reaches_of_exec [.add 5 0, .add 6 1, .nodify 5 0 [1, 2]] rfl, by decide, by decide,
    rfl, rfl⟩, ⟨_, _, reaches_of_exec [.add 5 0, .add 6 1, .nodify 5 0 [1, 2], .routine 0 0 false,
      .routine 0 0 false, .routine 0 0 false, .routine 0 0 false, .routine 0 2 false,
      .routine 0 0 false, .routine 0 0 false, .routine 0 0 false, .routine 0 0 false,
      .routine 0 0 false, .routine 0 0 false] rfl, rfl⟩⟩

end Youmenu.Eventpack
