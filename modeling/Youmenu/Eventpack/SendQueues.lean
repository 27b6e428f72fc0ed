import Youmenu.Eventpack.Sending

/-!
# Frames and handles in the queues of the send path

The thread empties the queue of a connection for one handle, however many handles
of that connection are in the queue of the manager. Nothing is left behind by this:
a producer posts the handle together with the frame, and the thread leaves the drain
loop only after it has seen the queue empty, under the lock that the producers take.

The handles themselves fare worse, because releasing a connection leaves its handles
where they are. As long as none is released while it is in use, a frame goes to the socket
of the connection that it was pushed to.

## Main definitions

* `SendMgr.Covered` — every waiting frame is within reach of the thread.
* `since` — what a history says about a connection since it was added.
* `SendMgr.HandlesLive` — no handle in use points to a released connection.
-/

namespace Youmenu.Eventpack

open Transition

/-! ## What a history records -/

section History

variable {α : Type}

def Mark.pushedTo (fd : ℤ) : Mark → List (List UInt8)
  | .pushed fd' frame => if fd' = fd then [frame] else []
  | _ => []

def Mark.takenFrom (fd : ℤ) : Mark → List (List UInt8)
  | .taken fd' frame => if fd' = fd then [frame] else []
  | _ => []

/-- The frame that left a queue, whichever it was. -/
def Mark.anyTaken : Mark → List (List UInt8)
  | .taken _ frame => [frame]
  | _ => []

/-- The frame that was handed to `send->send`. -/
def Mark.anySent : Mark → List (List UInt8)
  | .wrote _ frame _ => [frame]
  | _ => []

/-- Collect `f` over a history, starting again whenever `fd` is added. -/
def since (fd : ℤ) (f : Mark → List α) (w : List Mark) : List α :=
  w.foldl (fun acc m => if m = .added fd then [] else acc ++ f m) []

theorem since_append_of_not_added {fd : ℤ} {f : Mark → List α} {w new : List Mark}
    (h : .added fd ∉ new) : since fd f (w ++ new) = since fd f w ++ new.flatMap f := by
  rw [since, List.foldl_append, ← since]
  generalize since fd f w = acc
  induction new generalizing acc with
  | nil => simp
  | cons m new ih =>
    have hm : m ≠ .added fd := fun hm => h (hm ▸ List.mem_cons_self ..)
    rw [List.foldl_cons, if_neg hm, ih fun hnew => h (List.mem_cons_of_mem _ hnew)]
    simp

@[simp] theorem since_added (fd : ℤ) (f : Mark → List α) (w : List Mark) :
    since fd f (w ++ [.added fd]) = [] := by
  simp [since]

theorem since_singleton {fd : ℤ} {f : Mark → List α} {w : List Mark} {m : Mark}
    (h : m ≠ .added fd) : since fd f (w ++ [m]) = since fd f w ++ f m := by
  rw [since_append_of_not_added (by simpa using Ne.symm h)]
  simp

end History

/-! ## Frames -/

/-- The thread is in the drain loop of the connection. -/
def Routine.Drains (c : SendIo) : Routine → Prop
  | .reading io => io = c.io
  | .getting io fd => io = c.io ∧ fd = c.fd
  | .sending io _ => io = c.io
  | _ => False

/-- The frame that the thread has taken and not yet sent. -/
def Routine.inHand : Routine → List (List UInt8)
  | .sending _ frame => [frame]
  | _ => []

def SendMgr.Covered (s : SendMgr) : Prop :=
  ∀ c ∈ s.ioList, c.send ≠ [] → c.io ∈ s.queue ∨ s.routine.Drains c

/-- A connection's frames have left its queue in the order they came, and the rest waits. -/
def SendMgr.InOrder (s : SendMgr) (w : List Mark) : Prop :=
  ∀ c ∈ s.ioList, since c.fd (Mark.pushedTo c.fd) w =
    since c.fd (Mark.takenFrom c.fd) w ++ c.send

/-- Neither `ep_io_destroy` nor a send that fails. -/
def sendsSucceed (s : SendMgr) : SendAct → Bool
  | .destroy _ => false
  | .routine _ r _ =>
    match s.routine with
    | .sending _ frame => 0 < (s.refor.send r frame).code
    | _ => true
  | _ => true

section Frames

variable {s s' : SendMgr} {c : SendIo} {fd junk r : ℤ} {w marks : List Mark}

theorem SendMgr.Covered.add (h : s.Covered) {io : ℕ} (hadd : s.epIoAdd fd io = some (s', marks)) :
    s'.Covered := by
  obtain ⟨rfl, -⟩ | ⟨-, rfl, -⟩ := epIoAdd_cases hadd
  · exact h
  · intro c hc hsend
    rcases List.mem_append.mp hc with hc | hc
    · exact h c hc hsend
    · -- the new connection has nothing to send
      exact absurd (by rw [List.mem_singleton.mp hc]) hsend

theorem SendMgr.Covered.post (h : s.Covered) (p : SendIo → Bool) (frame : List UInt8) :
    (s.post p frame).1.Covered := by
  intro c' hc' hsend
  obtain ⟨c, hc, rfl⟩ := List.mem_map.mp hc'
  simp only [SendMgr.post, List.mem_append, List.mem_map, List.mem_filter] at hsend ⊢
  split_ifs at hsend ⊢ with hp
  · exact .inl (.inr ⟨c, ⟨hc, hp⟩, rfl⟩)
  · exact (h c hc hsend).imp_left .inl

theorem SendMgr.Covered.sublist (h : s.Covered) (hlist : s'.ioList.Sublist s.ioList)
    (hqueue : s'.queue = s.queue) (hdrains : ∀ c ∈ s.ioList, s.routine.Drains c →
      c.send ≠ [] → s'.routine.Drains c) : s'.Covered := by
  intro c hc hsend
  rw [hqueue]
  exact (h c (hlist.subset hc) hsend).imp_right fun hd => hdrains c (hlist.subset hc) hd hsend

/-- The one step that leaves the drain loop has found the queue empty. -/
theorem SendMgr.Covered.routineStep (h : s.Covered) (hwf : s.Wf)
    (hstep : RoutineStep s junk r s' marks)
    (hsends : ∀ io frame, s.routine = .sending io frame → 0 < (s.refor.send r frame).code) :
    s'.Covered := by
  cases hstep with
  | test hr next hnext =>
    exact h.sublist (.refl _) rfl fun c _ hd => by simp [hr, Routine.Drains] at hd
  | wake hr => exact h.sublist (.refl _) rfl fun c _ hd => by simp [hr, Routine.Drains] at hd
  | @dequeue io queue hr hq =>
    intro c hc hsend
    rcases h c hc hsend with hmem | hd
    · rw [hq] at hmem
      exact (List.mem_cons.mp hmem).elim (fun heq => .inr heq.symm) .inl
    · simp [hr, Routine.Drains] at hd
  | @read io hr =>
    refine h.sublist (.refl _) rfl fun c hc hd _ => ?_
    obtain rfl : io = c.io := by simpa [hr, Routine.Drains] using hd
    exact ⟨rfl, hwf.fdOf_eq hc⟩
  | @empty io fd hr hget =>
    refine h.sublist (.refl _) rfl fun c hc hd hsend => ?_
    obtain ⟨rfl, rfl⟩ : io = c.io ∧ fd = c.fd := by simpa [hr, Routine.Drains] using hd
    exact absurd (hwf.epIoGet_eq_none hget hc) hsend
  | @take io fd s₁ frame hr hget =>
    obtain ⟨child, hchild, hfd, hsend, rfl⟩ := hwf.epIoGet_eq_some hget
    intro c' hc' hne
    obtain ⟨c, hc, rfl⟩ := List.mem_map.mp hc'
    have hkeep : (if c.fd = fd then c.pop else c).io = c.io := by split_ifs <;> rfl
    have hold : c.send ≠ [] := by
      split_ifs at hne with hcfd
      · rw [hwf.eq_of_fd hc hchild (hcfd.trans hfd.symm), hsend]
        exact List.cons_ne_nil _ _
      · exact hne
    simp only [Routine.Drains, hkeep]
    refine (h c hc hold).imp_right fun hd => ?_
    simp only [hr, Routine.Drains] at hd
    exact hd.1
  | @sent io frame hr hcode =>
    refine h.sublist (.refl _) rfl fun c _ hd _ => ?_
    simpa [hr, Routine.Drains] using hd
  | @failed io frame hr hcode => exact absurd (hsends io frame hr) (not_lt.mpr hcode)
  | close hr =>
    exact h.sublist (s.epIoDel_sublist _) rfl fun c _ hd => by simp [hr, Routine.Drains] at hd

theorem SendMgr.InOrder.add (h : s.InOrder w) {io : ℕ}
    (hadd : s.epIoAdd fd io = some (s', marks)) : s'.InOrder (w ++ marks) := by
  obtain ⟨rfl, rfl⟩ | ⟨hnew, rfl, rfl⟩ := epIoAdd_cases hadd
  · rwa [List.append_nil]
  · intro c hc
    rcases List.mem_append.mp hc with hc | hc
    · have hne : Mark.added fd ≠ .added c.fd := by
        intro heq
        exact (hnew c hc).1 (Mark.added.inj heq).symm
      rw [since_singleton hne, since_singleton hne, h c hc]
      simp [Mark.pushedTo, Mark.takenFrom]
    · obtain rfl := List.mem_singleton.mp hc
      simp

/-- A post reports pushes only. -/
theorem SendMgr.flatMap_post {α : Type} (s : SendMgr) {p : SendIo → Bool} {frame : List UInt8}
    {f : Mark → List α} (hf : ∀ fd frame, f (.pushed fd frame) = []) :
    (s.post p frame).2.flatMap f = [] := by
  refine List.flatMap_eq_nil_iff.mpr fun m hm => ?_
  obtain ⟨x, -, rfl⟩ := List.mem_map.mp hm
  exact hf _ _

/-- A post pushes to a connection once, or not at all. -/
theorem flatMap_pushedTo_post (hwf : s.Wf) (hc : c ∈ s.ioList) (p : SendIo → Bool)
    (frame : List UInt8) :
    (s.post p frame).2.flatMap (Mark.pushedTo c.fd) = if p c then [frame] else [] := by
  have hfilter : (s.ioList.filter p).filter (fun x => x.fd = c.fd) = [c].filter p := by
    rw [List.filter_filter, ← filter_fd hwf.fd_nodup hc, List.filter_filter]
    exact List.filter_congr fun x _ => Bool.and_comm _ _
  have hflat : ∀ l : List SendIo, (l.map fun x => Mark.pushed x.fd frame).flatMap
      (Mark.pushedTo c.fd) = (l.filter fun x => x.fd = c.fd).map fun _ => frame := by
    intro l
    induction l with
    | nil => rfl
    | cons x l ih =>
      by_cases hx : x.fd = c.fd <;> simp [Mark.pushedTo, hx] at ih ⊢ <;> exact ih
  rw [SendMgr.post, hflat, hfilter]
  split_ifs with hp <;> simp [hp]

theorem SendMgr.InOrder.post (h : s.InOrder w) (hwf : s.Wf) (p : SendIo → Bool)
    (frame : List UInt8) : (s.post p frame).1.InOrder (w ++ (s.post p frame).2) := by
  intro c' hc'
  obtain ⟨c, hc, rfl⟩ := List.mem_map.mp hc'
  have hfd : (if p c then c.push frame else c).fd = c.fd := by split_ifs <;> rfl
  have hsend : (if p c then c.push frame else c).send =
      c.send ++ if p c then [frame] else [] := by
    split_ifs
    · rfl
    · exact (List.append_nil _).symm
  have hadded : .added c.fd ∉ (s.post p frame).2 := by simp [SendMgr.post]
  have htaken : (s.post p frame).2.flatMap (Mark.takenFrom c.fd) = [] :=
    s.flatMap_post fun _ _ => rfl
  rw [hfd, since_append_of_not_added hadded, since_append_of_not_added hadded, htaken,
    flatMap_pushedTo_post hwf hc, h c hc, hsend]
  simp

theorem SendMgr.InOrder.sublist (h : s.InOrder w) (hlist : s'.ioList.Sublist s.ioList)
    (hmarks : ∀ fd, .added fd ∉ marks ∧ marks.flatMap (Mark.pushedTo fd) = [] ∧
      marks.flatMap (Mark.takenFrom fd) = []) : s'.InOrder (w ++ marks) := by
  intro c hc
  obtain ⟨hadded, hpushed, htaken⟩ := hmarks c.fd
  rw [since_append_of_not_added hadded, since_append_of_not_added hadded, hpushed, htaken,
    List.append_nil, List.append_nil]
  exact h c (hlist.subset hc)

theorem SendMgr.InOrder.routineStep (h : s.InOrder w) (hwf : s.Wf)
    (hstep : RoutineStep s junk r s' marks) : s'.InOrder (w ++ marks) := by
  cases hstep with
  | test hr next hnext => exact h.sublist (.refl _) (by simp)
  | wake hr => exact h.sublist (.refl _) (by simp)
  | dequeue hr hq => exact h.sublist (.refl _) (by simp)
  | read hr => exact h.sublist (.refl _) (by simp)
  | empty hr hget => exact h.sublist (.refl _) (by simp)
  | @take io fd s₁ frame hr hget =>
    obtain ⟨child, hchild, hfd, hsend, rfl⟩ := hwf.epIoGet_eq_some hget
    intro c' hc'
    obtain ⟨c, hc, rfl⟩ := List.mem_map.mp hc'
    have hkeep : (if c.fd = fd then c.pop else c).fd = c.fd := by split_ifs <;> rfl
    rw [hkeep, since_singleton (by simp), since_singleton (by simp), h c hc]
    by_cases hcfd : c.fd = fd
    · obtain rfl := hwf.eq_of_fd hc hchild (hcfd.trans hfd.symm)
      simp only [Mark.pushedTo, Mark.takenFrom, hcfd, if_true, List.append_nil, List.append_assoc,
        List.singleton_append, SendIo.pop, List.append_cancel_left_eq]
      exact hsend
    · simp [Mark.pushedTo, Mark.takenFrom, hcfd, Ne.symm hcfd]
  | sent hr hcode =>
    exact h.sublist (.refl _) (by simp [Mark.pushedTo, Mark.takenFrom])
  | failed hr hcode =>
    refine h.sublist ?_ (by simp [Mark.pushedTo, Mark.takenFrom])
    split_ifs
    · exact s.epIoDel_sublist _
    · exact .refl _
  | close hr => exact h.sublist (s.epIoDel_sublist _) (by simp)

/-- What the thread takes it hands over before it takes anything else. -/
theorem RoutineStep.handsOver (hstep : RoutineStep s junk r s' marks)
    (h : w.flatMap Mark.anyTaken = w.flatMap Mark.anySent ++ s.routine.inHand) :
    (w ++ marks).flatMap Mark.anyTaken =
      (w ++ marks).flatMap Mark.anySent ++ s'.routine.inHand := by
  simp only [List.flatMap_append, h]
  cases hstep with
  | test hr next hnext => rcases hnext with rfl | rfl <;> simp [hr, Routine.inHand]
  | wake hr => simp [hr, Routine.inHand]
  | dequeue hr hq => simp [hr, Routine.inHand]
  | read hr => simp [hr, Routine.inHand]
  | empty hr hget => simp [hr, Routine.inHand]
  | take hr hget => simp [hr, Routine.inHand, Mark.anyTaken, Mark.anySent]
  | sent hr hcode => simp [hr, Routine.inHand, Mark.anyTaken, Mark.anySent]
  | failed hr hcode => simp [hr, Routine.inHand, Mark.anyTaken, Mark.anySent]
  | close hr => simp [hr, Routine.inHand]

/-- The invariant of the frames. -/
structure SendMgr.Accounted (s : SendMgr) (w : List Mark) : Prop where
  wf : s.Wf
  covered : s.Covered
  inOrder : s.InOrder w
  handsOver : w.flatMap Mark.anyTaken = w.flatMap Mark.anySent ++ s.routine.inHand

theorem SendMgr.Accounted.post (h : s.Accounted w) (p : SendIo → Bool) (frame : List UInt8) :
    (s.post p frame).1.Accounted (w ++ (s.post p frame).2) := by
  refine ⟨h.wf.post p frame, h.covered.post p frame, h.inOrder.post h.wf p frame, ?_⟩
  have htaken : (s.post p frame).2.flatMap Mark.anyTaken = [] := s.flatMap_post fun _ _ => rfl
  have hsent : (s.post p frame).2.flatMap Mark.anySent = [] := s.flatMap_post fun _ _ => rfl
  simp only [List.flatMap_append, htaken, hsent, List.append_nil]
  exact h.handsOver

theorem SendMgr.Accounted.add (h : s.Accounted w) {io : ℕ}
    (hadd : s.epIoAdd fd io = some (s', marks)) : s'.Accounted (w ++ marks) := by
  refine ⟨h.wf.add hadd, h.covered.add hadd, h.inOrder.add hadd, ?_⟩
  obtain ⟨rfl, rfl⟩ | ⟨-, rfl, rfl⟩ := epIoAdd_cases hadd
  · simpa using h.handsOver
  · simpa [Mark.anyTaken, Mark.anySent] using h.handsOver

theorem SendMgr.Accounted.step (h : s.Accounted w) {act : SendAct}
    (hok : sendsSucceed s act = true) (hstep : s.step act = some (s', marks)) :
    s'.Accounted (w ++ marks) := by
  have hwf := h.wf.step hstep
  obtain ⟨-, hact⟩ := step_eq_some hstep
  cases act with
  | add fd io => exact h.add hact
  | reply fd body =>
    simp only [h.wf.reply_eq] at hact
    obtain ⟨rfl, rfl⟩ := Prod.mk.inj hact
    exact h.post _ _
  | nodify curfd notifyType input =>
    obtain ⟨rfl, rfl⟩ := Prod.mk.inj hact
    exact h.post _ _
  | del fd =>
    obtain ⟨rfl, rfl⟩ := hact
    refine ⟨hwf, h.covered.sublist (s.epIoDel_sublist fd) rfl fun _ _ hd _ => hd,
      h.inOrder.sublist (s.epIoDel_sublist fd) (by simp), ?_⟩
    simpa [SendMgr.epIoDel] using h.handsOver
  | routine junk r wake =>
    refine ⟨hwf, h.covered.routineStep h.wf hact ?_, h.inOrder.routineStep h.wf hact,
      hact.handsOver h.handsOver⟩
    intro io frame hr
    simpa [sendsSucceed, hr] using hok
  | destroy junk => simp [sendsSucceed] at hok

theorem SendMgr.accounted_start (refor : EpIoRefor) : (start refor).Accounted [] :=
  ⟨wf_start refor, by simp [Covered, start], by simp [InOrder, start], rfl⟩

end Frames

/-- In every state of every run of producers, disconnects and successful sends: a
frame that waits is within reach of the thread; when the thread waits for a handle
and there is none, no frame waits; and the frames of a connection have left its queue
in the order they were pushed and once each, to be handed to the send function in the
order they were taken. -/
theorem frames_accounted (refor : EpIoRefor) (s : SendMgr) (w : List Mark)
    (h : Reaches (traced SendMgr.step) (fun t act => sendsSucceed t.1 act = true)
      (SendMgr.start refor, []) (s, w)) :
    (∀ fd c, s.epIoFind fd = some c → c.send ≠ [] → c.io ∈ s.queue ∨ s.routine.Drains c) ∧
    (s.routine = .waiting → s.queue = [] → ∀ fd c, s.epIoFind fd = some c → c.send = []) ∧
    (∀ fd c, s.epIoFind fd = some c → since fd (Mark.pushedTo fd) w =
      since fd (Mark.takenFrom fd) w ++ c.send) ∧
    w.flatMap Mark.anyTaken = w.flatMap Mark.anySent ++ s.routine.inHand := by
  have hacc : s.Accounted w := by
    refine h.invariant (P := fun t => t.1.Accounted t.2) (SendMgr.accounted_start refor) ?_
    rintro ⟨s, w⟩ act ⟨s', w'⟩ hacc hok hstep
    obtain ⟨marks, hreport, rfl⟩ := traced_eq_some.mp hstep
    exact SendMgr.Accounted.step hacc hok hreport
  have hcovered : ∀ fd c, s.epIoFind fd = some c → c.send ≠ [] →
      c.io ∈ s.queue ∨ s.routine.Drains c :=
    fun fd c hfind => hacc.covered c (SendMgr.mem_of_epIoFind hfind).1
  refine ⟨hcovered, ?_, ?_, hacc.handsOver⟩
  · intro hr hq fd c hfind
    by_contra hsend
    rcases hcovered fd c hfind hsend with hmem | hd
    · simp [hq] at hmem
    · simp [hr, Routine.Drains] at hd
  · intro fd c hfind
    obtain ⟨hc, rfl⟩ := SendMgr.mem_of_epIoFind hfind
    exact hacc.inOrder c hc

/-- Two replies, of which the first is being sent. -/
theorem frames_accounted_two :
    ∃ s w, Reaches (traced SendMgr.step) (fun t act => sendsSucceed t.1 act = true)
        (SendMgr.start .server, []) (s, w) ∧
      s.routine = .sending 0 [1] ∧
      since 5 (Mark.pushedTo 5) w = since 5 (Mark.takenFrom 5) w ++ [[2]] := by
  have hreach : Reaches (traced SendMgr.step) (fun t act => sendsSucceed t.1 act = true)
      (SendMgr.start .server, [])
      (⟨.server, [⟨0, 5, [[2]]⟩], [0], false, .sending 0 [1], .idle⟩,
        [.added 5, .pushed 5 [1], .pushed 5 [2], .taken 5 [1]]) :=
    reaches_of_exec [.add 5 0, .reply 5 [1], .nodify 0 0 [2], .routine 0 0 false,
      .routine 0 0 false, .routine 0 0 false, .routine 0 0 false] rfl
  exact ⟨_, _, hreach, rfl, (frames_accounted .server _ _ hreach).2.2.1 5 ⟨0, 5, [[2]]⟩ rfl⟩

/-! ## Handles -/

/-- The handle that the thread is going to read through. -/
def Routine.handle : Routine → Option ℕ
  | .reading io | .getting io _ | .sending io _ | .closing io => some io
  | _ => none

def Destroyer.handle : Destroyer → Option ℕ
  | .reading io | .getting io _ => some io
  | _ => none

namespace SendMgr

variable (s : SendMgr)

/-- The handles in the queue of the manager, and those that have been taken out of it to
be read. -/
def inUse : List ℕ := s.queue ++ s.routine.handle.toList ++ s.destroyer.handle.toList

def HandlesLive : Prop := ∀ io ∈ s.inUse, s.Live io

/-- If the connection `fd` is there, its handle is not among `handles`. -/
def Releasable (fd : ℤ) (handles : List ℕ) : Prop :=
  ∀ c, s.epIoFind fd = some c → c.io ∉ handles

instance (fd : ℤ) (handles : List ℕ) : Decidable (s.Releasable fd handles) :=
  match h : s.epIoFind fd with
  | none => isTrue fun c hc => by simp [h] at hc
  | some c =>
    if hc : c.io ∈ handles then isFalse fun hr => hr c h hc
    else isTrue fun x hx => by
      obtain rfl : c = x := Option.some.inj (h.symm.trans hx)
      exact hc

/-- The thread releases a connection at the end of a send that fails:
`service_core_send` closes the connection it could not write to, and the error callback
closes it once more, through the handle. -/
def sendReleasesIdle (junk r : ℤ) : Routine → Prop
  | .sending io frame =>
    (s.refor.send r frame).closed = true → s.Releasable (s.fdOf io junk) s.inUse
  | .closing io => s.Releasable (s.fdOf io junk) s.queue
  | _ => True

instance (junk r : ℤ) : (routine : Routine) → Decidable (s.sendReleasesIdle junk r routine)
  | .sending _ _ => inferInstanceAs (Decidable (_ = true → s.Releasable _ _))
  | .closing _ => inferInstanceAs (Decidable (s.Releasable _ _))
  | .testing | .waiting | .reading _ | .getting _ _ | .returned => isTrue trivial

/-- A step releases only connections whose handles are not in use. -/
def releasesIdle : SendAct → Prop
  | .del fd => s.Releasable fd s.inUse
  | .routine junk r _ => s.sendReleasesIdle junk r s.routine
  | .destroy _ => s.destroyer = .joining → s.queue = []
  | _ => True

instance : (act : SendAct) → Decidable (s.releasesIdle act)
  | .del _ => inferInstanceAs (Decidable (s.Releasable _ _))
  | .routine _ _ _ => inferInstanceAs (Decidable (s.sendReleasesIdle _ _ _))
  | .destroy _ => inferInstanceAs (Decidable (s.destroyer = .joining → s.queue = []))
  | .add _ _ | .reply _ _ | .nodify _ _ _ => isTrue trivial

end SendMgr

section Handles

variable {s s' : SendMgr} {io : ℕ} {fd junk r : ℤ} {marks : List Mark}

theorem SendMgr.mem_inUse : io ∈ s.inUse ↔
    io ∈ s.queue ∨ s.routine.handle = some io ∨ s.destroyer.handle = some io := by
  simp [inUse]

/-- Steps that release nothing keep the handles alive. -/
theorem SendMgr.HandlesLive.mono (h : s.HandlesLive) (hlive : ∀ io, s.Live io → s'.Live io)
    (huse : ∀ io ∈ s'.inUse, io ∈ s.inUse ∨ s'.Live io) : s'.HandlesLive := by
  intro io hio
  exact (huse io hio).elim (fun hio => hlive io (h io hio)) id

theorem eraseP_fd_eq_filter {l : List SendIo} (h : (l.map SendIo.fd).Nodup) :
    l.eraseP (fun c => c.fd = fd) = l.filter fun c => c.fd ≠ fd := by
  induction l with
  | nil => rfl
  | cons c cs ih =>
    obtain ⟨hnew, hcs⟩ := List.nodup_cons.mp h
    by_cases hc : c.fd = fd
    · rw [List.eraseP_cons_of_pos (by simpa using hc), List.filter_cons_of_neg (by simpa using hc)]
      refine (List.filter_eq_self.mpr fun x hx => ?_).symm
      have hne : x.fd ≠ fd := fun hfd => hnew (hc.trans hfd.symm ▸ List.mem_map_of_mem hx)
      simpa using hne
    · rw [List.eraseP_cons_of_neg (by simpa using hc), List.filter_cons_of_pos (by simpa using hc),
        ih hcs]

/-- Deleting a connection leaves a set of live handles live exactly if its own is not
one of them. -/
theorem SendMgr.Wf.live_epIoDel_iff (hwf : s.Wf) {handles : List ℕ}
    (hlive : ∀ io ∈ handles, s.Live io) :
    (∀ io ∈ handles, (s.epIoDel fd).Live io) ↔ s.Releasable fd handles := by
  have hdel : ∀ c, c ∈ (s.epIoDel fd).ioList ↔ c ∈ s.ioList ∧ c.fd ≠ fd := by
    intro c
    rw [epIoDel, eraseP_fd_eq_filter hwf.fd_nodup]
    simp
  constructor
  · intro hkept c hfind hmem
    obtain ⟨hc, hfd⟩ := mem_of_epIoFind hfind
    obtain ⟨x, hx, hio⟩ := hkept c.io hmem
    obtain ⟨hx, hxfd⟩ := (hdel x).mp hx
    exact hxfd (hwf.eq_of_io hx hc hio ▸ hfd)
  · intro hrel io hio
    obtain ⟨c, hc, rfl⟩ := hlive io hio
    refine ⟨c, (hdel c).mpr ⟨hc, ?_⟩, rfl⟩
    rintro rfl
    exact hrel c (hwf.epIoFind_eq hc) hio

theorem SendMgr.live_map {f : SendIo → SendIo} (hio : ∀ c, (f c).io = c.io)
    (hlist : s'.ioList = s.ioList.map f) (hlive : s.Live io) : s'.Live io := by
  obtain ⟨c, hc, rfl⟩ := hlive
  exact ⟨f c, by rw [hlist]; exact List.mem_map_of_mem hc, hio c⟩

theorem SendMgr.HandlesLive.post (h : s.HandlesLive) (p : SendIo → Bool) (frame : List UInt8) :
    (s.post p frame).1.HandlesLive := by
  have hlive : ∀ io, s.Live io → (s.post p frame).1.Live io := by
    refine fun io => live_map (f := fun c => if p c then c.push frame else c) (fun c => ?_) rfl
    split_ifs <;> rfl
  refine h.mono hlive fun io hio => ?_
  rcases mem_inUse.mp hio with hio | hio
  · rcases List.mem_append.mp hio with hio | hio
    · exact .inl (mem_inUse.mpr (.inl hio))
    · obtain ⟨c, hc, rfl⟩ := List.mem_map.mp hio
      exact .inr (hlive c.io ⟨c, List.mem_of_mem_filter hc, rfl⟩)
  · exact .inl (mem_inUse.mpr (.inr hio))

theorem SendMgr.HandlesLive.add (h : s.HandlesLive) (hadd : s.epIoAdd fd io = some (s', marks)) :
    s'.HandlesLive := by
  obtain ⟨rfl, -⟩ | ⟨-, rfl, -⟩ := epIoAdd_cases hadd
  · exact h
  · refine h.mono (fun io hlive => ?_) fun io hio => .inl hio
    obtain ⟨c, hc, rfl⟩ := hlive
    exact ⟨c, List.mem_append_left _ hc, rfl⟩

/-- The same table and no new handle. -/
theorem SendMgr.HandlesLive.keep (h : s.HandlesLive) (hlist : s'.ioList = s.ioList)
    (huse : ∀ io ∈ s'.inUse, io ∈ s.inUse) : s'.HandlesLive := by
  refine h.mono (fun io hlive => ?_) fun io hio => .inl (huse io hio)
  rwa [Live, hlist]

theorem SendMgr.HandlesLive.routineStep_iff (h : s.HandlesLive) (hwf : s.Wf) {wake : Bool}
    (hstep : RoutineStep s junk r s' marks) :
    s'.HandlesLive ↔ s.releasesIdle (.routine junk r wake) := by
  cases hstep with
  | test hr next hnext =>
    refine iff_of_true (h.keep rfl fun io hio => ?_) (by simp [releasesIdle, sendReleasesIdle, hr])
    rcases hnext with rfl | rfl <;> simpa [inUse, hr, Routine.handle] using hio
  | wake hr =>
    refine iff_of_true (h.keep rfl fun io hio => ?_) (by simp [releasesIdle, sendReleasesIdle, hr])
    simpa [inUse, hr, Routine.handle] using hio
  | dequeue hr hq =>
    refine iff_of_true (h.keep rfl fun io hio => ?_) (by simp [releasesIdle, sendReleasesIdle, hr])
    grind [mem_inUse, Routine.handle]
  | read hr =>
    refine iff_of_true (h.keep rfl fun io hio => ?_) (by simp [releasesIdle, sendReleasesIdle, hr])
    simpa [inUse, hr, Routine.handle] using hio
  | empty hr hget =>
    refine iff_of_true (h.keep rfl fun io hio => ?_) (by simp [releasesIdle, sendReleasesIdle, hr])
    grind [mem_inUse, Routine.handle]
  | @take io fd s₁ frame hr hget =>
    obtain ⟨child, -, -, -, rfl⟩ := hwf.epIoGet_eq_some hget
    refine iff_of_true (h.mono (fun io => ?_) fun io hio => .inl ?_)
      (by simp [releasesIdle, sendReleasesIdle, hr])
    · refine live_map (f := fun x => if x.fd = fd then x.pop else x) (fun c => ?_) rfl
      split_ifs <;> rfl
    · simpa [inUse, hr, Routine.handle] using hio
  | @sent io frame hr hcode =>
    refine iff_of_true (h.keep rfl fun io hio => ?_) ?_
    · simpa [inUse, hr, Routine.handle] using hio
    · simp [releasesIdle, sendReleasesIdle, hr, EpIoRefor.closed_of_code hcode]
  | @failed io frame hr hcode =>
    have huse : ∀ t : SendMgr, t.queue = s.queue → t.destroyer = s.destroyer →
        ({ t with routine := .closing io } : SendMgr).inUse = s.inUse := by
      intro t hq hd
      simp [inUse, hr, Routine.handle, hq, hd]
    simp only [releasesIdle, sendReleasesIdle, hr]
    cases hclosed : (s.refor.send r frame).closed with
    | false =>
      refine iff_of_true (h.mono (fun _ hlive => hlive) fun x hio => .inl ?_) (by simp)
      rw [← huse s rfl rfl]
      exact hio
    | true =>
      rw [HandlesLive, if_pos rfl, huse (s.epIoDel (s.fdOf io junk)) rfl rfl]
      simp only [true_imp_iff]
      exact hwf.live_epIoDel_iff h
  | @close io hr =>
    have hidle : s.destroyer.handle = none := by
      rcases hwf.not_joined (by simp [hr]) with hd | hd <;> simp [hd, Destroyer.handle]
    have huse : ({ s.epIoDel (s.fdOf io junk) with routine := .testing } : SendMgr).inUse =
        s.queue := by
      simp [inUse, Routine.handle, hidle, epIoDel]
    simp only [releasesIdle, sendReleasesIdle, hr]
    rw [HandlesLive, huse]
    exact hwf.live_epIoDel_iff fun io hio => h io (mem_inUse.mpr (.inl hio))

theorem SendMgr.HandlesLive.destroyStep_iff (h : s.HandlesLive) (hwf : s.Wf)
    (hstep : DestroyStep s s') : s'.HandlesLive ↔ s.releasesIdle (.destroy junk) := by
  cases hstep with
  | stop hd =>
    refine iff_of_true (h.keep rfl fun io hio => ?_) (by simp [releasesIdle, hd])
    simpa [inUse, hd, Destroyer.handle] using hio
  | free hd hr =>
    -- nothing is live any more
    simp only [releasesIdle, hd, true_imp_iff]
    simp [HandlesLive, inUse, Live, hr, Routine.handle, Destroyer.handle,
      List.eq_nil_iff_forall_not_mem]
  | finish hd hq =>
    refine iff_of_true (h.keep rfl fun io hio => ?_) (by simp [releasesIdle, hd])
    simpa [inUse, hd, Destroyer.handle] using hio
  | dequeue hd hq =>
    refine iff_of_true (h.keep rfl fun io hio => ?_) (by simp [releasesIdle, hd])
    grind [mem_inUse, Destroyer.handle]
  | read _ hd =>
    refine iff_of_true (h.keep rfl fun io hio => ?_) (by simp [releasesIdle, hd])
    simpa [inUse, hd, Destroyer.handle] using hio
  | empty hd hget =>
    refine iff_of_true (h.keep rfl fun io hio => ?_) (by simp [releasesIdle, hd])
    grind [mem_inUse, Destroyer.handle]
  | @take io fd s₁ frame hd hget =>
    obtain ⟨child, -, -, -, rfl⟩ := hwf.epIoGet_eq_some hget
    refine iff_of_true (h.mono (fun io => ?_) fun io hio => .inl ?_) (by simp [releasesIdle, hd])
    · refine live_map (f := fun x => if x.fd = fd then x.pop else x) (fun c => ?_) rfl
      split_ifs <;> rfl
    · simpa [inUse, hd, Destroyer.handle] using hio

/-- From a state in which all handles are live, a step leads to one exactly if it
releases no connection whose handle is in use. -/
theorem SendMgr.HandlesLive.step_iff (h : s.HandlesLive) (hwf : s.Wf) {act : SendAct}
    (hstep : s.step act = some (s', marks)) : s'.HandlesLive ↔ s.releasesIdle act := by
  obtain ⟨-, hact⟩ := step_eq_some hstep
  cases act with
  | add fd io => exact iff_of_true (h.add hact) trivial
  | reply fd body =>
    simp only [hwf.reply_eq] at hact
    obtain ⟨rfl, rfl⟩ := Prod.mk.inj hact
    exact iff_of_true (h.post _ _) trivial
  | nodify curfd notifyType input =>
    obtain ⟨rfl, rfl⟩ := Prod.mk.inj hact
    exact iff_of_true (h.post _ _) trivial
  | del fd =>
    obtain ⟨rfl, rfl⟩ := hact
    exact hwf.live_epIoDel_iff h
  | routine junk r wake => exact h.routineStep_iff hwf hact
  | destroy junk => exact h.destroyStep_iff hwf hact.1

theorem SendMgr.handlesLive_start (refor : EpIoRefor) : (start refor).HandlesLive := by
  simp [HandlesLive, inUse, start, Routine.handle, Destroyer.handle]

end Handles

/-- In every run whose steps release only connections that no handle in use points to,
every handle in use is live in every state. The first step that is different leaves a
handle in use that points to a released connection. -/
theorem handles_live_while_idle (refor : EpIoRefor) (t : SendMgr × List Mark)
    (h : Reaches (traced SendMgr.step) (fun t act => t.1.releasesIdle act)
      (SendMgr.start refor, []) t) :
    t.1.HandlesLive ∧
      ∀ act t', traced SendMgr.step t act = some t' → ¬ t.1.releasesIdle act →
        ¬ t'.1.HandlesLive := by
  have hinv : t.1.HandlesLive ∧ t.1.Wf := by
    refine h.invariant (P := fun t => t.1.HandlesLive ∧ t.1.Wf)
      ⟨SendMgr.handlesLive_start refor, SendMgr.wf_start refor⟩ ?_
    rintro ⟨s, w⟩ act ⟨s', w'⟩ ⟨hlive, hwf⟩ hok hstep
    obtain ⟨marks, hreport, -⟩ := traced_eq_some.mp hstep
    exact ⟨(SendMgr.HandlesLive.step_iff hlive hwf hreport).mpr hok,
      SendMgr.Wf.step hwf hreport⟩
  refine ⟨hinv.1, ?_⟩
  rintro act ⟨s', w'⟩ hstep hbad hlive
  obtain ⟨s, w⟩ := t
  obtain ⟨marks, hreport, -⟩ := traced_eq_some.mp hstep
  exact hbad ((hinv.1.step_iff hinv.2 hreport).mp hlive)

/-- A reply is sent, and then the client goes away. -/
theorem handles_live_after_send :
    ∃ t, Reaches (traced SendMgr.step) (fun t act => t.1.releasesIdle act)
        (SendMgr.start .server, []) t ∧ t.1.ioList = [] ∧ t.1.HandlesLive := by
  have hreach : Reaches (traced SendMgr.step) (fun t act => t.1.releasesIdle act)
      (SendMgr.start .server, [])
      (⟨.server, [], [], false, .testing, .idle⟩,
        [.added 5, .pushed 5 [1], .taken 5 [1], .wrote 5 [1] [1]]) :=
    reaches_of_exec ([.add 5 0, .reply 5 [1]] ++ List.replicate 7 (.routine 0 1 false) ++ [.del 5])
      rfl
  exact ⟨_, hreach, rfl, (handles_live_while_idle .server _ hreach).1⟩

/-- A client that goes away while a reply waits leaves its handle in the queue. -/
theorem handle_outlives_connection :
    ¬ ∀ t, Reaches (traced SendMgr.step) anyStep (SendMgr.start .server, []) t →
      t.1.HandlesLive := by
  intro hall
  have hreach : Reaches (traced SendMgr.step) anyStep (SendMgr.start .server, [])
      (⟨.server, [], [0], false, .testing, .idle⟩, [.added 5, .pushed 5 [1]]) :=
    reaches_of_exec [.add 5 0, .reply 5 [1], .del 5] rfl
  obtain ⟨c, hc, -⟩ := hall _ hreach 0 (by decide)
  cases hc

/-! ## Frames and handles together -/

/-- A frame that left a queue, with the connection it left. -/
def Mark.takenPair : Mark → List (ℤ × List UInt8)
  | .taken fd frame => [(fd, frame)]
  | _ => []

/-- A frame that was sent, with the socket it was sent to. -/
def Mark.wrotePair : Mark → List (ℤ × List UInt8)
  | .wrote fd frame _ => [(fd, frame)]
  | _ => []

/-- The handle is that of the connection `fd`. -/
def SendMgr.Points (s : SendMgr) (io : ℕ) (fd : ℤ) : Prop := ∃ c ∈ s.ioList, c.io = io ∧ c.fd = fd

/-- What the thread has read through its handle is still what the handle says. -/
def SendMgr.Aimed (s : SendMgr) (w : List Mark) : Prop :=
  match s.routine with
  | .getting io fd => s.Points io fd ∧ w.flatMap Mark.takenPair = w.flatMap Mark.wrotePair
  | .sending io frame => ∃ fd, s.Points io fd ∧
      w.flatMap Mark.takenPair = w.flatMap Mark.wrotePair ++ [(fd, frame)]
  | _ => w.flatMap Mark.takenPair = w.flatMap Mark.wrotePair

section Aimed

variable {s s' : SendMgr} {io : ℕ} {fd junk r : ℤ} {w marks : List Mark}

theorem SendMgr.Points.fdOf_eq (h : s.Points io fd) (hwf : s.Wf) : s.fdOf io junk = fd := by
  obtain ⟨c, hc, rfl, rfl⟩ := h
  exact hwf.fdOf_eq hc

/-- A connection is the one it was before the step, or it is at an address that was free. -/
theorem SendMgr.Wf.step_mem (hwf : s.Wf) {act : SendAct} (hstep : s.step act = some (s', marks))
    {c' : SendIo} (hc' : c' ∈ s'.ioList) : s.Points c'.io c'.fd ∨ ¬ s.Live c'.io := by
  have hsame : ∀ {c}, c ∈ s.ioList → s.Points c.io c.fd := fun hc => ⟨_, hc, rfl, rfl⟩
  have hpost : ∀ {p : SendIo → Bool} {frame : List UInt8},
      c' ∈ s.ioList.map (fun c => if p c then c.push frame else c) → s.Points c'.io c'.fd := by
    intro p frame hmem
    obtain ⟨c, hc, rfl⟩ := List.mem_map.mp hmem
    refine ⟨c, hc, ?_⟩
    split_ifs <;> exact ⟨rfl, rfl⟩
  have hget : ∀ {t : SendMgr} {fd : ℤ} {frame : List UInt8}, s.epIoGet fd = some (t, frame) →
      c' ∈ t.ioList → s.Points c'.io c'.fd := by
    intro t fd frame htake hmem
    obtain ⟨-, -, -, -, rfl⟩ := hwf.epIoGet_eq_some htake
    obtain ⟨c, hc, rfl⟩ := List.mem_map.mp hmem
    refine ⟨c, hc, ?_⟩
    split_ifs <;> exact ⟨rfl, rfl⟩
  obtain ⟨-, hact⟩ := step_eq_some hstep
  cases act with
  | add fd io =>
    obtain ⟨rfl, -⟩ | ⟨hnew, rfl, -⟩ := epIoAdd_cases hact
    · exact .inl (hsame hc')
    · rcases List.mem_append.mp hc' with hc' | hc'
      · exact .inl (hsame hc')
      · obtain rfl := List.mem_singleton.mp hc'
        exact .inr fun ⟨c, hc, hio⟩ => (hnew c hc).2 hio
  | reply fd body =>
    simp only [hwf.reply_eq] at hact
    obtain ⟨rfl, -⟩ := Prod.mk.inj hact
    exact .inl (hpost hc')
  | nodify curfd notifyType input =>
    obtain ⟨rfl, -⟩ := Prod.mk.inj hact
    exact .inl (hpost hc')
  | del fd =>
    obtain ⟨rfl, -⟩ := hact
    exact .inl (hsame ((s.epIoDel_sublist fd).subset hc'))
  | routine junk r wake =>
    left
    cases hact with
    | test hr next hnext => exact hsame hc'
    | wake hr => exact hsame hc'
    | dequeue hr hq => exact hsame hc'
    | read hr => exact hsame hc'
    | empty hr hnone => exact hsame hc'
    | take hr htake => exact hget htake hc'
    | sent hr hcode => exact hsame hc'
    | failed hr hcode =>
      split_ifs at hc'
      · exact hsame ((s.epIoDel_sublist _).subset hc')
      · exact hsame hc'
    | close hr => exact hsame ((s.epIoDel_sublist _).subset hc')
  | destroy junk =>
    left
    cases hact.1 with
    | stop hd => exact hsame hc'
    | free hd hr => cases hc'
    | finish hd hq => exact hsame hc'
    | dequeue hd hq => exact hsame hc'
    | read junk hd => exact hsame hc'
    | empty hd hnone => exact hsame hc'
    | take hd htake => exact hget htake hc'

/-- A handle that stays live stays that of the same connection. -/
theorem SendMgr.Points.step (h : s.Points io fd) (hwf : s.Wf) {act : SendAct}
    (hstep : s.step act = some (s', marks)) (hlive : s'.Live io) : s'.Points io fd := by
  obtain ⟨c', hc', rfl⟩ := hlive
  obtain ⟨c, hc, hio, rfl⟩ := h
  rcases hwf.step_mem hstep hc' with ⟨x, hx, hxio, hxfd⟩ | hfree
  · obtain rfl := hwf.eq_of_io hc hx (hio.trans hxio.symm)
    exact ⟨c', hc', rfl, hxfd.symm⟩
  · exact absurd ⟨c, hc, hio⟩ hfree

theorem SendMgr.Live.points (h : s.Live io) (hwf : s.Wf) : s.Points io (s.fdOf io junk) := by
  obtain ⟨c, hc, rfl⟩ := h
  exact ⟨c, hc, rfl, (hwf.fdOf_eq hc).symm⟩

theorem SendMgr.Aimed.routineStep (h : s.Aimed w) (hwf : s.Wf) (hlive : s.HandlesLive)
    {wake : Bool} (hstep : s.step (.routine junk r wake) = some (s', marks))
    (hlive' : s'.HandlesLive) : s'.Aimed (w ++ marks) := by
  have hact : RoutineStep s junk r s' marks := (step_eq_some hstep).2
  unfold Aimed at h
  cases hact with
  | test hr next hnext =>
    simp only [hr] at h
    rcases hnext with rfl | rfl <;> simpa [Aimed] using h
  | wake hr =>
    simp only [hr] at h
    simpa [Aimed] using h
  | dequeue hr hq =>
    simp only [hr] at h
    simpa [Aimed] using h
  | @read io hr =>
    simp only [hr] at h
    have hpoints : s.Points io (s.fdOf io junk) :=
      (hlive io (mem_inUse.mpr (.inr (.inl (by simp [hr, Routine.handle]))))).points hwf
    exact ⟨hpoints, by simpa using h⟩
  | empty hr hget =>
    simp only [hr] at h
    simpa [Aimed] using h.2
  | @take io fd s₁ frame hr hget =>
    simp only [hr] at h
    obtain ⟨hpoints, hpairs⟩ := h
    refine ⟨fd, hpoints.step hwf hstep (hlive' io ?_), ?_⟩
    · exact mem_inUse.mpr (.inr (.inl rfl))
    · simp [Mark.takenPair, Mark.wrotePair, hpairs]
  | sent hr hcode =>
    simp only [hr] at h
    obtain ⟨fd, hpoints, hpairs⟩ := h
    simp [Aimed, Mark.takenPair, Mark.wrotePair, hpairs, hpoints.fdOf_eq hwf]
  | failed hr hcode =>
    simp only [hr] at h
    obtain ⟨fd, hpoints, hpairs⟩ := h
    simp [Aimed, Mark.takenPair, Mark.wrotePair, hpairs, hpoints.fdOf_eq hwf]
  | close hr =>
    simp only [hr] at h
    simpa [Aimed] using h

/-- What the other threads do neither moves the thread nor is it reported as its doing. -/
theorem SendMgr.Wf.step_other (hwf : s.Wf) {act : SendAct} (hstep : s.step act = some (s', marks))
    (hother : ∀ junk r wake, act ≠ .routine junk r wake) :
    s'.routine = s.routine ∧ marks.flatMap Mark.takenPair = [] ∧
      marks.flatMap Mark.wrotePair = [] := by
  obtain ⟨-, hact⟩ := step_eq_some hstep
  cases act with
  | add fd io =>
    obtain ⟨rfl, rfl⟩ | ⟨-, rfl, rfl⟩ := epIoAdd_cases hact <;> exact ⟨rfl, rfl, rfl⟩
  | reply fd body =>
    simp only [hwf.reply_eq] at hact
    obtain ⟨rfl, rfl⟩ := Prod.mk.inj hact
    exact ⟨rfl, s.flatMap_post fun _ _ => rfl, s.flatMap_post fun _ _ => rfl⟩
  | nodify curfd notifyType input =>
    obtain ⟨rfl, rfl⟩ := Prod.mk.inj hact
    exact ⟨rfl, s.flatMap_post fun _ _ => rfl, s.flatMap_post fun _ _ => rfl⟩
  | del fd =>
    obtain ⟨rfl, rfl⟩ := hact
    exact ⟨rfl, rfl, rfl⟩
  | routine junk r wake => exact absurd rfl (hother junk r wake)
  | destroy junk =>
    obtain ⟨hdestroy, rfl⟩ := hact
    refine ⟨?_, rfl, rfl⟩
    cases hdestroy with
    | take hd htake =>
      obtain ⟨-, -, -, -, rfl⟩ := hwf.epIoGet_eq_some htake
      rfl
    | _ => rfl

theorem SendMgr.Aimed.step (h : s.Aimed w) (hwf : s.Wf) (hlive : s.HandlesLive) {act : SendAct}
    (hstep : s.step act = some (s', marks)) (hlive' : s'.HandlesLive) : s'.Aimed (w ++ marks) := by
  by_cases hact : ∃ junk r wake, act = .routine junk r wake
  · obtain ⟨junk, r, wake, rfl⟩ := hact
    exact h.routineStep hwf hlive hstep hlive'
  · obtain ⟨hroutine, htaken, hwrote⟩ := hwf.step_other hstep
      fun junk r wake heq => hact ⟨junk, r, wake, heq⟩
    have huse : ∀ io, s.routine.handle = some io → s'.Live io :=
      fun io hio => hlive' io (mem_inUse.mpr (.inr (.inl (by rw [hroutine]; exact hio))))
    unfold Aimed at h ⊢
    simp only [hroutine, List.flatMap_append, htaken, hwrote, List.append_nil]
    cases hr : s.routine with
    | getting io fd =>
      simp only [hr] at h
      exact ⟨h.1.step hwf hstep (huse io (by rw [hr]; rfl)), h.2⟩
    | sending io frame =>
      simp only [hr] at h
      obtain ⟨fd, hpoints, hpairs⟩ := h
      exact ⟨fd, hpoints.step hwf hstep (huse io (by rw [hr]; rfl)), hpairs⟩
    | testing => simpa only [hr] using h
    | waiting => simpa only [hr] using h
    | reading io => simpa only [hr] using h
    | closing io => simpa only [hr] using h
    | returned => simpa only [hr] using h

theorem SendMgr.Aimed.sent_le_taken (h : s.Aimed w) :
    w.flatMap Mark.wrotePair <+: w.flatMap Mark.takenPair := by
  unfold Aimed at h
  split at h
  · rw [h.2]
  · obtain ⟨fd, -, hpairs⟩ := h
    rw [hpairs]
    exact List.prefix_append _ _
  · rw [h]

end Aimed

/-- As long as no connection is released while its handle is in use, every frame is sent
to the socket of the connection it was taken from, in the order they were taken. -/
theorem frames_sent_where_taken (refor : EpIoRefor) (t : SendMgr × List Mark)
    (h : Reaches (traced SendMgr.step) (fun t act => t.1.releasesIdle act)
      (SendMgr.start refor, []) t) :
    t.2.flatMap Mark.wrotePair <+: t.2.flatMap Mark.takenPair := by
  have hinv : t.1.Aimed t.2 ∧ t.1.HandlesLive ∧ t.1.Wf := by
    refine h.invariant (P := fun t => t.1.Aimed t.2 ∧ t.1.HandlesLive ∧ t.1.Wf)
      ⟨rfl, SendMgr.handlesLive_start refor, SendMgr.wf_start refor⟩ ?_
    rintro ⟨s, w⟩ act ⟨s', w'⟩ ⟨haimed, hlive, hwf⟩ hok hstep
    obtain ⟨marks, hreport, rfl⟩ := traced_eq_some.mp hstep
    have hlive' : s'.HandlesLive := (SendMgr.HandlesLive.step_iff hlive hwf hreport).mpr hok
    exact ⟨SendMgr.Aimed.step haimed hwf hlive hreport hlive', hlive', hwf.step hreport⟩
  exact hinv.1.sent_le_taken

end Youmenu.Eventpack
