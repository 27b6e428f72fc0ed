import Youmenu.Eventpack.Reassembly
import Youmenu.Lib.Keyed

/-!
# Connections do not interfere

The receiving side of `ep_io.c` keeps all connections in one list. Seen from outside,
the list is a family of connections under their descriptors: a call finds the
connection it names, and leaves every other one alone, as long as it comes back at all:
a connection whose ring buffer outgrows an `int` takes the whole process with it. Of a
connection itself only its view matters. What the allocator handed out, where the bytes
lie in the region and what an old header said have no influence on anything that a caller
or a processor gets to see.

## Main definitions

* `epIoUpdateAes`, `epIoDel`, `epIoCall`, `epIoCalls` — the calls, and runs of them.
* `viewStep` — a connection on its own.
* `Views` — the list of connections is the family.
* `NonnegHeaders`, `IntCapacities` — the conditions on a run.
-/

namespace Youmenu.Eventpack

open Circular Incremental Keyed

/-! ## The calls -/

def epIoUpdateAes (ioMgr : EpIoMgr) (fd : ℤ) (aes : EpAesKey) : EpIoMgr × ℤ :=
  match epIoFind ioMgr fd with
  | none => (ioMgr, 0)
  | some tmp => ({ ioMgr with ioList := replaceIo { tmp with aes := aes } ioMgr.ioList }, 1)

def epIoDel (ioMgr : EpIoMgr) (fd : ℤ) : EpIoMgr × ℤ :=
  match epIoFind ioMgr fd with
  | none => (ioMgr, 0)
  | some _ => ({ ioMgr with ioList := ioMgr.ioList.eraseP fun io => io.fd = fd }, 1)

inductive IoCall where
  | add
  | enqueue (inbuf : List UInt8)
  | updateAes (aes : EpAesKey)
  | del

/-- One call: the table after it, the code it returns, and what it dispatches. -/
def epIoCall (fuel : ℕ) (fresh : ℕ → ℕ → ℤ → UInt8) (ioMgr : EpIoMgr) (fd : ℤ) :
    IoCall → Option (EpIoMgr × ℤ × List EpIoTask)
  | .add => some (epIoAdd ioMgr fd, if (epIoFind ioMgr fd).isSome then 0 else 1, [])
  | .enqueue inbuf =>
    (epIoEnqueue fuel fresh ioMgr fd inbuf).map fun r => (r.1, r.2.1, r.2.2.dispatched)
  | .updateAes aes =>
    let r := epIoUpdateAes ioMgr fd aes
    some (r.1, r.2, [])
  | .del =>
    let r := epIoDel ioMgr fd
    some (r.1, r.2, [])

/-- Calls one after the other; call `i` allocates from `fresh i`. -/
def epIoCalls (fuel : ℕ) : (ℕ → ℕ → ℕ → ℤ → UInt8) → EpIoMgr → List (ℤ × IoCall) →
    Option (EpIoMgr × List (ℤ × ℤ × List EpIoTask))
  | _, ioMgr, [] => some (ioMgr, [])
  | fresh, ioMgr, (fd, call) :: calls => do
    let (ioMgr, out) ← epIoCall fuel (fresh 0) ioMgr fd call
    let (ioMgr, outs) ← epIoCalls fuel (fun i => fresh (i + 1)) ioMgr calls
    some (ioMgr, (fd, out) :: outs)

/-! ## What can be seen -/

def EpIoTask.seen (t : EpIoTask) : SeenFrame := (t.shell, t.input.map EpBuffer.bytes)

/-- The frames that a run dispatched for `fd`, in any of its calls. -/
def framesFor (fd : ℤ) (outs : List (ℤ × ℤ × List EpIoTask)) : List SeenFrame :=
  ((outs.flatMap fun out => out.2.2).filter fun t => t.fd = fd).map EpIoTask.seen

/-- The codes that the calls on `fd` returned. -/
def codesOf (fd : ℤ) (outs : List (ℤ × ℤ × List EpIoTask)) : List ℤ :=
  (callsOf fd outs).map Prod.fst

/-! ## A connection on its own -/

def viewStep (defCapacity maxCapacity : ℤ) :
    Option IoView → IoCall → Option IoView × ℤ × List SeenFrame
  | none, .add => (some (.start defCapacity), 1, [])
  | some v, .add => (some v, 0, [])
  | none, .enqueue _ => (none, -3, [])
  | some v, .enqueue inbuf =>
    let r := v.enqueue maxCapacity inbuf
    (some r.1, r.2)
  | none, .updateAes _ => (none, 0, [])
  | some v, .updateAes aes => (some { v with aes := aes }, 1, [])
  | none, .del => (none, 0, [])
  | some _, .del => (none, 1, [])

/-! ## The table -/

section Table

variable {l : List EpIo} {io : EpIo} {fd fd' : ℤ}

theorem map_fd_replaceIo (io : EpIo) (l : List EpIo) :
    (replaceIo io l).map EpIo.fd = l.map EpIo.fd := by
  induction l with
  | nil => rfl
  | cons x xs ih =>
    unfold replaceIo
    split_ifs with hx
    · simp [hx]
    · simp [ih]

theorem mem_replaceIo {x : EpIo} (h : x ∈ replaceIo io l) : x = io ∨ x ∈ l := by
  induction l with
  | nil => cases h
  | cons y ys ih =>
    unfold replaceIo at h
    split_ifs at h with hy
    · exact (List.mem_cons.mp h).imp_right (List.mem_cons_of_mem _)
    · rcases List.mem_cons.mp h with rfl | h
      · exact .inr (List.mem_cons_self ..)
      · exact (ih h).imp_right (List.mem_cons_of_mem _)

theorem find_replaceIo_of_ne (h : io.fd ≠ fd) :
    (replaceIo io l).find? (fun x => x.fd = fd) = l.find? fun x => x.fd = fd := by
  induction l with
  | nil => rfl
  | cons x xs ih =>
    unfold replaceIo
    split_ifs with hx
    · have hne : ¬ x.fd = fd := hx ▸ h
      simp [h, hne]
    · simp [List.find?_cons, ih]

theorem find_eraseP_of_ne (h : fd' ≠ fd) :
    (l.eraseP fun x => x.fd = fd').find? (fun x => x.fd = fd) = l.find? fun x => x.fd = fd := by
  induction l with
  | nil => rfl
  | cons x xs ih =>
    by_cases hx : x.fd = fd'
    · simp [hx, h]
    · simp [hx, List.find?_cons, ih]

theorem find_eraseP_self (h : (l.map EpIo.fd).Nodup) :
    (l.eraseP fun x => x.fd = fd).find? (fun x => x.fd = fd) = none := by
  induction l with
  | nil => rfl
  | cons x xs ih =>
    obtain ⟨hnew, hxs⟩ := List.nodup_cons.mp h
    by_cases hx : x.fd = fd
    · rw [List.eraseP_cons_of_pos (by simpa using hx), List.find?_eq_none]
      intro y hy hfd
      exact hnew (hx.trans (of_decide_eq_true hfd).symm ▸ List.mem_map_of_mem hy)
    · rw [List.eraseP_cons_of_neg (by simpa using hx), List.find?_cons_of_neg (by simpa using hx)]
      exact ih hxs

end Table

/-- The list of connections is the family `f`. -/
structure Views (defCapacity maxCapacity : ℤ) (ioMgr : EpIoMgr) (f : ℤ → Option IoView) :
    Prop where
  def_eq : ioMgr.defCapacity = defCapacity
  max_eq : ioMgr.maxCapacity = maxCapacity
  nodup : (ioMgr.ioList.map EpIo.fd).Nodup
  ready : ∀ io ∈ ioMgr.ioList, io.Ready maxCapacity
  view : ∀ fd, (epIoFind ioMgr fd).map EpIo.view = f fd

section Simulation

variable {defCapacity maxCapacity : ℤ} {ioMgr : EpIoMgr} {f : ℤ → Option IoView} {fd : ℤ}
  {io io' : EpIo}

/-- Storing a changed connection back changes the family under its descriptor. -/
theorem Views.replace (h : Views defCapacity maxCapacity ioMgr f)
    (hfind : epIoFind ioMgr fd = some io) (hfd : io'.fd = fd) (hready : io'.Ready maxCapacity) :
    Views defCapacity maxCapacity { ioMgr with ioList := replaceIo io' ioMgr.ioList }
      (Function.update f fd (some io'.view)) := by
  refine ⟨h.def_eq, h.max_eq, ?_, fun x hx => ?_, fun fd' => ?_⟩
  · rw [map_fd_replaceIo]
    exact h.nodup
  · rcases mem_replaceIo hx with rfl | hx
    · exact hready
    · exact h.ready x hx
  · by_cases hne : fd' = fd
    · subst hne
      rw [Function.update_self, epIoFind, find_replaceIo hfind hfd]
      rfl
    · rw [Function.update_of_ne hne, ← h.view fd', epIoFind, epIoFind,
        find_replaceIo_of_ne (by rw [hfd]; exact Ne.symm hne)]

/-- A call that changes nothing. -/
theorem Views.same (h : Views defCapacity maxCapacity ioMgr f) {v : Option IoView}
    (hv : f fd = v) : Views defCapacity maxCapacity ioMgr (Function.update f fd v) := by
  rwa [← hv, Function.update_eq_self]

theorem Views.add (h : Views defCapacity maxCapacity ioMgr f) (hdef : 0 < defCapacity)
    (hmax : 0 < maxCapacity) (hnew : epIoFind ioMgr fd = none) :
    Views defCapacity maxCapacity (epIoAdd ioMgr fd)
      (Function.update f fd (some (.start defCapacity))) := by
  have hnone := hnew
  unfold epIoFind at hnone
  simp only [epIoAdd, hnew]
  refine ⟨h.def_eq, h.max_eq, ?_, fun x hx => ?_, fun fd' => ?_⟩
  · have hfds : ∀ x ∈ ioMgr.ioList, x.fd ≠ fd := by simpa using hnone
    simpa [List.nodup_append] using ⟨h.nodup, hfds⟩
  · rcases List.mem_append.mp hx with hx | hx
    · exact h.ready x hx
    · obtain rfl := List.mem_singleton.mp hx
      rw [h.def_eq, h.max_eq]
      exact ⟨epRbNew_valid hdef hmax, rfl, by simp, by simp, by simp⟩
  · by_cases hne : fd' = fd
    · subst hne
      have hfind : epIoFind (epIoAdd ioMgr fd') fd' = some
          ⟨epRbNew ioMgr.defCapacity ioMgr.maxCapacity, ⟨0, .ofWord 0, 0, 0, 0⟩, false,
            ⟨fun _ => 0, fun _ => 0⟩, fd'⟩ := by
        simp only [epIoAdd, hnew]
        simp [epIoFind, hnone]
      simp only [epIoAdd, hnew] at hfind
      rw [Function.update_self, hfind, h.def_eq]
      rfl
    · rw [Function.update_of_ne hne, ← h.view fd']
      simp [epIoFind, Ne.symm hne]

theorem Views.del (h : Views defCapacity maxCapacity ioMgr f) :
    Views defCapacity maxCapacity
      { ioMgr with ioList := ioMgr.ioList.eraseP fun io => io.fd = fd }
      (Function.update f fd none) := by
  have hsub : (ioMgr.ioList.eraseP fun io => io.fd = fd).Sublist ioMgr.ioList :=
    List.eraseP_sublist
  refine ⟨h.def_eq, h.max_eq, h.nodup.sublist (hsub.map _), fun x hx => h.ready x (hsub.subset hx),
    fun fd' => ?_⟩
  by_cases hne : fd' = fd
  · subst hne
    rw [Function.update_self, epIoFind, find_eraseP_self h.nodup]
    rfl
  · rw [Function.update_of_ne hne, ← h.view fd', epIoFind, epIoFind,
      find_eraseP_of_ne (Ne.symm hne)]

theorem EpIoTask.Shows.seen_eq {t : EpIoTask} {frame : EpShell × List UInt8}
    (h : t.Shows frame) : t.seen = seenOf frame := by
  obtain ⟨hshell, -, hinput⟩ := h
  unfold EpIoTask.seen seenOf
  rw [hshell]
  cases hin : t.input with
  | none =>
    rw [hin] at hinput
    simp only [Option.map_none]
    rw [if_pos hinput]
  | some b =>
    rw [hin] at hinput
    obtain ⟨hne, hfit, hholds⟩ := hinput
    rw [if_neg (not_or.mpr ⟨hne, not_lt.mpr hfit⟩), Option.map_some, hholds.bytes_eq]

theorem map_seen_of_shows {tasks : List EpIoTask} {frames : List (EpShell × List UInt8)}
    (h : List.Forall₂ EpIoTask.Shows tasks frames) :
    tasks.map EpIoTask.seen = frames.map seenOf := by
  induction h with
  | nil => rfl
  | cons hshows _ ih => simp [hshows.seen_eq, ih]

/-- `ep_io_enqueue` on a connection, in terms of its view. -/
theorem Views.enqueue (h : Views defCapacity maxCapacity ioMgr f)
    (hfind : epIoFind ioMgr fd = some io) (inbuf : List UInt8) {fuel : ℕ}
    (hfuel : (io.raw ++ inbuf).length < fuel)
    (hnonneg : ∀ x ∈ (io.view.enqueue maxCapacity inbuf).2.2, 0 ≤ x.1.shellSize.toInt)
    (hint : ¬ io.view.Outgrows maxCapacity inbuf.length) (fresh : ℕ → ℕ → ℤ → UInt8) :
    ∃ ioMgr' log, epIoEnqueue fuel fresh ioMgr fd inbuf =
        some (ioMgr', (io.view.enqueue maxCapacity inbuf).2.1, log) ∧
      Views defCapacity maxCapacity ioMgr'
        (Function.update f fd (some (io.view.enqueue maxCapacity inbuf).1)) ∧
      log.dispatched.map EpIoTask.seen = (io.view.enqueue maxCapacity inbuf).2.2 ∧
      ∀ t ∈ log.dispatched, t.fd = fd := by
  have hfd := epIoFind_fd hfind
  have hready₀ := h.ready io (List.mem_of_find?_eq_some hfind)
  obtain ⟨hready, hcap, hwrited, hraw⟩ := hready₀.write (fresh 0 0) inbuf
  rw [← hready₀.outgrows_iff] at hint
  unfold epIoEnqueue
  simp only [hfind, epRbTryWrite, if_neg hint]
  generalize epRbWrite (fresh 0 0) io.recv inbuf inbuf.length = w at hready hcap hwrited hraw ⊢
  generalize hchild : ({ io with recv := w.1 } : EpIo) = child at hready hraw ⊢
  have hchildfd : child.fd = fd := by rw [← hchild]; exact hfd
  have hview : child.view = ⟨io.raw ++ inbuf.take w.2.toNat, io.bShellCached,
      io.view.grown maxCapacity inbuf.length, io.aes⟩ := by
    rw [← hraw, ← hcap, ← hchild]
    rfl
  unfold IoView.enqueue at hnonneg ⊢
  simp only [← hwrited] at hnonneg ⊢
  by_cases hshort : w.2 < inbuf.length
  · simp only [if_pos hshort]
    refine ⟨_, _, rfl, ?_, rfl, by simp⟩
    have hrep := h.replace hfind hchildfd hready
    rw [hview] at hrep
    exact hrep
  · simp only [if_neg hshort] at hnonneg ⊢
    have hall : inbuf.take w.2.toNat = inbuf := List.take_of_length_le (by omega)
    rw [hall] at hraw hview
    have hrawview : io.view.raw ++ inbuf = child.raw := hraw.symm
    rw [hrawview] at hnonneg ⊢
    obtain ⟨io', log, hloop, hrun⟩ := enqueueLoop_run hready (by rwa [hraw])
      (fun x hx => hnonneg (seenOf x) (List.mem_map_of_mem hx)) fun i => fresh (i + 1)
    rw [← h.max_eq] at hloop
    refine ⟨{ ioMgr with ioList := replaceIo io' ioMgr.ioList }, log, ?_, ?_,
      map_seen_of_shows hrun.shows, fun t ht => (hrun.task_fd t ht).trans hchildfd⟩
    · rw [hloop, h.max_eq]
      rfl
    · have hview' : io'.view = ⟨((shellParser maxCapacity).run child.raw).rest,
          ((shellParser maxCapacity).run child.raw).code = 1,
          io.view.grown maxCapacity inbuf.length, io.view.aes⟩ := by
        rw [hrun.view_eq, show child.recv.capacity = _ from congrArg IoView.capacity hview,
          show child.aes = _ from congrArg IoView.aes hview]
        rfl
      rw [← hview']
      exact h.replace hfind (hrun.kept.fd.trans hchildfd) hrun.ready

/-- The unparsed bytes under a descriptor. -/
def rawLength : Option IoView → ℕ
  | none => 0
  | some v => v.raw.length

/-- The bytes that a call brings in. -/
def IoCall.bytes : IoCall → ℕ
  | .enqueue inbuf => inbuf.length
  | _ => 0

/-- The process survives the call: the ring buffer does not outgrow an `int`. -/
def Survived (maxCapacity : ℤ) : Option IoView → IoCall → Prop
  | some v, .enqueue inbuf => ¬ v.Outgrows maxCapacity inbuf.length
  | _, _ => True

theorem rawLength_viewStep_le (defCapacity maxCapacity : ℤ) (v : Option IoView) (call : IoCall) :
    rawLength (viewStep defCapacity maxCapacity v call).1 ≤ rawLength v + call.bytes := by
  cases v with
  | none => cases call <;> simp [viewStep, rawLength, IoView.start]
  | some v =>
    cases call with
    | enqueue inbuf => exact v.length_raw_enqueue_le maxCapacity inbuf
    | add => simp [viewStep, rawLength]
    | updateAes aes => simp [viewStep, rawLength]
    | del => simp [viewStep, rawLength]

/-- One call is one step of the connection it names. -/
theorem Views.call (h : Views defCapacity maxCapacity ioMgr f) (hdef : 0 < defCapacity)
    (hmax : 0 < maxCapacity) (call : IoCall) (fuel : ℕ)
    (hfuel : rawLength (f fd) + call.bytes < fuel)
    (hnonneg : ∀ x ∈ (viewStep defCapacity maxCapacity (f fd) call).2.2,
      0 ≤ x.1.shellSize.toInt) (hint : Survived maxCapacity (f fd) call)
    (fresh : ℕ → ℕ → ℤ → UInt8) :
    ∃ ioMgr' tasks, epIoCall fuel fresh ioMgr fd call =
        some (ioMgr', (viewStep defCapacity maxCapacity (f fd) call).2.1, tasks) ∧
      Views defCapacity maxCapacity ioMgr'
        (Function.update f fd (viewStep defCapacity maxCapacity (f fd) call).1) ∧
      tasks.map EpIoTask.seen = (viewStep defCapacity maxCapacity (f fd) call).2.2 ∧
      ∀ t ∈ tasks, t.fd = fd := by
  have hview := h.view fd
  cases hfind : epIoFind ioMgr fd with
  | none =>
    rw [hfind, Option.map_none] at hview
    rw [← hview]
    cases call with
    | add =>
      exact ⟨_, [], by simp [epIoCall, hfind, viewStep], h.add hdef hmax hfind, rfl, by simp⟩
    | enqueue inbuf =>
      exact ⟨_, [], by simp [epIoCall, epIoEnqueue, hfind, viewStep], h.same hview.symm, rfl,
        by simp⟩
    | updateAes aes =>
      exact ⟨_, [], by simp [epIoCall, epIoUpdateAes, hfind, viewStep], h.same hview.symm, rfl,
        by simp⟩
    | del =>
      exact ⟨_, [], by simp [epIoCall, epIoDel, hfind, viewStep], h.same hview.symm, rfl, by simp⟩
  | some io =>
    rw [hfind, Option.map_some] at hview
    rw [← hview] at hfuel hnonneg hint ⊢
    have hready := h.ready io (List.mem_of_find?_eq_some hfind)
    cases call with
    | add =>
      exact ⟨_, [], by simp [epIoCall, epIoAdd, hfind, viewStep], h.same hview.symm, rfl, by simp⟩
    | enqueue inbuf =>
      obtain ⟨ioMgr', log, hcall, hviews, hseen, hfds⟩ := h.enqueue hfind inbuf
        (by rw [List.length_append]; exact hfuel) hnonneg hint fresh
      exact ⟨ioMgr', log.dispatched, by rw [epIoCall, hcall]; rfl, hviews, hseen, hfds⟩
    | updateAes aes =>
      have hready' : ({ io with aes := aes } : EpIo).Ready maxCapacity :=
        ⟨hready.valid, hready.limit, hready.magic, hready.size_pos, hready.size_le⟩
      have hfd : io.fd = fd := epIoFind_fd hfind
      refine ⟨{ ioMgr with ioList := replaceIo { io with aes := aes } ioMgr.ioList }, [],
        by simp [epIoCall, epIoUpdateAes, hfind, viewStep], ?_, rfl, by simp⟩
      exact h.replace hfind hfd hready'
    | del => exact ⟨_, [], by simp [epIoCall, epIoDel, hfind, viewStep], h.del, rfl, by simp⟩

def totalBytes (calls : List (ℤ × IoCall)) : ℕ := (calls.map fun c => c.2.bytes).sum

@[simp] theorem totalBytes_cons (c : ℤ × IoCall) (calls : List (ℤ × IoCall)) :
    totalBytes (c :: calls) = c.2.bytes + totalBytes calls := rfl

/-- What can be seen of one call. -/
def seenOut (out : ℤ × ℤ × List EpIoTask) : ℤ × ℤ × List SeenFrame :=
  (out.1, out.2.1, out.2.2.map EpIoTask.seen)

/-- A run of calls is a run of the family. -/
theorem Views.calls (h : Views defCapacity maxCapacity ioMgr f) (hdef : 0 < defCapacity)
    (hmax : 0 < maxCapacity) (calls : List (ℤ × IoCall)) (fuel : ℕ)
    (hfuel : ∀ fd, rawLength (f fd) + totalBytes calls < fuel)
    (hnonneg : ∀ o ∈ (runAll (viewStep defCapacity maxCapacity) f calls).2, ∀ x ∈ o.2.2,
      0 ≤ x.1.shellSize.toInt)
    (hint : AlwaysAll (viewStep defCapacity maxCapacity) (Survived maxCapacity) f calls)
    (fresh : ℕ → ℕ → ℕ → ℤ → UInt8) :
    ∃ ioMgr' outs, epIoCalls fuel fresh ioMgr calls = some (ioMgr', outs) ∧
      Views defCapacity maxCapacity ioMgr'
        (runAll (viewStep defCapacity maxCapacity) f calls).1 ∧
      outs.map seenOut = (runAll (viewStep defCapacity maxCapacity) f calls).2 ∧
      ∀ out ∈ outs, ∀ t ∈ out.2.2, t.fd = out.1 := by
  induction calls generalizing ioMgr f fresh with
  | nil => exact ⟨ioMgr, [], rfl, h, rfl, by simp⟩
  | cons c calls ih =>
    obtain ⟨fd, call⟩ := c
    simp only [totalBytes_cons] at hfuel
    simp only [runAll, List.mem_cons, forall_eq_or_imp] at hnonneg
    obtain ⟨ioMgr₁, tasks, hcall, hviews, hseen, hfds⟩ :=
      h.call hdef hmax call fuel (by have := hfuel fd; omega) hnonneg.1 hint.1 (fresh 0)
    have hstep := rawLength_viewStep_le defCapacity maxCapacity (f fd) call
    obtain ⟨ioMgr', outs, hcalls, hviews', hseen', hfds'⟩ := ih hviews
      (fun fd' => by
        have := hfuel fd'
        by_cases hne : fd' = fd
        · subst hne
          rw [Function.update_self]
          omega
        · rw [Function.update_of_ne hne]
          omega) hnonneg.2 hint.2 fun i => fresh (i + 1)
    have hrun : epIoCalls fuel fresh ioMgr ((fd, call) :: calls) = some (ioMgr',
        (fd, (viewStep defCapacity maxCapacity (f fd) call).2.1, tasks) :: outs) := by
      simp only [epIoCalls, hcall, Option.bind_eq_bind, Option.bind_some, hcalls]
    refine ⟨ioMgr', _, hrun, hviews', ?_, ?_⟩
    · simp only [runAll, List.map_cons, seenOut, hseen, hseen']
    · simp only [List.mem_cons, forall_eq_or_imp]
      exact ⟨hfds, hfds'⟩

theorem callsOf_map_seenOut (fd : ℤ) (outs : List (ℤ × ℤ × List EpIoTask)) :
    callsOf fd (outs.map seenOut) =
      (callsOf fd outs).map fun out => (out.1, out.2.map EpIoTask.seen) := by
  induction outs with
  | nil => rfl
  | cons out outs ih =>
    obtain ⟨fd', out⟩ := out
    rw [List.map_cons, seenOut]
    by_cases hne : fd' = fd
    · subst hne
      simp only [callsOf_cons_self, List.map_cons, ih]
    · rw [callsOf_cons_of_ne hne, callsOf_cons_of_ne hne, ih]

/-- A call dispatches for its own descriptor only, so what was dispatched for `fd` was
dispatched by calls on it. -/
theorem framesFor_eq {fd : ℤ} {outs : List (ℤ × ℤ × List EpIoTask)}
    (hfds : ∀ out ∈ outs, ∀ t ∈ out.2.2, t.fd = out.1) :
    framesFor fd outs = (callsOf fd (outs.map seenOut)).flatMap Prod.snd := by
  induction outs with
  | nil => rfl
  | cons out outs ih =>
    obtain ⟨fd', code, tasks⟩ := out
    simp only [List.mem_cons, forall_eq_or_imp] at hfds
    obtain ⟨hfd, hrest⟩ := hfds
    have hcons : framesFor fd ((fd', code, tasks) :: outs) =
        (tasks.filter fun t => t.fd = fd).map EpIoTask.seen ++ framesFor fd outs := by
      simp [framesFor]
    rw [hcons, ih hrest, List.map_cons, seenOut]
    by_cases hne : fd' = fd
    · subst hne
      rw [List.filter_eq_self.mpr fun t ht => by simpa using hfd t ht, callsOf_cons_self,
        List.flatMap_cons]
    · rw [List.filter_eq_nil_iff.mpr fun t ht => by simpa [hfd t ht] using hne,
        callsOf_cons_of_ne hne]
      rfl

end Simulation

/-- Every frame that is read off the bytes of a connection declares a size that is not
negative. A header with a negative size is always read as a frame, since it has nothing
to wait for. -/
def NonnegHeaders (defCapacity maxCapacity : ℤ) (calls : List (ℤ × IoCall)) : Prop :=
  ∀ fd, ∀ out ∈ (run (viewStep defCapacity maxCapacity) none (callsOf fd calls)).2,
    ∀ frame ∈ out.2, 0 ≤ frame.1.shellSize.toInt

/-- No connection is given a chunk for which its ring buffer outgrows an `int`. -/
def IntCapacities (defCapacity maxCapacity : ℤ) (calls : List (ℤ × IoCall)) : Prop :=
  ∀ fd, Always (viewStep defCapacity maxCapacity) (Survived maxCapacity) none (callsOf fd calls)

/-- As long as few bytes are received in all. -/
theorem intCapacities_of_bytes (defCapacity maxCapacity : ℤ) {calls : List (ℤ × IoCall)}
    (h : 2 * totalBytes calls ≤ 2 ^ 31) : IntCapacities defCapacity maxCapacity calls := by
  intro fd
  suffices hsome : ∀ (v : Option IoView) (calls : List (ℤ × IoCall)),
      2 * (rawLength v + totalBytes calls) ≤ 2 ^ 31 →
      Always (viewStep defCapacity maxCapacity) (Survived maxCapacity) v (callsOf fd calls) from
    hsome none calls (by simpa [rawLength] using h)
  intro v calls hbytes
  induction calls generalizing v with
  | nil => trivial
  | cons c calls ih =>
    obtain ⟨fd', call⟩ := c
    simp only [totalBytes_cons] at hbytes
    by_cases hne : fd' = fd
    · subst hne
      rw [callsOf_cons_self]
      have hstep := rawLength_viewStep_le defCapacity maxCapacity v call
      refine ⟨?_, ih _ (by omega)⟩
      cases v with
      | none => cases call <;> trivial
      | some v =>
        cases call with
        | enqueue inbuf =>
          have hone : v.WithinInt maxCapacity [inbuf] :=
            IoView.withinInt_of_length (by simp [rawLength, IoCall.bytes] at hbytes ⊢; omega)
          exact hone.1
        | add => trivial
        | updateAes aes => trivial
        | del => trivial
    · rw [callsOf_cons_of_ne hne]
      exact ih v (by omega)

/-- From an empty table all calls return, and what can be seen of `fd` is what a
connection on its own does with the calls on `fd`. -/
theorem epIoCalls_at {ioMgr : EpIoMgr} (hdef : 0 < ioMgr.defCapacity)
    (hmax : ioMgr.defCapacity < ioMgr.maxCapacity) (hempty : ioMgr.ioList = [])
    {calls : List (ℤ × IoCall)}
    (hnonneg : NonnegHeaders ioMgr.defCapacity ioMgr.maxCapacity calls)
    (hint : IntCapacities ioMgr.defCapacity ioMgr.maxCapacity calls) {fuel : ℕ}
    (hfuel : totalBytes calls < fuel) (fresh : ℕ → ℕ → ℕ → ℤ → UInt8) (fd : ℤ) :
    ∃ ioMgr' outs, epIoCalls fuel fresh ioMgr calls = some (ioMgr', outs) ∧
      codesOf fd outs = (run (viewStep ioMgr.defCapacity ioMgr.maxCapacity) none
        (callsOf fd calls)).2.map Prod.fst ∧
      framesFor fd outs = (run (viewStep ioMgr.defCapacity ioMgr.maxCapacity) none
        (callsOf fd calls)).2.flatMap Prod.snd ∧
      epIoGetAes ioMgr' fd = (run (viewStep ioMgr.defCapacity ioMgr.maxCapacity) none
        (callsOf fd calls)).1.map IoView.aes := by
  have hstart : Views ioMgr.defCapacity ioMgr.maxCapacity ioMgr fun _ => none :=
    ⟨rfl, rfl, by simp [hempty], by simp [hempty], by simp [epIoFind, hempty]⟩
  have hall := runAll_at (viewStep ioMgr.defCapacity ioMgr.maxCapacity) (fun _ : ℤ => none)
  obtain ⟨ioMgr', outs, hrun, hviews, hseen, hfds⟩ := hstart.calls hdef (hdef.trans hmax) calls
    fuel (fun fd => by simpa [rawLength] using hfuel)
    (fun o ho x hx => hnonneg o.1 o.2 (by
      rw [← (hall o.1 calls).2]
      exact mem_callsOf.mpr ho) x hx) (alwaysAll_of_always _ _ hint) fresh
  obtain ⟨hstate, houts⟩ := hall fd calls
  rw [← hseen] at houts
  refine ⟨ioMgr', outs, hrun, ?_, ?_, ?_⟩
  · rw [← houts, callsOf_map_seenOut, List.map_map]
    rfl
  · rw [framesFor_eq hfds, houts]
  · rw [← hstate, ← hviews.view fd, epIoGetAes, Option.map_map]
    rfl

/-- Two runs with the same calls on `fd` cannot be told apart on `fd`: the same frames are
dispatched, the same codes are returned and the same key is stored, whatever the other
calls are and whatever the allocator hands out, as long as the process survives them. -/
theorem connections_do_not_interfere (ioMgr : EpIoMgr) (hdef : 0 < ioMgr.defCapacity)
    (hmax : ioMgr.defCapacity < ioMgr.maxCapacity) (hempty : ioMgr.ioList = []) (fd : ℤ)
    (calls₁ calls₂ : List (ℤ × IoCall)) (hsame : callsOf fd calls₁ = callsOf fd calls₂)
    (hnonneg₁ : NonnegHeaders ioMgr.defCapacity ioMgr.maxCapacity calls₁)
    (hnonneg₂ : NonnegHeaders ioMgr.defCapacity ioMgr.maxCapacity calls₂)
    (hint₁ : IntCapacities ioMgr.defCapacity ioMgr.maxCapacity calls₁)
    (hint₂ : IntCapacities ioMgr.defCapacity ioMgr.maxCapacity calls₂) (fuel : ℕ)
    (hfuel₁ : totalBytes calls₁ < fuel) (hfuel₂ : totalBytes calls₂ < fuel)
    (fresh₁ fresh₂ : ℕ → ℕ → ℕ → ℤ → UInt8) :
    ∃ ioMgr₁ outs₁ ioMgr₂ outs₂,
      epIoCalls fuel fresh₁ ioMgr calls₁ = some (ioMgr₁, outs₁) ∧
      epIoCalls fuel fresh₂ ioMgr calls₂ = some (ioMgr₂, outs₂) ∧
      framesFor fd outs₁ = framesFor fd outs₂ ∧ codesOf fd outs₁ = codesOf fd outs₂ ∧
      epIoGetAes ioMgr₁ fd = epIoGetAes ioMgr₂ fd := by
  obtain ⟨ioMgr₁, outs₁, hrun₁, hcodes₁, hframes₁, haes₁⟩ :=
    epIoCalls_at hdef hmax hempty hnonneg₁ hint₁ hfuel₁ fresh₁ fd
  obtain ⟨ioMgr₂, outs₂, hrun₂, hcodes₂, hframes₂, haes₂⟩ :=
    epIoCalls_at hdef hmax hempty hnonneg₂ hint₂ hfuel₂ fresh₂ fd
  refine ⟨ioMgr₁, outs₁, ioMgr₂, outs₂, hrun₁, hrun₂, ?_, ?_, ?_⟩
  · rw [hframes₁, hframes₂, hsame]
  · rw [hcodes₁, hcodes₂, hsame]
  · rw [haes₁, haes₂, hsame]

/-- The sizes of the headers in the first chunk are those that the parser finds. -/
theorem firstChunk_nonneg {defCapacity maxCapacity : ℤ} {inbuf : List UInt8}
    (h : ∀ x ∈ ((shellParser maxCapacity).run inbuf).items, 0 ≤ x.1.shellSize.toInt) :
    ∀ out ∈ (run (viewStep defCapacity maxCapacity) none [.add, .enqueue inbuf]).2,
      ∀ frame ∈ out.2, 0 ≤ frame.1.shellSize.toInt := by
  simp only [run, viewStep, List.mem_cons, List.not_mem_nil, or_false, forall_eq_or_imp, forall_eq,
    IsEmpty.forall_iff, implies_true, true_and, IoView.enqueue]
  split_ifs
  · exact List.forall_mem_nil _
  · intro frame hframe
    obtain ⟨x, hx, rfl⟩ := List.mem_map.mp hframe
    exact h x hx

/-- A header without a body is one frame. -/
theorem run_headerFrame {maxCapacity : ℤ} (hmax : 0 ≤ maxCapacity) :
    (shellParser maxCapacity).run headerFrame = ⟨[(fipsShell, [])], 0, []⟩ := by
  have hend : (shellParser maxCapacity).look [] = .more 0 := rfl
  have hitem := (headerFrame_built hmax).frame.2.take []
  rw [List.append_nil] at hitem
  rw [(shellParser maxCapacity).run_item hitem, (shellParser maxCapacity).run_more hend]
  rfl

/-- One connection and a header without a body. -/
def aloneCalls : List (ℤ × IoCall) := [(5, .add), (5, .enqueue headerFrame)]

theorem aloneCalls_nonneg (defCapacity : ℤ) {maxCapacity : ℤ} (hmax : 0 ≤ maxCapacity) :
    NonnegHeaders defCapacity maxCapacity aloneCalls := by
  intro fd
  by_cases h5 : 5 = fd
  · subst h5
    exact firstChunk_nonneg (by rw [run_headerFrame hmax]; decide)
  · simp [callsOf, aloneCalls, h5, run]

/-- The same beside a connection that is given other bytes. -/
def besideCalls (inbuf : List UInt8) : List (ℤ × IoCall) :=
  [(5, .add), (6, .add), (6, .enqueue inbuf), (5, .enqueue headerFrame)]

theorem besideCalls_nonneg (defCapacity : ℤ) {maxCapacity : ℤ} (hmax : 0 ≤ maxCapacity)
    {inbuf : List UInt8}
    (h : ∀ x ∈ ((shellParser maxCapacity).run inbuf).items, 0 ≤ x.1.shellSize.toInt) :
    NonnegHeaders defCapacity maxCapacity (besideCalls inbuf) := by
  intro fd
  by_cases h5 : 5 = fd
  · subst h5
    exact firstChunk_nonneg (by rw [run_headerFrame hmax]; decide)
  by_cases h6 : 6 = fd
  · subst h6
    exact firstChunk_nonneg h
  · simp [callsOf, besideCalls, h5, h6, run]

theorem connections_do_not_interfere_beside :
    ∃ ioMgr₁ outs₁ ioMgr₂ outs₂,
      epIoCalls 100 (fun _ _ _ _ => 0) { fipsMgr .server 9 with ioList := [] } aloneCalls =
        some (ioMgr₁, outs₁) ∧
      epIoCalls 100 (fun _ _ _ _ => 1) { fipsMgr .server 9 with ioList := [] } (besideCalls [0]) =
        some (ioMgr₂, outs₂) ∧
      framesFor 5 outs₁ = framesFor 5 outs₂ ∧ codesOf 5 outs₁ = codesOf 5 outs₂ ∧
      epIoGetAes ioMgr₁ 5 = epIoGetAes ioMgr₂ 5 := by
  have hbyte : (shellParser 4194304).run [0] = ⟨[], 0, [0]⟩ :=
    (shellParser 4194304).run_more rfl
  exact connections_do_not_interfere _ (by decide) (by decide) rfl 5 aloneCalls (besideCalls [0])
    rfl (aloneCalls_nonneg _ (by decide))
    (besideCalls_nonneg _ (by decide) (fun x hx => by
      rw [show (_ : EpIoMgr).maxCapacity = 4194304 from rfl, hbyte] at hx
      cases hx))
    (intCapacities_of_bytes _ _ (by decide)) (intCapacities_of_bytes _ _ (by decide)) 100
    (by decide) (by decide) _ _

/-! ## A connection that takes the others with it -/

/-- Bytes without the magic number: the parser refuses the first header. -/
theorem run_zeros {maxCapacity : ℤ} {n : ℕ} (hn : sizeofEpShell ≤ n) :
    ((shellParser maxCapacity).run (List.replicate n 0)).items = [] := by
  have hmagic : (EpShell.ofBytes (List.replicate n 0)).toHost.magic ≠ epMagicNumber := by
    rw [← EpShell.ofBytes_take, List.take_replicate, min_eq_left hn]
    decide
  have hlook : (shellParser maxCapacity).look (List.replicate n 0) =
      .refuse (-1) ((List.replicate n 0).drop sizeofEpShell) := by
    have hlen : ¬ (List.replicate n (0 : UInt8)).length < sizeofEpShell := by simpa using hn
    simp only [shellParser, shellLook, if_neg hlen, if_pos hmagic]
  rw [(shellParser maxCapacity).run_refuse hlook]

/-- No call after the chunk is made. -/
theorem epIoCalls_beside {n : ℕ} (hn : n = 2 ^ 30 + 1) (fuel : ℕ)
    (fresh : ℕ → ℕ → ℕ → ℤ → UInt8) :
    epIoCalls fuel fresh { hugeMgr with ioList := [] } (besideCalls (List.replicate n 0)) =
      none := by
  have hview : HasView (epIoAdd (epIoAdd { hugeMgr with ioList := [] } 5) 6) 6 (.start (2 ^ 30)) :=
    (epIoAdd_hasView (by decide) (by decide) rfl).1
  have hout : (IoView.start (2 ^ 30)).Outgrows
      (epIoAdd (epIoAdd { hugeMgr with ioList := [] } 5) 6).maxCapacity
      (List.replicate n (0 : UInt8)).length := by
    rw [List.length_replicate, hn]
    exact ⟨by decide, by decide⟩
  have hnone := epIoEnqueue_outgrown hview hout fuel (fresh 2)
  simp only [besideCalls, epIoCalls, epIoCall, Option.bind_eq_bind, Option.bind_some, hnone,
    Option.map_none, Option.bind_none]

/-- The same two calls on a connection: alone they dispatch a frame, and beside a connection
that is given a chunk of the size of the limit the second one is never made. -/
theorem connections_interfere :
    callsOf 5 aloneCalls = callsOf 5 (besideCalls (List.replicate (2 ^ 30 + 1) 0)) ∧
    NonnegHeaders hugeMgr.defCapacity hugeMgr.maxCapacity aloneCalls ∧
    NonnegHeaders hugeMgr.defCapacity hugeMgr.maxCapacity
      (besideCalls (List.replicate (2 ^ 30 + 1) 0)) ∧
    (epIoCalls 100 (fun _ _ _ _ => 0) { hugeMgr with ioList := [] } aloneCalls).map
      (fun r => (codesOf 5 r.2, (framesFor 5 r.2).length)) = some ([1, 0], 1) ∧
    ∀ fuel fresh, epIoCalls fuel fresh { hugeMgr with ioList := [] }
      (besideCalls (List.replicate (2 ^ 30 + 1) 0)) = none := by
  refine ⟨rfl, aloneCalls_nonneg _ (by decide), besideCalls_nonneg _ (by decide) fun x hx => ?_,
    by decide, epIoCalls_beside rfl⟩
  rw [run_zeros (by decide)] at hx
  cases hx

end Youmenu.Eventpack
