import Youmenu.Eventpack.Enqueue

/-!
# Stream reassembly: calls of `ep_io_enqueue`

Of a connection only a part matters, its view: the bytes that are not yet part of a
frame, whether a header has been taken off them, the capacity of the ring buffer and
the key. A call reads the chunk behind the unparsed bytes and runs the abstract
parser over them. It does so as long as making room for the chunk keeps the capacity
an `int`; beyond that the process is killed, and with it every stream.

## Main definitions

* `IoView`, `IoView.enqueue` — a connection on its own, and a call on it.
* `IoView.WithinInt` — the ring buffer stays within an `int` while chunks arrive.
* `HasView` — the table has a connection in that state.
* `enqueueAll`, `BuiltFrame` — the chunks of a stream, and the frames in it.
* `CallsSafe` — calls on arbitrary bytes that return and are safe.

## Main statements

* `epIoEnqueue_reassembles_iff` — the frames of a stream arrive whole.
* `epIoEnqueue_safe_iff` — the same on arbitrary bytes.
-/

namespace Youmenu.Eventpack

open Circular Incremental

/-! ## A connection on its own -/

/-- What a processor gets of a frame: the header, and the bytes of the body if there are any. -/
abbrev SeenFrame := EpShell × Option (List UInt8)

/-- A frame as the parser finds it and as it is seen: a body that is empty or too long for
a buffer is left out. -/
def seenOf (frame : EpShell × List UInt8) : SeenFrame :=
  (frame.1,
    if frame.2 = [] ∨ (frame.2.length : ℤ) > 2 ^ 31 - 16 then none else some frame.2)

/-- The part of a connection that matters. -/
@[ext] structure IoView where
  raw : List UInt8
  cached : Bool
  capacity : ℤ
  aes : EpAesKey

def EpIo.view (io : EpIo) : IoView := ⟨io.raw, io.bShellCached, io.recv.capacity, io.aes⟩

namespace IoView

/-- A connection that `ep_io_add` has just made. -/
def start (defCapacity : ℤ) : IoView := ⟨[], false, defCapacity, ⟨fun _ => 0, fun _ => 0⟩⟩

/-- The bytes in the ring buffer: a cached header is no longer there. -/
def buffered (v : IoView) : ℤ :=
  if v.cached then v.raw.length - sizeofEpShell else v.raw.length

/-- The capacity after room has been made for `n` bytes. -/
def grown (maxCapacity : ℤ) (v : IoView) (n : ℤ) : ℤ :=
  if v.capacity - v.buffered ≥ n then v.capacity else v.capacity + min n maxCapacity

def enqueue (maxCapacity : ℤ) (v : IoView) (inbuf : List UInt8) :
    IoView × ℤ × List SeenFrame :=
  let capacity := v.grown maxCapacity inbuf.length
  let writed := min (inbuf.length : ℤ) (capacity - v.buffered)
  if writed < inbuf.length then
    ({ v with raw := v.raw ++ inbuf.take writed.toNat, capacity := capacity }, -2, [])
  else
    let o := (shellParser maxCapacity).run (v.raw ++ inbuf)
    (⟨o.rest, o.code = 1, capacity, v.aes⟩, o.code, o.items.map seenOf)

/-- Making room for `n` bytes takes the ring buffer beyond an `int`. -/
def Outgrows (maxCapacity : ℤ) (v : IoView) (n : ℤ) : Prop :=
  v.capacity - v.buffered < n ∧ 2 ^ 31 ≤ v.capacity + min n maxCapacity

/-- The ring buffer stays within an `int` while the chunks arrive. -/
def WithinInt (maxCapacity : ℤ) : IoView → List (List UInt8) → Prop
  | _, [] => True
  | v, c :: cs => ¬ v.Outgrows maxCapacity c.length ∧
      WithinInt maxCapacity (v.enqueue maxCapacity c).1 cs

variable {maxCapacity : ℤ} {v : IoView}

theorem buffered_le (v : IoView) : v.buffered ≤ v.raw.length := by
  unfold buffered
  split_ifs <;> omega

theorem length_raw_enqueue_le (maxCapacity : ℤ) (v : IoView) (inbuf : List UInt8) :
    (v.enqueue maxCapacity inbuf).1.raw.length ≤ v.raw.length + inbuf.length := by
  simp only [enqueue]
  split_ifs
  · simp only [List.length_append, List.length_take]
    omega
  · have hrest := (shellParser maxCapacity).length_rest_le (v.raw ++ inbuf)
    rwa [List.length_append] at hrest

/-- As long as few bytes are received in all, the ring buffer stays within an `int`,
whatever its capacity is: it grows only where these bytes do not fit. -/
theorem withinInt_of_length {chunks : List (List UInt8)}
    (h : 2 * (v.raw ++ chunks.flatten).length ≤ 2 ^ 31) : v.WithinInt maxCapacity chunks := by
  induction chunks generalizing v with
  | nil => trivial
  | cons c cs ih =>
    simp only [List.flatten_cons, List.length_append] at h
    have hbuf := v.buffered_le
    have hraw := length_raw_enqueue_le maxCapacity v c
    refine ⟨fun hout => ?_, ih ?_⟩
    · obtain ⟨hroom, hbig⟩ := hout
      omega
    · rw [List.length_append]
      omega

/-- A chunk that is not over the limit is taken whole. -/
theorem enqueue_eq (hroom : v.buffered ≤ v.capacity) {inbuf : List UInt8}
    (hlen : (inbuf.length : ℤ) ≤ maxCapacity) :
    v.enqueue maxCapacity inbuf =
      (⟨((shellParser maxCapacity).run (v.raw ++ inbuf)).rest,
          ((shellParser maxCapacity).run (v.raw ++ inbuf)).code = 1,
          v.grown maxCapacity inbuf.length, v.aes⟩,
        ((shellParser maxCapacity).run (v.raw ++ inbuf)).code,
        ((shellParser maxCapacity).run (v.raw ++ inbuf)).items.map seenOf) := by
  have hall : ¬ min (inbuf.length : ℤ) (v.grown maxCapacity inbuf.length - v.buffered) <
      inbuf.length := by
    unfold grown
    split_ifs <;> omega
  simp only [enqueue, if_neg hall]

end IoView

section Write

variable {io : EpIo} {maxCapacity : ℤ}

theorem EpIo.Ready.buffered_view (h : io.Ready maxCapacity) :
    io.view.buffered = epRbCanRead io.recv := by
  rw [h.valid.canRead_eq_length]
  cases hc : io.bShellCached with
  | false => simp [IoView.buffered, EpIo.view, hc, EpIo.raw]
  | true => simp [IoView.buffered, EpIo.view, hc, EpIo.raw]

theorem EpIo.Ready.outgrows_iff (h : io.Ready maxCapacity) (n : ℤ) :
    io.recv.Outgrows n ↔ io.view.Outgrows maxCapacity n := by
  rw [EpRb.Outgrows, IoView.Outgrows, h.buffered_view, h.limit]
  rfl

/-- What a write does to a view. -/
theorem EpIo.Ready.write (h : io.Ready maxCapacity) (mem : ℤ → UInt8) (inbuf : List UInt8) :
    let w := epRbWrite mem io.recv inbuf inbuf.length
    ({ io with recv := w.1 } : EpIo).Ready maxCapacity ∧
    w.1.capacity = io.view.grown maxCapacity inbuf.length ∧
    w.2 = min (inbuf.length : ℤ) (io.view.grown maxCapacity inbuf.length - io.view.buffered) ∧
    ({ io with recv := w.1 } : EpIo).raw = io.raw ++ inbuf.take w.2.toNat := by
  obtain ⟨hv, hun, hlim, hcap, hcount⟩ := epRbWrite_spec mem h.valid inbuf
  obtain ⟨-, -, -, hgrow⟩ := epRbExpandLimit_spec mem h.valid inbuf.length (by omega)
  have hgrown : (epRbExpandLimit mem io.recv inbuf.length).capacity =
      io.view.grown maxCapacity inbuf.length := by
    rw [hgrow, h.limit, IoView.grown, h.buffered_view]
    rfl
  rw [hgrown] at hcap hcount
  rw [h.buffered_view]
  refine ⟨⟨hv, hlim.trans h.limit, h.magic, h.size_pos, h.size_le⟩, hcap, hcount, ?_⟩
  rw [EpIo.raw, EpIo.raw, hun, List.append_assoc]

/-- The view after the loop. -/
theorem LoopRun.view_eq {io' : EpIo} {o : Out UInt8 (EpShell × List UInt8) ℤ}
    {log : EnqueueLog} (h : LoopRun maxCapacity o io io' log) :
    io'.view = ⟨o.rest, o.code = 1, io.recv.capacity, io.aes⟩ := by
  ext1
  · exact h.raw
  · exact Bool.eq_iff_iff.mpr (h.cached.trans (by simp))
  · exact h.kept.capacity
  · exact h.kept.aes

end Write

/-! ## Calls on a registered connection -/

/-- The table has a connection for `fd`, with the unparsed bytes `raw`. -/
def Registered (ioMgr : EpIoMgr) (fd : ℤ) (raw : List UInt8) : Prop :=
  ∃ io, epIoFind ioMgr fd = some io ∧ io.Ready ioMgr.maxCapacity ∧ io.raw = raw

/-- The table has a connection for `fd`, with the view `v`. -/
def HasView (ioMgr : EpIoMgr) (fd : ℤ) (v : IoView) : Prop :=
  ∃ io, epIoFind ioMgr fd = some io ∧ io.Ready ioMgr.maxCapacity ∧ io.view = v

theorem registered_iff {ioMgr : EpIoMgr} {fd : ℤ} {raw : List UInt8} :
    Registered ioMgr fd raw ↔ ∃ v, HasView ioMgr fd v ∧ v.raw = raw := by
  constructor
  · rintro ⟨io, hfind, hready, hraw⟩
    exact ⟨io.view, ⟨io, hfind, hready, rfl⟩, hraw⟩
  · rintro ⟨_, ⟨io, hfind, hready, rfl⟩, hraw⟩
    exact ⟨io, hfind, hready, hraw⟩

theorem epIoFind_fd {ioMgr : EpIoMgr} {fd : ℤ} {io : EpIo} (h : epIoFind ioMgr fd = some io) :
    io.fd = fd := by simpa using List.find?_some h

theorem epIoAdd_hasView {ioMgr : EpIoMgr} {fd : ℤ} (hdef : 0 < ioMgr.defCapacity)
    (hmax : ioMgr.defCapacity < ioMgr.maxCapacity) (hnew : epIoFind ioMgr fd = none) :
    HasView (epIoAdd ioMgr fd) fd (.start ioMgr.defCapacity) ∧
      (epIoAdd ioMgr fd).maxCapacity = ioMgr.maxCapacity := by
  have hnone := hnew
  unfold epIoFind at hnone
  simp only [epIoAdd, hnew]
  refine ⟨⟨_, by simp [epIoFind, hnone]; rfl, ?_, rfl⟩, trivial⟩
  exact ⟨epRbNew_valid hdef (by omega), rfl, by simp, by simp, by simp⟩

theorem epIoAdd_registered {ioMgr : EpIoMgr} {fd : ℤ} (hdef : 0 < ioMgr.defCapacity)
    (hmax : ioMgr.defCapacity < ioMgr.maxCapacity) (hnew : epIoFind ioMgr fd = none) :
    Registered (epIoAdd ioMgr fd) fd [] ∧ (epIoAdd ioMgr fd).maxCapacity = ioMgr.maxCapacity := by
  obtain ⟨hview, hcap⟩ := epIoAdd_hasView hdef hmax hnew
  exact ⟨registered_iff.mpr ⟨_, hview, rfl⟩, hcap⟩

section Calls

variable {ioMgr : EpIoMgr} {fd : ℤ} {v : IoView} {inbuf : List UInt8}

/-- No call survives a chunk for which the ring buffer outgrows an `int`. -/
theorem epIoEnqueue_outgrown (h : HasView ioMgr fd v)
    (hout : v.Outgrows ioMgr.maxCapacity inbuf.length) (fuel : ℕ) (fresh : ℕ → ℕ → ℤ → UInt8) :
    epIoEnqueue fuel fresh ioMgr fd inbuf = none := by
  obtain ⟨io, hfind, hready, rfl⟩ := h
  have hrb := (hready.outgrows_iff inbuf.length).mpr hout
  simp only [epIoEnqueue, hfind, epRbTryWrite, if_pos hrb]

/-- The chunk lands behind the unparsed bytes; the loop sees all of them. -/
theorem epIoEnqueue_eq (h : HasView ioMgr fd v) (hlen : (inbuf.length : ℤ) ≤ ioMgr.maxCapacity)
    (hint : ¬ v.Outgrows ioMgr.maxCapacity inbuf.length) (fuel : ℕ)
    (fresh : ℕ → ℕ → ℤ → UInt8) :
    ∃ child old, child.Ready ioMgr.maxCapacity ∧
      child.view = ⟨v.raw ++ inbuf, v.cached, v.grown ioMgr.maxCapacity inbuf.length, v.aes⟩ ∧
      v.buffered ≤ v.capacity ∧ child.fd = fd ∧ epIoFind ioMgr fd = some old ∧
      epIoEnqueue fuel fresh ioMgr fd inbuf =
        (enqueueLoop ioMgr.maxCapacity fuel (fun i => fresh (i + 1)) child).map fun r =>
          ({ ioMgr with ioList := replaceIo r.1 ioMgr.ioList }, r.2.1, r.2.2) := by
  obtain ⟨io, hfind, hready, rfl⟩ := h
  obtain ⟨hready', hcap, -, hraw⟩ := hready.write (fresh 0 0) inbuf
  obtain ⟨hall, -⟩ := epRbWrite_all (fresh 0 0) hready.valid inbuf (by rwa [hready.limit])
  rw [← hready.outgrows_iff] at hint
  rw [hall, Int.toNat_natCast, List.take_length] at hraw
  have hfd : io.fd = fd := epIoFind_fd hfind
  refine ⟨{ io with recv := (epRbWrite (fresh 0 0) io.recv inbuf inbuf.length).1 }, io, hready',
    ?_, ?_, hfd, hfind, ?_⟩
  · ext1
    · exact hraw
    · rfl
    · exact hcap
    · rfl
  · rw [hready.buffered_view]
    exact hready.valid.canRead_le
  · simp only [epIoEnqueue, hfind, epRbTryWrite, if_neg hint, hall, lt_irrefl, if_false]

theorem epIoEnqueue_spec (h : HasView ioMgr fd v) (hlen : (inbuf.length : ℤ) ≤ ioMgr.maxCapacity)
    (hint : ¬ v.Outgrows ioMgr.maxCapacity inbuf.length) {fuel : ℕ}
    (hfuel : (v.raw ++ inbuf).length < fuel)
    (hsound : ∀ x ∈ ((shellParser ioMgr.maxCapacity).run (v.raw ++ inbuf)).items, x.1.Sound)
    (fresh : ℕ → ℕ → ℤ → UInt8) :
    ∃ ioMgr' log io', epIoEnqueue fuel fresh ioMgr fd inbuf =
        some (ioMgr', ((shellParser ioMgr.maxCapacity).run (v.raw ++ inbuf)).code, log) ∧
      ioMgr'.maxCapacity = ioMgr.maxCapacity ∧ epIoFind ioMgr' fd = some io' ∧
      LoopSpec ioMgr.maxCapacity ((shellParser ioMgr.maxCapacity).run (v.raw ++ inbuf)) fd io' log ∧
      io'.view = (v.enqueue ioMgr.maxCapacity inbuf).1 := by
  obtain ⟨child, old, hready, hview, hroom, hfd, hold, heq⟩ :=
    epIoEnqueue_eq h hlen hint fuel fresh
  have hraw : child.raw = v.raw ++ inbuf := congrArg IoView.raw hview
  have hcap : child.recv.capacity = v.grown ioMgr.maxCapacity inbuf.length :=
    congrArg IoView.capacity hview
  have haes : child.aes = v.aes := congrArg IoView.aes hview
  rw [IoView.enqueue_eq hroom hlen]
  rw [← hraw] at hfuel hsound ⊢
  obtain ⟨io', log, hloop, hrun⟩ :=
    enqueueLoop_run hready hfuel (fun x hx => (hsound x hx).1) fun i => fresh (i + 1)
  have hspec := hrun.sound hsound
  rw [hfd] at hspec
  refine ⟨{ ioMgr with ioList := replaceIo io' ioMgr.ioList }, log, io', by rw [heq, hloop]; rfl,
    rfl, find_replaceIo hold hspec.fd_eq, hspec, ?_⟩
  rw [hrun.view_eq, hcap, haes]

theorem LoopSpec.hasView {ioMgr' : EpIoMgr} {io' : EpIo} {log : EnqueueLog}
    {o : Out UInt8 (EpShell × List UInt8) ℤ} (h : LoopSpec ioMgr.maxCapacity o fd io' log)
    (hmax : ioMgr'.maxCapacity = ioMgr.maxCapacity) (hfind : epIoFind ioMgr' fd = some io')
    (hview : io'.view = v) : HasView ioMgr' fd v :=
  ⟨io', hfind, by rw [hmax]; exact h.ready, hview⟩

end Calls

/-! ## Reassembly of a stream of frames -/

/-- The bytes of a frame that `ep_io_combine_shell` built for a receiver with the
limit `maxCapacity`. Every caller sets the magic number, and a buffer has at least
one byte. -/
def BuiltFrame (aes : AesCipher) (bz : Bz2) (maxCapacity : ℤ) (f : List UInt8) : Prop :=
  ∃ fresh sender sfd shell input net out,
    shell.magic = epMagicNumber ∧ (∀ b, input = some b → 0 < b.used) ∧
    (epIoCombineShell aes bz fresh sender sfd shell input).2 = some (net, out) ∧
    f = out.bytes ∧ (EpShell.ofBytes f).toHost.shellSize.toInt ≤ maxCapacity

/-- The task that a frame must become. -/
def EpIoTask.Carries (t : EpIoTask) (fd : ℤ) (f : List UInt8) : Prop :=
  t.fd = fd ∧ t.shell = (EpShell.ofBytes f).toHost ∧
    match t.input with
    | none => t.shell.shellSize.toInt = 0 ∧ f.drop sizeofEpShell = []
    | some b => t.shell.shellSize.toInt ≠ 0 ∧ b.Holds (f.drop sizeofEpShell)

theorem EpIoTask.Delivers.carries {t : EpIoTask} {fd : ℤ} {f : List UInt8}
    (h : t.Delivers ((EpShell.ofBytes f).toHost, f.drop sizeofEpShell)) (hfd : t.fd = fd) :
    t.Carries fd f := by
  obtain ⟨hshell, hsize, hinput⟩ := h
  refine ⟨hfd, hshell, ?_⟩
  rw [hshell, hsize]
  cases hin : t.input with
  | none =>
    rw [hin] at hinput
    exact ⟨by simp only at hinput; rw [hinput]; rfl, hinput⟩
  | some b =>
    rw [hin] at hinput
    have hpos := List.length_pos_iff.mpr hinput.1
    exact ⟨by simp only at hpos ⊢; omega, hinput.2⟩

/-- Feed the chunks one after the other; the return codes and all dispatched tasks. -/
def enqueueAll (fuel : ℕ) (fd : ℤ) :
    (ℕ → ℕ → ℕ → ℤ → UInt8) → EpIoMgr → List (List UInt8) →
      Option (EpIoMgr × List ℤ × List EpIoTask)
  | _, ioMgr, [] => some (ioMgr, [], [])
  | fresh, ioMgr, c :: cs => do
    let (ioMgr, code, log) ← epIoEnqueue fuel (fresh 0) ioMgr fd c
    let (ioMgr, codes, tasks) ← enqueueAll fuel fd (fun i => fresh (i + 1)) ioMgr cs
    some (ioMgr, code :: codes, log.dispatched ++ tasks)

theorem BuiltFrame.exists_header {aes : AesCipher} {bz : Bz2} {maxCapacity : ℤ} {f : List UInt8}
    (h : BuiltFrame aes bz maxCapacity f) :
    ∃ (hdr : EpShell) (wire : List UInt8), f = hdr.toNetwork.bytes ++ wire ∧
      hdr.magic = epMagicNumber ∧
      hdr.shellSize.toInt = wire.length ∧ hdr.Sound ∧ hdr.shellSize.toInt ≤ maxCapacity := by
  obtain ⟨fresh, sender, sfd, shell, input, net, out, hmagic, hinput, hcombine, hf, hmax⟩ := h
  rw [hf] at hmax ⊢
  cases input with
  | none =>
    obtain ⟨hnet, hout⟩ := epIoCombineShell_none_spec hcombine
    have hbytes := hout.bytes_eq
    rw [hbytes, hnet, EpShell.ofBytes_bytes, EpShell.toHost_toNetwork] at hmax
    have hzero : (0 : BitVec 32).toInt ≤ 2 ^ 31 - 16 := by decide
    exact ⟨{ shell with packSize := 0, shellSize := 0 }, [], by rw [hbytes, hnet, List.append_nil],
      hmagic, rfl, ⟨le_rfl, hzero⟩, hmax⟩
  | some b =>
    have hpos := hinput b rfl
    have hb : b.Holds b.bytes := ⟨by simp [EpBuffer.bytes]; omega, by simp [EpBuffer.bytes]⟩
    obtain ⟨hdr, wire, hnet, hout, hspec⟩ := epIoCombineShell_spec hb
      (by simp [EpBuffer.bytes]; omega) hcombine
    have hbytes := hout.bytes_eq
    rw [hbytes, EpShell.ofBytes_append, hnet, EpShell.toHost_toNetwork] at hmax
    have := hspec.shellSize; have := hspec.fits
    exact ⟨hdr, wire, by rw [hbytes, hnet], hspec.magic.trans hmagic, hspec.shellSize,
      ⟨by omega, by omega⟩, hmax⟩

/-- A built frame is a frame of the abstract parser. -/
theorem BuiltFrame.frame {aes : AesCipher} {bz : Bz2} {maxCapacity : ℤ} {f : List UInt8}
    (h : BuiltFrame aes bz maxCapacity f) :
    (EpShell.ofBytes f).toHost.Sound ∧
    (shellParser maxCapacity).Frame f ((EpShell.ofBytes f).toHost, f.drop sizeofEpShell) := by
  obtain ⟨hdr, wire, hf, hmagic, hsize, hsound, hmax⟩ := h.exists_header
  have hdrop : f.drop sizeofEpShell = wire := by
    rw [hf, List.drop_left' (EpShell.length_bytes _)]
  have hhost : ∀ y, (EpShell.ofBytes (f ++ y)).toHost = hdr := by
    intro y
    rw [hf, List.append_assoc, EpShell.ofBytes_append, EpShell.toHost_toNetwork]
  have hhost' : (EpShell.ofBytes f).toHost = hdr := by simpa using hhost []
  have hlen : f.length = sizeofEpShell + wire.length := by rw [hf]; simp
  refine ⟨hhost' ▸ hsound, ⟨fun y => ?_, fun q hq hne => ?_⟩⟩
  · have hlong : ¬ (f ++ y).length < sizeofEpShell := by simp; omega
    have hbody : (f ++ y).drop sizeofEpShell = wire ++ y := by
      rw [List.drop_append_of_le_length (by omega), hdrop]
    have hwhole : ¬ ((wire ++ y).length : ℤ) < hdr.shellSize.toInt := by
      rw [hsize, List.length_append]; omega
    have hn : hdr.shellSize.toInt.toNat = wire.length := by omega
    simp only [shellParser, shellLook, if_neg hlong, hhost, hhost', hmagic, ne_eq, not_true,
      if_false, if_neg (not_lt.mpr hmax), hbody, if_neg hwhole, hn, List.take_left, List.drop_left,
      hdrop]
  · by_cases hshort : q.length < sizeofEpShell
    · exact ⟨0, by simp only [shellParser, shellLook, if_pos hshort]⟩
    · have hless : q.length < f.length :=
        lt_of_le_of_ne hq.length_le fun heq => hne (hq.eq_of_length heq)
      have hqhost : (EpShell.ofBytes q).toHost = hdr := by
        obtain ⟨y, rfl⟩ := hq
        rw [← EpShell.ofBytes_take q, ← List.take_append_of_le_length (not_lt.mp hshort),
          EpShell.ofBytes_take, hhost']
      have hpart : ((q.drop sizeofEpShell).length : ℤ) < hdr.shellSize.toInt := by
        rw [hsize, List.length_drop]; omega
      exact ⟨1, by simp only [shellParser, shellLook, if_neg hshort, hqhost, hmagic, ne_eq, not_true,
        if_false, if_neg (not_lt.mpr hmax), if_pos hpart]⟩

/-- Feeding sound runs of the parser feeds the connection. -/
theorem enqueueAll_spec (fuel : ℕ) {fd : ℤ} (chunks : List (List UInt8))
    (fresh : ℕ → ℕ → ℕ → ℤ → UInt8) {ioMgr : EpIoMgr} {v : IoView} (h : HasView ioMgr fd v)
    (hlen : ∀ c ∈ chunks, (c.length : ℤ) ≤ ioMgr.maxCapacity)
    (hint : v.WithinInt ioMgr.maxCapacity chunks)
    (hfuel : (v.raw ++ chunks.flatten).length < fuel)
    (hsound : ∀ o ∈ (shellParser ioMgr.maxCapacity).feed v.raw chunks,
      ∀ x ∈ o.items, x.1.Sound) :
    ∃ ioMgr' tasks, enqueueAll fuel fd fresh ioMgr chunks =
        some (ioMgr', ((shellParser ioMgr.maxCapacity).feed v.raw chunks).map Out.code, tasks) ∧
      List.Forall₂ EpIoTask.Delivers tasks
        (((shellParser ioMgr.maxCapacity).feed v.raw chunks).flatMap Out.items) ∧
      ∀ t ∈ tasks, t.fd = fd := by
  induction chunks generalizing fresh ioMgr v with
  | nil => exact ⟨ioMgr, [], rfl, .nil, by simp⟩
  | cons c cs ih =>
    simp only [Parser.feed, List.mem_cons, forall_eq_or_imp] at hsound hlen
    rw [List.flatten_cons, ← List.append_assoc, List.length_append] at hfuel
    have hhead : (v.raw ++ c).length < fuel := by omega
    obtain ⟨ioMgr₁, log, io', hcall, hmax, hfind, hspec, hview⟩ :=
      epIoEnqueue_spec h hlen.1 hint.1 hhead hsound.1 (fresh 0)
    have hrest : ((shellParser ioMgr.maxCapacity).run (v.raw ++ c)).rest.length ≤
        (v.raw ++ c).length := (shellParser ioMgr.maxCapacity).length_rest_le _
    have hnext := ih (fun i => fresh (i + 1)) (hspec.hasView hmax hfind hview)
    have hraw : (v.enqueue ioMgr.maxCapacity c).1.raw =
        ((shellParser ioMgr.maxCapacity).run (v.raw ++ c)).rest :=
      (congrArg IoView.raw hview).symm.trans hspec.raw
    rw [hmax, hraw, List.length_append] at hnext
    obtain ⟨ioMgr', tasks, hall, hdel, hfds⟩ := hnext hlen.2 hint.2 (by omega) hsound.2
    refine ⟨ioMgr', log.dispatched ++ tasks, ?_, ?_, ?_⟩
    · simp only [enqueueAll, hcall, Option.bind_eq_bind, Option.bind_some, hall, Parser.feed,
        List.map_cons]
    · simp only [Parser.feed, List.flatMap_cons]
      exact List.rel_append hspec.delivers hdel
    · intro t ht
      exact (List.mem_append.mp ht).elim (hspec.task_fd t) (hfds t)

/-- Only if the ring buffer stays within an `int` is there a state after the last chunk. -/
theorem withinInt_of_enqueueAll {fuel : ℕ} {fd : ℤ} {chunks : List (List UInt8)}
    {fresh : ℕ → ℕ → ℕ → ℤ → UInt8} {ioMgr : EpIoMgr} {v : IoView} (h : HasView ioMgr fd v)
    (hall : (enqueueAll fuel fd fresh ioMgr chunks).isSome)
    (hlen : ∀ c ∈ chunks, (c.length : ℤ) ≤ ioMgr.maxCapacity)
    (hfuel : (v.raw ++ chunks.flatten).length < fuel)
    (hsound : ∀ o ∈ (shellParser ioMgr.maxCapacity).feed v.raw chunks, ∀ x ∈ o.items, x.1.Sound) :
    v.WithinInt ioMgr.maxCapacity chunks := by
  induction chunks generalizing fresh ioMgr v with
  | nil => trivial
  | cons c cs ih =>
    simp only [Parser.feed, List.mem_cons, forall_eq_or_imp] at hsound hlen
    rw [List.flatten_cons, ← List.append_assoc, List.length_append] at hfuel
    have hint : ¬ v.Outgrows ioMgr.maxCapacity c.length := by
      intro hout
      simp [enqueueAll, epIoEnqueue_outgrown h hout] at hall
    obtain ⟨ioMgr₁, log, io', hcall, hmax, hfind, hspec, hview⟩ :=
      epIoEnqueue_spec h hlen.1 hint (show (v.raw ++ c).length < fuel by omega) hsound.1 (fresh 0)
    have hrest : ((shellParser ioMgr.maxCapacity).run (v.raw ++ c)).rest.length ≤
        (v.raw ++ c).length := (shellParser ioMgr.maxCapacity).length_rest_le _
    have hraw : (v.enqueue ioMgr.maxCapacity c).1.raw =
        ((shellParser ioMgr.maxCapacity).run (v.raw ++ c)).rest :=
      (congrArg IoView.raw hview).symm.trans hspec.raw
    simp only [enqueueAll, hcall, Option.bind_eq_bind, Option.bind_some] at hall
    have hnext := ih (hspec.hasView hmax hfind hview) (Option.isSome_of_isSome_bind hall)
    rw [hmax, hraw, List.length_append] at hnext
    exact ⟨hint, hnext hlen.2 (by omega) hsound.2⟩

/-- What the parser finds in a stream of built frames, however it is cut. -/
theorem feed_builtFrames {aes : AesCipher} {bz : Bz2} {maxCapacity : ℤ} {F : List (List UInt8)}
    (hF : ∀ f ∈ F, BuiltFrame aes bz maxCapacity f) {P f : List UInt8}
    (hf : BuiltFrame aes bz maxCapacity f) (hP : P <+: f) (hne : P ≠ f)
    {chunks : List (List UInt8)} (hcut : chunks.flatten = F.flatten ++ P) :
    ((shellParser maxCapacity).feed [] chunks).flatMap Out.items =
        F.map (fun f => ((EpShell.ofBytes f).toHost, f.drop sizeofEpShell)) ∧
      (∀ o ∈ (shellParser maxCapacity).feed [] chunks,
        (shellParser maxCapacity).look o.rest = .more o.code) ∧
      ∀ o ∈ (shellParser maxCapacity).feed [] chunks, ∀ x ∈ o.items, x.1.Sound := by
  have hstream : (shellParser maxCapacity).Stream F
      (F.map fun f => ((EpShell.ofBytes f).toHost, f.drop sizeofEpShell)) P := by
    refine ⟨?_, f, _, hf.frame.2, hP, hne⟩
    rw [List.forall₂_map_right_iff, List.forall₂_same]
    exact fun f hf => (hF f hf).frame.2
  have hstart : (shellParser maxCapacity).look [] = .more 0 := rfl
  obtain ⟨hitems, hcodes⟩ := hstream.items_feed (by rwa [List.nil_append]) hstart
  refine ⟨hitems, hcodes, fun o ho x hx => ?_⟩
  have hmem := List.mem_flatMap.mpr ⟨o, ho, hx⟩
  rw [hitems] at hmem
  obtain ⟨g, hg, rfl⟩ := List.mem_map.mp hmem
  exact (hF g hg).frame.1

/-- A connection without unparsed bytes finds the frames of a stream, however it is cut. -/
theorem enqueueAll_reassembles {aes : AesCipher} {bz : Bz2} {ioMgr : EpIoMgr} {fd : ℤ}
    {v : IoView} (hview : HasView ioMgr fd v) (hraw : v.raw = []) {F : List (List UInt8)}
    (hF : ∀ f ∈ F, BuiltFrame aes bz ioMgr.maxCapacity f) {P f : List UInt8}
    (hf : BuiltFrame aes bz ioMgr.maxCapacity f) (hP : P <+: f) (hne : P ≠ f)
    {chunks : List (List UInt8)} (hlen : ∀ c ∈ chunks, (c.length : ℤ) ≤ ioMgr.maxCapacity)
    (hcut : chunks.flatten = F.flatten ++ P) (hint : v.WithinInt ioMgr.maxCapacity chunks)
    {fuel : ℕ} (hfuel : chunks.flatten.length < fuel) (fresh : ℕ → ℕ → ℕ → ℤ → UInt8) :
    ∃ ioMgr' codes tasks, enqueueAll fuel fd fresh ioMgr chunks = some (ioMgr', codes, tasks) ∧
      codes.length = chunks.length ∧ (∀ code ∈ codes, 0 ≤ code) ∧
      List.Forall₂ (fun t f => t.Carries fd f) tasks F := by
  obtain ⟨hitems, hcodes, hsound⟩ := feed_builtFrames hF hf hP hne hcut
  rw [← hraw] at hitems hcodes hsound
  obtain ⟨ioMgr', tasks, hall, hdel, hfds⟩ := enqueueAll_spec fuel chunks fresh hview hlen hint
    (by rwa [hraw, List.nil_append]) hsound
  refine ⟨ioMgr', _, tasks, hall, by simp, ?_, ?_⟩
  · intro code hcode
    obtain ⟨o, ho, rfl⟩ := List.mem_map.mp hcode
    exact shellLook_more_nonneg (hcodes o ho)
  · rw [hitems, List.forall₂_map_right_iff] at hdel
    exact ((List.forall₂_and_left _ _).mpr ⟨hfds, hdel⟩).imp fun t g h => h.2.carries h.1

/-- The calls for the chunks all return, none refuses its chunk, and the frames arrive whole,
in order and once each. -/
def Reassembles (ioMgr : EpIoMgr) (fd : ℤ) (chunks F : List (List UInt8)) : Prop :=
  ∀ fuel, chunks.flatten.length < fuel → ∀ fresh, ∃ ioMgr' codes tasks,
    enqueueAll fuel fd fresh ioMgr chunks = some (ioMgr', codes, tasks) ∧
    codes.length = chunks.length ∧ (∀ code ∈ codes, 0 ≤ code) ∧
    List.Forall₂ (fun t f => t.Carries fd f) tasks F

/-- However the stream is cut, it is reassembled if and only if the ring buffer does not
outgrow an `int`. -/
theorem epIoEnqueue_reassembles_iff (aes : AesCipher) (bz : Bz2) (ioMgr : EpIoMgr)
    (hdef : 0 < ioMgr.defCapacity) (hmax : ioMgr.defCapacity < ioMgr.maxCapacity) (fd : ℤ)
    (hnew : epIoFind ioMgr fd = none) (F : List (List UInt8))
    (hF : ∀ f ∈ F, BuiltFrame aes bz ioMgr.maxCapacity f) (P f : List UInt8)
    (hf : BuiltFrame aes bz ioMgr.maxCapacity f) (hP : P <+: f) (hne : P ≠ f)
    (chunks : List (List UInt8))
    (hchunks : ∀ c ∈ chunks, c ≠ [] ∧ (c.length : ℤ) ≤ ioMgr.maxCapacity)
    (hcut : chunks.flatten = F.flatten ++ P) :
    Reassembles (epIoAdd ioMgr fd) fd chunks F ↔
      (IoView.start ioMgr.defCapacity).WithinInt ioMgr.maxCapacity chunks := by
  obtain ⟨hview, hcap⟩ := epIoAdd_hasView hdef hmax hnew
  rw [← hcap] at hF hf hchunks ⊢
  have hlen : ∀ c ∈ chunks, (c.length : ℤ) ≤ (epIoAdd ioMgr fd).maxCapacity :=
    fun c hc => (hchunks c hc).2
  constructor
  · intro h
    obtain ⟨ioMgr', codes, tasks, hall, -⟩ :=
      h (chunks.flatten.length + 1) (Nat.lt_succ_self _) fun _ _ _ _ => 0
    exact withinInt_of_enqueueAll hview (Option.isSome_of_eq_some hall) hlen (Nat.lt_succ_self _)
      (feed_builtFrames hF hf hP hne hcut).2.2
  · intro hint fuel hfuel fresh
    exact enqueueAll_reassembles hview rfl hF hf hP hne hlen hcut hint hfuel fresh

/-- The bytes of the encrypted frame above. -/
def fipsBytes : List UInt8 := (fipsFrame.map fun p => p.2.bytes).getD []

/-- Cut inside the header, and followed by the first nine bytes of the same frame. -/
theorem epIoEnqueue_reassembles_fips :
    Reassembles (epIoAdd (fipsMgr .server 9) 5) 5
      [fipsBytes.take 10, fipsBytes.drop 10 ++ fipsBytes.take 9] [fipsBytes] := by
  have hbuilt : BuiltFrame fipsAes storedBz2 4194304 fipsBytes := by
    obtain ⟨⟨net, out⟩, hframe⟩ := Option.isSome_iff_exists.mp (show fipsFrame.isSome by decide)
    exact ⟨_, _, _, _, _, net, out, rfl, by rintro b ⟨⟩; decide, hframe,
      by simp [fipsBytes, hframe], by decide⟩
  exact (epIoEnqueue_reassembles_iff fipsAes storedBz2 (fipsMgr .server 9) (by decide) (by decide)
    5 rfl [fipsBytes] (fun f hf => List.mem_singleton.mp hf ▸ hbuilt) (fipsBytes.take 9) fipsBytes
    hbuilt (List.take_prefix _ _) (by decide) _ (by decide) (by decide)).mpr
      (IoView.withinInt_of_length (by decide))

/-! ### A stream that the ring buffer does not survive -/

/-- A frame without a body. -/
def headerFrame : List UInt8 := fipsShell.toNetwork.bytes

@[simp] theorem length_headerFrame : headerFrame.length = 18 := rfl

theorem headerFrame_built {maxCapacity : ℤ} (hmax : 0 ≤ maxCapacity) :
    BuiltFrame fipsAes storedBz2 maxCapacity headerFrame := by
  obtain ⟨⟨net, out⟩, hframe⟩ := Option.isSome_iff_exists.mp
    (show (epIoCombineShell fipsAes storedBz2 (fun _ _ => 0) (fipsMgr .client 7) 7 fipsShell
      none).2.isSome by decide)
  obtain ⟨hnet, hout⟩ := epIoCombineShell_none_spec hframe
  refine ⟨_, _, _, _, none, net, out, rfl, by simp, hframe, ?_, ?_⟩
  · rw [hout.bytes_eq, hnet]
    rfl
  · rw [headerFrame, EpShell.ofBytes_bytes, EpShell.toHost_toNetwork]
    exact hmax

/-- A table of large buffers, within what `ep_io_init` asserts. -/
def hugeMgr : EpIoMgr := { fipsMgr .server 9 with defCapacity := 2 ^ 30, maxCapacity := 2 ^ 30 + 1 }

/-- A chunk of frames without a body, and eleven bytes of one more. -/
def headerChunk (k : ℕ) : List UInt8 :=
  (List.replicate k headerFrame).flatten ++ headerFrame.take 11

theorem length_headerChunk (k : ℕ) : (headerChunk k).length = k * 18 + 11 := by
  simp [headerChunk]

section Huge

variable {k : ℕ} (hk : k * 18 + 11 = 2 ^ 30 + 1)
include hk

theorem headerChunk_outgrows :
    (IoView.start hugeMgr.defCapacity).Outgrows (epIoAdd hugeMgr 5).maxCapacity
      (headerChunk k).length := by
  rw [length_headerChunk, hk]
  exact ⟨by decide, by decide⟩

theorem headerChunk_le : ((headerChunk k).length : ℤ) ≤ hugeMgr.maxCapacity := by
  rw [length_headerChunk, hk]
  decide

theorem epIoEnqueue_headerChunk (fuel : ℕ) (fresh : ℕ → ℕ → ℤ → UInt8) :
    epIoEnqueue fuel fresh (epIoAdd hugeMgr 5) 5 (headerChunk k) = none :=
  epIoEnqueue_outgrown (epIoAdd_hasView (by decide) (by decide) rfl).1 (headerChunk_outgrows hk)
    fuel fresh

theorem headerChunk_not_reassembled (F : List (List UInt8)) :
    ¬ Reassembles (epIoAdd hugeMgr 5) 5 [headerChunk k] F := by
  intro h
  obtain ⟨ioMgr', codes, tasks, hall, -⟩ := h _ (Nat.lt_succ_self _) fun _ _ _ _ => 0
  simp [enqueueAll, epIoEnqueue_headerChunk hk] at hall

end Huge

/-- So many headers make a chunk of as many bytes as the limit allows, one more than the ring
buffer has: no `int` holds the sum, and the call for it does not return. -/
theorem epIoEnqueue_not_reassembled :
    ((headerChunk 59652323).length : ℤ) ≤ hugeMgr.maxCapacity ∧
    (∀ f ∈ List.replicate 59652323 headerFrame,
      BuiltFrame fipsAes storedBz2 hugeMgr.maxCapacity f) ∧
    headerFrame.take 11 <+: headerFrame ∧ headerFrame.take 11 ≠ headerFrame ∧
    [headerChunk 59652323].flatten =
      (List.replicate 59652323 headerFrame).flatten ++ headerFrame.take 11 ∧
    (∀ fuel fresh, epIoEnqueue fuel fresh (epIoAdd hugeMgr 5) 5 (headerChunk 59652323) = none) ∧
    ¬ Reassembles (epIoAdd hugeMgr 5) 5 [headerChunk 59652323]
      (List.replicate 59652323 headerFrame) := by
  refine ⟨headerChunk_le (by norm_num), fun f hf => ?_, List.take_prefix _ _, by decide,
    List.flatten_singleton, epIoEnqueue_headerChunk (by norm_num),
    headerChunk_not_reassembled (by norm_num) _⟩
  rw [List.eq_of_mem_replicate hf]
  exact headerFrame_built (by decide)

/-! ## Arbitrary bytes -/

/-- More fuel does not change a result. -/
theorem enqueueLoop_mono {maxCapacity : ℤ} {fuel fuel' : ℕ} (hle : fuel ≤ fuel')
    {fresh : ℕ → ℕ → ℤ → UInt8} {io : EpIo} {r : EpIo × ℤ × EnqueueLog}
    (h : enqueueLoop maxCapacity fuel fresh io = some r) :
    enqueueLoop maxCapacity fuel' fresh io = some r := by
  induction fuel generalizing fuel' fresh io r with
  | zero => simp [enqueueLoop] at h
  | succ fuel ih =>
    obtain ⟨fuel', rfl⟩ : ∃ k, fuel' = k + 1 := ⟨fuel' - 1, by omega⟩
    unfold enqueueLoop at h ⊢
    cases hround : enqueueRound maxCapacity (fresh 0) io with
    | ret child code reads => simpa [hround] using h
    | again child reads task =>
      simp only [hround, Option.map_eq_some_iff] at h ⊢
      obtain ⟨q, hq, heq⟩ := h
      exact ⟨q, ih (by omega) hq, heq⟩

theorem epIoEnqueue_mono {fuel fuel' : ℕ} (hle : fuel ≤ fuel') {fresh : ℕ → ℕ → ℤ → UInt8}
    {ioMgr : EpIoMgr} {fd : ℤ} {inbuf : List UInt8} {r : EpIoMgr × ℤ × EnqueueLog}
    (h : epIoEnqueue fuel fresh ioMgr fd inbuf = some r) :
    epIoEnqueue fuel' fresh ioMgr fd inbuf = some r := by
  unfold epIoEnqueue at h ⊢
  cases hfind : epIoFind ioMgr fd with
  | none => simpa [hfind] using h
  | some child =>
    simp only [hfind] at h ⊢
    cases hwrite : epRbTryWrite (fresh 0 0) child.recv inbuf inbuf.length with
    | none => simp [hwrite] at h
    | some w =>
      simp only [hwrite] at h ⊢
      split_ifs at h ⊢ with hshort
      · exact h
      · obtain ⟨q, hq, heq⟩ := Option.map_eq_some_iff.mp h
        exact Option.map_eq_some_iff.mpr ⟨q, enqueueLoop_mono hle hq, heq⟩

/-- A call that returned: its log is safe, the indices are in bounds, and the
connection either waits for a legal frame or the code is negative. -/
structure CallSafe (ioMgr : EpIoMgr) (fd code : ℤ) (log : EnqueueLog) : Prop where
  log_safe : log.Safe
  state : ∃ io, epIoFind ioMgr fd = some io ∧ io.recv.InBounds ∧
    (code < 0 ∨ io.Waits ioMgr.maxCapacity)

/-- Every call returns and is safe, from the given table on. -/
def CallsSafe (fd : ℤ) : EpIoMgr → List (List UInt8) → Prop
  | _, [] => True
  | ioMgr, c :: cs => ∀ fresh, ∃ fuel ioMgr' code log,
      epIoEnqueue fuel fresh ioMgr fd c = some (ioMgr', code, log) ∧
      CallSafe ioMgr' fd code log ∧ CallsSafe fd ioMgr' cs

theorem callsSafe_iff {fd : ℤ} {ioMgr : EpIoMgr} {v : IoView} (chunks : List (List UInt8))
    (h : HasView ioMgr fd v) (hlen : ∀ c ∈ chunks, (c.length : ℤ) ≤ ioMgr.maxCapacity) :
    CallsSafe fd ioMgr chunks ↔ v.WithinInt ioMgr.maxCapacity chunks ∧
      ∀ o ∈ (shellParser ioMgr.maxCapacity).feed v.raw chunks, ∀ x ∈ o.items, x.1.Sound := by
  induction chunks generalizing ioMgr v with
  | nil => simp [CallsSafe, Parser.feed, IoView.WithinInt]
  | cons c cs ih =>
    simp only [List.mem_cons, forall_eq_or_imp] at hlen
    simp only [CallsSafe, Parser.feed, IoView.WithinInt, List.mem_cons, forall_eq_or_imp]
    constructor
    · intro hcalls
      obtain ⟨fuel, ioMgr', code, log, hcall, hsafe, hrest⟩ := hcalls fun _ _ _ => 0
      have hint : ¬ v.Outgrows ioMgr.maxCapacity c.length := by
        intro hout
        simp [epIoEnqueue_outgrown h hout] at hcall
      have hsound : ∀ x ∈ ((shellParser ioMgr.maxCapacity).run (v.raw ++ c)).items, x.1.Sound := by
        by_contra hbad
        push Not at hbad
        obtain ⟨child, old, hready, hview, -, -, -, heq⟩ :=
          epIoEnqueue_eq h hlen.1 hint fuel fun _ _ _ => 0
        rw [show v.raw ++ c = child.raw from (congrArg IoView.raw hview).symm] at hbad
        rw [heq, Option.map_eq_some_iff] at hcall
        obtain ⟨⟨io', code', log'⟩, hloop, hr⟩ := hcall
        simp only [Prod.mk.injEq] at hr
        obtain ⟨-, -, rfl⟩ := hr
        exact enqueueLoop_unsound hready hbad hloop hsafe.log_safe
      -- the same call with enough fuel says where the connection stands
      obtain ⟨ioMgr₁, log₁, io', hcall₁, hmax, hfind, hspec, hview⟩ := epIoEnqueue_spec h hlen.1
        hint (show (v.raw ++ c).length < max fuel ((v.raw ++ c).length + 1) by omega) hsound
        fun _ _ _ => 0
      rw [epIoEnqueue_mono (le_max_left _ _) hcall] at hcall₁
      obtain rfl : ioMgr' = ioMgr₁ := (Prod.mk.inj (Option.some.inj hcall₁)).1
      have hnext := ih (hspec.hasView hmax hfind hview) (by rw [hmax]; exact hlen.2)
      rw [hmax, ← hview] at hnext
      rw [← hview, ← hspec.raw]
      exact ⟨⟨hint, (hnext.mp hrest).1⟩, hsound, (hnext.mp hrest).2⟩
    · rintro ⟨⟨hint, hints⟩, hsound, hsounds⟩ fresh
      obtain ⟨ioMgr', log, io', hcall, hmax, hfind, hspec, hview⟩ :=
        epIoEnqueue_spec h hlen.1 hint (Nat.lt_succ_self _) hsound fresh
      have hnext := ih (hspec.hasView hmax hfind hview) (by rw [hmax]; exact hlen.2)
      rw [hmax, ← hview] at hnext
      rw [← hview] at hints
      rw [← hspec.raw] at hsounds
      refine ⟨_, ioMgr', _, log, hcall, ⟨hspec.safe, io', hfind, hspec.ready.valid.inBounds, ?_⟩,
        hnext.mpr ⟨hints, hsounds⟩⟩
      rw [hmax]
      exact hspec.waits

/-- On arbitrary bytes the calls are safe exactly as long as every whole frame in
the stream declares a size between zero and the largest that a buffer can have, and
the ring buffer does not outgrow an `int`. -/
theorem epIoEnqueue_safe_iff (ioMgr : EpIoMgr) (hdef : 0 < ioMgr.defCapacity)
    (hmax : ioMgr.defCapacity < ioMgr.maxCapacity) (fd : ℤ) (hnew : epIoFind ioMgr fd = none)
    (chunks : List (List UInt8))
    (hchunks : ∀ c ∈ chunks, c ≠ [] ∧ (c.length : ℤ) ≤ ioMgr.maxCapacity) :
    CallsSafe fd (epIoAdd ioMgr fd) chunks ↔
      (IoView.start ioMgr.defCapacity).WithinInt ioMgr.maxCapacity chunks ∧
      ∀ o ∈ (shellParser ioMgr.maxCapacity).feed [] chunks, ∀ x ∈ o.items,
        0 ≤ x.1.shellSize.toInt ∧ x.1.shellSize.toInt ≤ 2 ^ 31 - 16 := by
  obtain ⟨hview, hcap⟩ := epIoAdd_hasView hdef hmax hnew
  have h := callsSafe_iff chunks hview
  rw [hcap] at h
  exact h fun c hc => (hchunks c hc).2

/-- A header without a body. -/
theorem epIoEnqueue_safe_header :
    CallsSafe 5 (epIoAdd (fipsMgr .server 9) 5) [fipsShell.toNetwork.bytes] := by
  refine (epIoEnqueue_safe_iff (fipsMgr .server 9) (by decide) (by decide) 5 rfl _
    (by decide)).mpr ⟨IoView.withinInt_of_length (by decide), ?_⟩
  have hitem : (shellParser 4194304).look fipsShell.toNetwork.bytes = .item (fipsShell, []) [] :=
    rfl
  have hend : (shellParser 4194304).look [] = .more 0 := rfl
  have hrun := (shellParser 4194304).run_item hitem
  rw [(shellParser 4194304).run_more hend] at hrun
  simp only [Parser.feed, List.nil_append, List.mem_singleton, forall_eq]
  exact fun x hx => by
    rw [show (fipsMgr .server 9).maxCapacity = 4194304 from rfl, hrun] at hx
    obtain rfl := List.mem_singleton.mp hx
    decide

/-- A header that declares `-18` bytes: reading the body moves the read position
back over the header, which is then read again. -/
def rewindShell : EpShell := { fipsShell with shellSize := BitVec.ofInt 32 (-18) }

def rewindIo (shell : EpShell) : EpIo where
  recv := { epRbNew 4096 4194304 with
    buffer := copyIn (fun _ => 0) 0 rewindShell.toNetwork.bytes
    tail := 18 }
  shell := shell
  bShellCached := false
  aes := ⟨fun _ => 0, fun _ => 0⟩
  fd := 5

theorem enqueueRound_rewind (fresh : ℕ → ℤ → UInt8) (shell : EpShell) :
    enqueueRound 4194304 fresh (rewindIo shell) =
      .again (rewindIo rewindShell) [(18, 18), (-18, 0)] ⟨5, rewindShell, none⟩ := by
  have hcan : epRbCanRead (rewindIo shell).recv = 18 := rfl
  have hread : epRbRead (fresh 0) (rewindIo shell).recv 18 =
      ⟨{ (rewindIo shell).recv with head := 18 },
        some fun i => (rewindIo shell).recv.buffer (0 + i), 18⟩ := rfl
  have hbytes : (epRbRead (fresh 0) (rewindIo shell).recv 18).bytes =
      rewindShell.toNetwork.bytes := by
    rw [hread]
    have hcells := cells_copyIn_self (fun _ => 0) 0 rewindShell.toNetwork.bytes
    simpa [EpRbReadResult.bytes, rewindIo, sizeofEpShell] using hcells
  have hheader : enqueueHeader (fresh 0) (rewindIo shell) =
      ({ rewindIo rewindShell with recv := { (rewindIo shell).recv with head := 18 } },
        [(18, 18)]) := by
    have hcached : (rewindIo shell).bShellCached = false := rfl
    simp only [enqueueHeader, hcached, Bool.false_eq_true, if_false, sizeofEpShell]
    rw [show ((18 : ℕ) : ℤ) = 18 from rfl, hbytes, EpShell.ofBytes_bytes, EpShell.toHost_toNetwork,
      hcan, hread]
    rfl
  rw [enqueueRound, hheader, hcan]
  rfl

theorem enqueueLoop_rewind (fuel : ℕ) (fresh : ℕ → ℕ → ℤ → UInt8) (shell : EpShell) :
    enqueueLoop 4194304 fuel fresh (rewindIo shell) = none := by
  induction fuel generalizing fresh shell with
  | zero => rfl
  | succ fuel ih => simp only [enqueueLoop, enqueueRound_rewind, ih, Option.map_none]

/-- One such header makes the call run forever, reading `-18` bytes and
dispatching a frame without a body in every round. -/
theorem epIoEnqueue_rewinds :
    (∀ fuel fresh, epIoEnqueue fuel fresh (epIoAdd (fipsMgr .server 9) 5) 5
      rewindShell.toNetwork.bytes = none) ∧
    ¬ CallsSafe 5 (epIoAdd (fipsMgr .server 9) 5) [rewindShell.toNetwork.bytes] := by
  have hnone : ∀ fuel fresh, epIoEnqueue fuel fresh (epIoAdd (fipsMgr .server 9) 5) 5
      rewindShell.toNetwork.bytes = none := by
    intro fuel fresh
    have hcall : epIoEnqueue fuel fresh (epIoAdd (fipsMgr .server 9) 5) 5
        rewindShell.toNetwork.bytes =
          (enqueueLoop 4194304 fuel (fun i => fresh (i + 1))
            (rewindIo ⟨0, .ofWord 0, 0, 0, 0⟩)).map fun r =>
              ({ epIoAdd (fipsMgr .server 9) 5 with
                  ioList := replaceIo r.1 (epIoAdd (fipsMgr .server 9) 5).ioList },
                r.2.1, r.2.2) := rfl
    rw [hcall, enqueueLoop_rewind, Option.map_none]
  refine ⟨hnone, fun hsafe => ?_⟩
  obtain ⟨fuel, ioMgr', code, log, hcall, -, -⟩ := hsafe fun _ _ _ => 0
  rw [hnone] at hcall
  cases hcall

end Youmenu.Eventpack
