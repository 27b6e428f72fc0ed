import Youmenu.Eventpack.Io
import Youmenu.Lib.Incremental

/-!
# The loop of `ep_io_enqueue`

Received bytes go into the ring buffer of the connection; a loop then takes whole
frames out. A header whose body has not arrived is kept in the connection and
marked as cached. The abstract view has neither ring buffer nor cache: it is a
parser over the unparsed bytes, and the loop refines it as long as every frame
has a size that can be read and allocated.

## Main definitions

* `epIoAdd`, `enqueueRound`, `enqueueLoop`, `epIoEnqueue` — the source.
* `EnqueueLog` — what a call did: its reads, its rounds and its dispatches.
* `shellParser` — the abstract parser.
* `EpIo.raw`, `EpIo.Ready` — the view of a connection, and its invariant.
-/

namespace Youmenu.Eventpack

open Circular Incremental

/-! ## The source -/

/-- What `ep_io_request_dispatcher` hands to the thread pool. -/
structure EpIoTask where
  fd : ℤ
  shell : EpShell
  input : Option EpBuffer

/-- The calls of `ep_rb_read` with the unread count at the call, the ring buffer
before and after each round that dispatched, and the tasks. -/
structure EnqueueLog where
  reads : List (ℤ × ℤ) := []
  rounds : List (EpRb × EpRb) := []
  dispatched : List EpIoTask := []

/-- One pass through the loop: it returns, or dispatches and goes round again. -/
inductive EnqueueRound where
  | ret (child : EpIo) (code : ℤ) (reads : List (ℤ × ℤ))
  | again (child : EpIo) (reads : List (ℤ × ℤ)) (task : EpIoTask)

/-- Read the header unless one is cached. -/
def enqueueHeader (fresh : ℤ → UInt8) (child : EpIo) : EpIo × List (ℤ × ℤ) :=
  if child.bShellCached then (child, [])
  else
    let r := epRbRead fresh child.recv sizeofEpShell
    ({ child with recv := r.rb, shell := (EpShell.ofBytes r.bytes).toHost },
      [((sizeofEpShell : ℤ), epRbCanRead child.recv)])

/-- Check the header and dispatch the frame if its body is there. -/
def enqueueBody (maxCapacity : ℤ) (fresh : ℕ → ℤ → UInt8) (child : EpIo)
    (reads : List (ℤ × ℤ)) : EnqueueRound :=
  let shellSize := child.shell.shellSize.toInt
  if child.shell.magic ≠ epMagicNumber then .ret child (-1) reads
  else if shellSize > maxCapacity then .ret child (-2) reads
  else if epRbCanRead child.recv < shellSize then .ret { child with bShellCached := true } 1 reads
  else if shellSize ≠ 0 then
    let r := epRbRead (fresh 1) child.recv shellSize
    .again { child with recv := r.rb, bShellCached := false }
      (reads ++ [(shellSize, epRbCanRead child.recv)])
      ⟨child.fd, child.shell, epBufferNew (fresh 2) (r.data.getD fun _ => 0) shellSize⟩
  else .again { child with bShellCached := false } reads ⟨child.fd, child.shell, none⟩

def enqueueRound (maxCapacity : ℤ) (fresh : ℕ → ℤ → UInt8) (child : EpIo) : EnqueueRound :=
  if !child.bShellCached ∧ epRbCanRead child.recv < sizeofEpShell then .ret child 0 []
  else
    let (child, reads) := enqueueHeader (fresh 0) child
    enqueueBody maxCapacity fresh child reads

/-- The loop, for at most `fuel` rounds; round `i` allocates from `fresh i`. -/
def enqueueLoop (maxCapacity : ℤ) :
    ℕ → (ℕ → ℕ → ℤ → UInt8) → EpIo → Option (EpIo × ℤ × EnqueueLog)
  | 0, _, _ => none
  | fuel + 1, fresh, child =>
    match enqueueRound maxCapacity (fresh 0) child with
    | .ret child' code reads => some (child', code, { reads := reads })
    | .again child' reads task =>
      (enqueueLoop maxCapacity fuel (fun i => fresh (i + 1)) child').map fun r =>
        (r.1, r.2.1,
          { reads := reads ++ r.2.2.reads
            rounds := (child.recv, child'.recv) :: r.2.2.rounds
            dispatched := task :: r.2.2.dispatched })

/-- Store a changed connection back into the table. -/
def replaceIo (io : EpIo) : List EpIo → List EpIo
  | [] => []
  | x :: xs => if x.fd = io.fd then io :: xs else x :: replaceIo io xs

/-- `none` where the call does not return: the loop goes on beyond the `fuel`, or the write
kills the process. -/
def epIoEnqueue (fuel : ℕ) (fresh : ℕ → ℕ → ℤ → UInt8) (ioMgr : EpIoMgr) (fd : ℤ)
    (inbuf : List UInt8) : Option (EpIoMgr × ℤ × EnqueueLog) :=
  match epIoFind ioMgr fd with
  | none => some (ioMgr, -3, {})
  | some child =>
    match epRbTryWrite (fresh 0 0) child.recv inbuf inbuf.length with
    | none => none
    | some w =>
      let child := { child with recv := w.1 }
      if w.2 < inbuf.length then
        some ({ ioMgr with ioList := replaceIo child ioMgr.ioList }, -2, {})
      else
        (enqueueLoop ioMgr.maxCapacity fuel (fun i => fresh (i + 1)) child).map fun r =>
          ({ ioMgr with ioList := replaceIo r.1 ioMgr.ioList }, r.2.1, r.2.2)

/-- A new connection is zeroed; one that exists is left alone. -/
def epIoAdd (ioMgr : EpIoMgr) (fd : ℤ) : EpIoMgr :=
  match epIoFind ioMgr fd with
  | some _ => ioMgr
  | none =>
    { ioMgr with
      ioList := ioMgr.ioList ++
        [⟨epRbNew ioMgr.defCapacity ioMgr.maxCapacity, ⟨0, .ofWord 0, 0, 0, 0⟩, false,
          ⟨fun _ => 0, fun _ => 0⟩, fd⟩] }

theorem find_replaceIo {l : List EpIo} {io child : EpIo} {fd : ℤ}
    (h : l.find? (fun x => x.fd = fd) = some child) (hfd : io.fd = fd) :
    (replaceIo io l).find? (fun x => x.fd = fd) = some io := by
  induction l with
  | nil => simp at h
  | cons x xs ih =>
    unfold replaceIo
    split_ifs with hx
    · simp [hfd]
    · have hne : ¬ x.fd = fd := by rwa [hfd] at hx
      simp only [List.find?_cons, hne, decide_false] at h ⊢
      exact ih h

/-! ## The abstract parser -/

def shellLook (maxCapacity : ℤ) (raw : List UInt8) : Verdict UInt8 (EpShell × List UInt8) ℤ :=
  if raw.length < sizeofEpShell then .more 0
  else
    let shell := (EpShell.ofBytes raw).toHost
    let body := raw.drop sizeofEpShell
    if shell.magic ≠ epMagicNumber then .refuse (-1) body
    else if shell.shellSize.toInt > maxCapacity then .refuse (-2) body
    else if (body.length : ℤ) < shell.shellSize.toInt then .more 1
    else .item (shell, body.take shell.shellSize.toInt.toNat)
      (body.drop shell.shellSize.toInt.toNat)

theorem shellLook_shorter {maxCapacity : ℤ} {bs : List UInt8} {x : EpShell × List UInt8}
    {rest : List UInt8} (h : shellLook maxCapacity bs = .item x rest) :
    rest.length < bs.length := by
  simp only [shellLook] at h
  split_ifs at h
  cases h
  simp only [List.length_drop, sizeofEpShell] at *
  omega

theorem shellLook_refuse_le {maxCapacity code : ℤ} {bs rest : List UInt8}
    (h : shellLook maxCapacity bs = .refuse code rest) : rest.length ≤ bs.length := by
  simp only [shellLook] at h
  split_ifs at h <;> cases h <;> simp

def shellParser (maxCapacity : ℤ) : Parser UInt8 (EpShell × List UInt8) ℤ where
  look := shellLook maxCapacity
  shorter := shellLook_shorter
  refuse_le := shellLook_refuse_le

theorem shellLook_more_nonneg {maxCapacity code : ℤ} {raw : List UInt8}
    (h : shellLook maxCapacity raw = .more code) : 0 ≤ code := by
  simp only [shellLook] at h
  split_ifs at h <;> cases h <;> decide

/-- The bytes of a connection that are not yet part of a dispatched frame. -/
def EpIo.raw (io : EpIo) : List UInt8 :=
  (if io.bShellCached then io.shell.toNetwork.bytes else []) ++ io.recv.unread

/-- Between two rounds a cached header is one that the checks have accepted. -/
structure EpIo.Ready (io : EpIo) (maxCapacity : ℤ) : Prop where
  valid : io.recv.Valid
  limit : io.recv.limit = maxCapacity
  magic : io.bShellCached = true → io.shell.magic = epMagicNumber
  size_pos : io.bShellCached = true → 0 < io.shell.shellSize.toInt
  size_le : io.bShellCached = true → io.shell.shellSize.toInt ≤ maxCapacity

/-- A size that the ring buffer can be asked for and that a buffer can have. -/
def EpShell.Sound (shell : EpShell) : Prop :=
  0 ≤ shell.shellSize.toInt ∧ shell.shellSize.toInt ≤ 2 ^ 31 - 16

/-- A task that is the frame `(shell, body)`. -/
def EpIoTask.Delivers (t : EpIoTask) (frame : EpShell × List UInt8) : Prop :=
  t.shell = frame.1 ∧ frame.1.shellSize.toInt = frame.2.length ∧
    match t.input with
    | none => frame.2 = []
    | some b => frame.2 ≠ [] ∧ b.Holds frame.2

/-- A task that is the frame, without the body if no buffer can hold it. -/
def EpIoTask.Shows (t : EpIoTask) (frame : EpShell × List UInt8) : Prop :=
  t.shell = frame.1 ∧ frame.1.shellSize.toInt = frame.2.length ∧
    match t.input with
    | none => frame.2 = [] ∨ (frame.2.length : ℤ) > 2 ^ 31 - 16
    | some b => frame.2 ≠ [] ∧ (frame.2.length : ℤ) ≤ 2 ^ 31 - 16 ∧ b.Holds frame.2

theorem EpIoTask.Shows.delivers {t : EpIoTask} {frame : EpShell × List UInt8}
    (h : t.Shows frame) (hsound : frame.1.Sound) : t.Delivers frame := by
  obtain ⟨hshell, hsize, hinput⟩ := h
  have hfit := hsound.2
  refine ⟨hshell, hsize, ?_⟩
  split at hinput
  · exact hinput.resolve_right (by omega)
  · exact ⟨hinput.1, hinput.2.2⟩

/-- What a round leaves alone. -/
structure EpIo.Kept (io io' : EpIo) : Prop where
  fd : io'.fd = io.fd
  aes : io'.aes = io.aes
  capacity : io'.recv.capacity = io.recv.capacity

/-! ## One round refines one look -/

/-- Every read asks for bytes that are there. -/
def ReadsOk (reads : List (ℤ × ℤ)) : Prop := ∀ r ∈ reads, 0 ≤ r.1 ∧ r.1 ≤ r.2

/-- A dispatched frame has a body of exactly `shell_size` bytes. -/
def EpIoTask.Complete (t : EpIoTask) : Prop :=
  0 ≤ t.shell.shellSize.toInt ∧
    match t.input with
    | none => t.shell.shellSize.toInt = 0
    | some b => b.used = t.shell.shellSize.toInt

theorem EpIoTask.Delivers.complete {t : EpIoTask} {frame : EpShell × List UInt8}
    (h : t.Delivers frame) : t.Complete := by
  obtain ⟨hshell, hsize, hinput⟩ := h
  unfold EpIoTask.Complete
  rw [hshell, hsize]
  refine ⟨by omega, ?_⟩
  split at hinput
  · simp [hinput]
  · simp [hinput.2.used_eq]

/-- A connection that waits for more bytes: of a header, or of the body of a
header that was accepted. -/
def EpIo.Waits (io : EpIo) (maxCapacity : ℤ) : Prop :=
  (io.bShellCached = false ∧ epRbCanRead io.recv < sizeofEpShell) ∨
    (io.bShellCached = true ∧ io.shell.magic = epMagicNumber ∧ 0 ≤ io.shell.shellSize.toInt ∧
      io.shell.shellSize.toInt ≤ maxCapacity ∧
      epRbCanRead io.recv < io.shell.shellSize.toInt)

section Round

variable {io : EpIo} {maxCapacity : ℤ} {fresh : ℕ → ℤ → UInt8}

/-- Where the loop stands after the header, read or cached. -/
structure HeaderSpec (io child : EpIo) (reads : List (ℤ × ℤ)) : Prop where
  valid : child.recv.Valid
  limit : child.recv.limit = io.recv.limit
  fd : child.fd = io.fd
  cached : child.bShellCached = io.bShellCached
  shell : child.shell = (EpShell.ofBytes io.raw).toHost
  unread : child.recv.unread = io.raw.drop sizeofEpShell
  reads : ReadsOk reads
  canRead_le : epRbCanRead child.recv ≤ epRbCanRead io.recv
  progress : io.bShellCached = false → epRbCanRead child.recv < epRbCanRead io.recv

theorem EpIo.raw_of_cached (hc : io.bShellCached = true) :
    (EpShell.ofBytes io.raw).toHost = io.shell ∧ io.raw.drop sizeofEpShell = io.recv.unread := by
  rw [EpIo.raw, if_pos hc]
  exact ⟨by rw [EpShell.ofBytes_append, EpShell.toHost_toNetwork],
    List.drop_left' (EpShell.length_bytes _)⟩

theorem EpIo.raw_of_not_cached (hc : io.bShellCached = false) : io.raw = io.recv.unread := by
  simp [EpIo.raw, hc]

theorem EpIo.canRead_lt_iff_raw (h : io.recv.Valid) :
    (io.bShellCached = false ∧ epRbCanRead io.recv < sizeofEpShell) ↔
      io.raw.length < sizeofEpShell := by
  rw [h.canRead_eq_length]
  cases hc : io.bShellCached with
  | false => simp [EpIo.raw_of_not_cached hc]
  | true =>
    simp only [Bool.true_eq_false, false_and, false_iff, not_lt]
    simp [EpIo.raw, hc]

theorem enqueueHeader_spec (h : io.recv.Valid) (hlen : sizeofEpShell ≤ io.raw.length)
    (mem : ℤ → UInt8) :
    HeaderSpec io (enqueueHeader mem io).1 (enqueueHeader mem io).2 := by
  cases hc : io.bShellCached with
  | true =>
    obtain ⟨hshell, hdrop⟩ := EpIo.raw_of_cached hc
    simp only [enqueueHeader, hc, if_true]
    exact ⟨h, rfl, rfl, rfl, hshell.symm, hdrop.symm, by simp [ReadsOk], le_rfl, by simp [hc]⟩
  | false =>
    have hraw := EpIo.raw_of_not_cached hc
    obtain ⟨hv, -, hbytes, hun, -, hlim⟩ := epRbRead_spec mem h (n := sizeofEpShell) (by omega)
    have hcan := h.canRead_eq_length
    have hcan' := hv.canRead_eq_length
    rw [Int.toNat_natCast] at hbytes hun
    rw [hun, List.length_drop] at hcan'
    rw [hraw] at hlen
    have hpos : 0 < sizeofEpShell := by decide
    simp only [enqueueHeader, hc, Bool.false_eq_true, if_false]
    refine ⟨hv, hlim, rfl, hc.symm, ?_, ?_, ?_, ?_, fun _ => ?_⟩
    · rw [hbytes, EpShell.ofBytes_take, hraw]
    · rw [hun, hraw]
    · simp only [ReadsOk, List.mem_singleton, forall_eq]
      omega
    · simp only; omega
    · simp only; omega

theorem enqueueRound_short (h : io.recv.Valid) (hs : io.raw.length < sizeofEpShell) :
    enqueueRound maxCapacity fresh io = .ret io 0 [] := by
  obtain ⟨hc, hcan⟩ := (EpIo.canRead_lt_iff_raw h).mpr hs
  simp [enqueueRound, hc, hcan]

theorem enqueueRound_long (maxCapacity : ℤ) (fresh : ℕ → ℤ → UInt8) (h : io.recv.Valid)
    (hlen : sizeofEpShell ≤ io.raw.length) :
    ∃ child reads, HeaderSpec io child reads ∧
      enqueueRound maxCapacity fresh io = enqueueBody maxCapacity fresh child reads := by
  have hnot : ¬ ((!io.bShellCached) = true ∧ epRbCanRead io.recv < sizeofEpShell) := by
    intro hs
    have := (EpIo.canRead_lt_iff_raw h).mp ⟨by simpa using hs.1, hs.2⟩
    omega
  refine ⟨_, _, enqueueHeader_spec h hlen (fresh 0), ?_⟩
  rw [enqueueRound, if_neg hnot]

/-- A header that stays behind is cached, so that no byte of it is lost. -/
theorem enqueueRound_more (fresh : ℕ → ℤ → UInt8) (h : io.Ready maxCapacity) {code : ℤ}
    (hlook : shellLook maxCapacity io.raw = .more code) :
    ∃ io' reads, enqueueRound maxCapacity fresh io = .ret io' code reads ∧
      io'.Ready maxCapacity ∧ io'.raw = io.raw ∧ (io'.bShellCached = true ↔ code = 1) ∧
      ReadsOk reads ∧ io'.Waits maxCapacity := by
  simp only [shellLook] at hlook
  split_ifs at hlook with hshort hmagic hbig hpart
  · obtain rfl : (0 : ℤ) = code := by simpa using hlook
    have hwaits := (EpIo.canRead_lt_iff_raw h.valid).mpr hshort
    exact ⟨io, [], enqueueRound_short h.valid hshort, h, rfl, by simp [hwaits.1],
      by simp [ReadsOk], .inl hwaits⟩
  · obtain rfl : (1 : ℤ) = code := by simpa using hlook
    obtain ⟨child, reads, hspec, hround⟩ := enqueueRound_long maxCapacity fresh h.valid
      (not_lt.mp hshort)
    have hcan := hspec.valid.canRead_eq_length
    rw [hspec.unread] at hcan
    rw [← hspec.shell, not_not] at hmagic
    rw [← hspec.shell] at hbig hpart
    have hpos : 0 < child.shell.shellSize.toInt := by omega
    refine ⟨{ child with bShellCached := true }, reads, ?_, ?_, ?_, by simp, hspec.reads,
      .inr ⟨rfl, hmagic, hpos.le, not_lt.mp hbig, hcan ▸ hpart⟩⟩
    · rw [hround]
      simp only [enqueueBody, hmagic, ne_eq, not_true, if_false, if_neg hbig, hcan, if_pos hpart]
    · exact ⟨hspec.valid, hspec.limit.trans h.limit, fun _ => hmagic, fun _ => hpos,
        fun _ => not_lt.mp hbig⟩
    · have hraw : ({ child with bShellCached := true } : EpIo).raw =
          child.shell.toNetwork.bytes ++ child.recv.unread := by simp [EpIo.raw]
      rw [hraw, hspec.shell, hspec.unread, EpShell.toNetwork_toHost,
        EpShell.bytes_ofBytes (not_lt.mp hshort), List.take_append_drop]

theorem enqueueRound_refuse (fresh : ℕ → ℤ → UInt8) (h : io.Ready maxCapacity) {code : ℤ}
    {rest : List UInt8} (hlook : shellLook maxCapacity io.raw = .refuse code rest) :
    ∃ io' reads, enqueueRound maxCapacity fresh io = .ret io' code reads ∧
      io'.Ready maxCapacity ∧ io'.raw = rest ∧ io'.bShellCached = false ∧ ReadsOk reads ∧
      code < 0 := by
  simp only [shellLook] at hlook
  split_ifs at hlook with hshort hmagic hbig hpart
  all_goals
    obtain ⟨child, reads, hspec, hround⟩ := enqueueRound_long maxCapacity fresh h.valid
      (not_lt.mp hshort)
    obtain ⟨rfl, rfl⟩ := Verdict.refuse.inj hlook
    have hfresh : child.bShellCached = false := by
      -- a cached header has passed both checks
      rw [hspec.cached]
      by_contra hc
      have hc' : io.bShellCached = true := by simpa using hc
      have := h.magic hc'; have := h.size_le hc'
      rw [(EpIo.raw_of_cached hc').1] at *
      first | exact hmagic ‹_› | omega
    refine ⟨child, reads, ?_, ⟨hspec.valid, hspec.limit.trans h.limit, by simp [hfresh],
      by simp [hfresh], by simp [hfresh]⟩, ?_, hfresh, hspec.reads, by decide⟩
  · rw [← hspec.shell] at hmagic
    rw [hround]
    simp only [enqueueBody, hmagic, ne_eq, not_false_eq_true, if_true]
  · rw [EpIo.raw_of_not_cached hfresh, hspec.unread]
  · rw [← hspec.shell, not_not] at hmagic
    rw [← hspec.shell] at hbig
    rw [hround]
    simp only [enqueueBody, hmagic, ne_eq, not_true, if_false, if_pos hbig]
  · rw [EpIo.raw_of_not_cached hfresh, hspec.unread]

theorem EpRbReadResult.cells_data (r : EpRbReadResult) (f : ℤ → UInt8)
    (h : r.bytes.length = r.count.toNat) : cells (r.data.getD f) 0 r.count.toNat = r.bytes := by
  unfold EpRbReadResult.bytes at h ⊢
  cases hd : r.data with
  | none =>
    rw [hd] at h
    simp [← h]
  | some p => rfl

/-- A body that is there is read off the ring buffer and copied into a buffer. -/
theorem epBufferNew_epRbRead {rb : EpRb} (h : rb.Valid) {n : ℤ} (hn : 0 < n)
    (hle : n ≤ epRbCanRead rb) (hfit : n ≤ 2 ^ 31 - 16) (mem mem' f : ℤ → UInt8) :
    ∃ b, epBufferNew mem' ((epRbRead mem rb n).data.getD f) n = some b ∧
      b.Holds (rb.unread.take n.toNat) := by
  obtain ⟨-, hcount, hbytes, -, -, -⟩ := epRbRead_spec mem h hn.le
  rw [min_eq_left hle] at hcount
  have hcan := h.canRead_eq_length
  have hcells := (epRbRead mem rb n).cells_data f (by rw [hbytes, hcount]; simp; omega)
  rw [hcount, hbytes] at hcells
  obtain ⟨b, hb⟩ := Option.isSome_iff_exists.mp
    ((epBufferNew_isSome_iff mem' ((epRbRead mem rb n).data.getD f) n).mpr ⟨hn, hfit⟩)
  refine ⟨b, hb, ?_⟩
  have := epBufferNew_holds hb
  rwa [hcells] at this

/-- The checks that a frame passes before it is dispatched. -/
theorem shellLook_item {raw rest body : List UInt8} {shell : EpShell}
    (hlook : shellLook maxCapacity raw = .item (shell, body) rest) :
    sizeofEpShell ≤ raw.length ∧ shell = (EpShell.ofBytes raw).toHost ∧
    shell.magic = epMagicNumber ∧ shell.shellSize.toInt ≤ maxCapacity ∧
    shell.shellSize.toInt ≤ (raw.drop sizeofEpShell).length ∧
    body = (raw.drop sizeofEpShell).take shell.shellSize.toInt.toNat ∧
    rest = (raw.drop sizeofEpShell).drop shell.shellSize.toInt.toNat := by
  simp only [shellLook] at hlook
  split_ifs at hlook with hshort hmagic hbig hpart
  obtain ⟨hitem, rfl⟩ := Verdict.item.inj hlook
  obtain ⟨rfl, rfl⟩ := Prod.mk.inj hitem
  exact ⟨not_lt.mp hshort, rfl, not_not.mp hmagic, not_lt.mp hbig, not_lt.mp hpart, rfl, rfl⟩

/-- A round that finds a whole frame goes on to the dispatch. -/
theorem enqueueRound_dispatch (fresh : ℕ → ℤ → UInt8) (h : io.recv.Valid)
    {rest body : List UInt8} {shell : EpShell}
    (hlook : shellLook maxCapacity io.raw = .item (shell, body) rest) :
    ∃ child reads, HeaderSpec io child reads ∧ child.shell = shell ∧
      shell.shellSize.toInt ≤ epRbCanRead child.recv ∧
      enqueueRound maxCapacity fresh io =
        if shell.shellSize.toInt ≠ 0 then
          .again { child with
              recv := (epRbRead (fresh 1) child.recv shell.shellSize.toInt).rb
              bShellCached := false }
            (reads ++ [(shell.shellSize.toInt, epRbCanRead child.recv)])
            ⟨child.fd, shell, epBufferNew (fresh 2)
              ((epRbRead (fresh 1) child.recv shell.shellSize.toInt).data.getD fun _ => 0)
              shell.shellSize.toInt⟩
        else .again { child with bShellCached := false } reads ⟨child.fd, shell, none⟩ := by
  obtain ⟨hlen, hshell, hmagic, hbig, hpart, -, -⟩ := shellLook_item hlook
  obtain ⟨child, reads, hspec, hround⟩ := enqueueRound_long maxCapacity fresh h hlen
  have hcan := hspec.valid.canRead_eq_length
  rw [hspec.unread] at hcan
  have heq : child.shell = shell := by rw [hspec.shell, hshell]
  refine ⟨child, reads, hspec, heq, by omega, ?_⟩
  rw [hround]
  simp only [enqueueBody, heq, hmagic, ne_eq, not_true, if_false, if_neg (not_lt.mpr hbig), hcan,
    if_neg (not_lt.mpr hpart)]

theorem enqueueRound_item (fresh : ℕ → ℤ → UInt8) (h : io.Ready maxCapacity)
    {rest body : List UInt8} {shell : EpShell}
    (hlook : shellLook maxCapacity io.raw = .item (shell, body) rest)
    (hnonneg : 0 ≤ shell.shellSize.toInt) :
    ∃ io' reads task, enqueueRound maxCapacity fresh io = .again io' reads task ∧
      io'.Ready maxCapacity ∧ io'.raw = rest ∧ ReadsOk reads ∧
      task.fd = io.fd ∧ task.Shows (shell, body) ∧
      epRbCanRead io'.recv < epRbCanRead io.recv := by
  obtain ⟨-, hshell, -, -, hpart, hbody, hrest⟩ := shellLook_item hlook
  obtain ⟨child, reads, hspec, heq, hcan, hround⟩ := enqueueRound_dispatch fresh h.valid hlook
  rw [← hspec.unread] at hbody hrest hpart
  have hlength : shell.shellSize.toInt = body.length := by rw [hbody]; simp; omega
  have hprogress := hspec.canRead_le
  by_cases hz : shell.shellSize.toInt = 0
  · rw [if_neg (not_not.mpr hz)] at hround
    have hempty : body = [] := by rw [hbody, hz]; rfl
    have hcached : io.bShellCached = false := by
      by_contra hc
      have hc' : io.bShellCached = true := by simpa using hc
      have := h.size_pos hc'
      rw [← (EpIo.raw_of_cached hc').1, ← hshell] at this
      omega
    refine ⟨_, _, _, hround, ⟨hspec.valid, hspec.limit.trans h.limit, by simp, by simp, by simp⟩,
      ?_, hspec.reads, hspec.fd, ⟨rfl, hlength, .inl hempty⟩, hspec.progress hcached⟩
    rw [EpIo.raw_of_not_cached rfl, hrest, hz]
    rfl
  · have hpos : 0 < shell.shellSize.toInt := by omega
    rw [if_pos hz] at hround
    obtain ⟨hv, -, -, hun, -, hlim⟩ := epRbRead_spec (fresh 1) hspec.valid hnonneg
    have hless := hv.canRead_eq_length
    have hmore := hspec.valid.canRead_eq_length
    rw [hun, List.length_drop] at hless
    refine ⟨_, _, _, hround, ⟨hv, hlim.trans (hspec.limit.trans h.limit), by simp, by simp, by simp⟩,
      ?_, ?_, hspec.fd, ⟨rfl, hlength, ?_⟩, by simp only; omega⟩
    · rw [EpIo.raw_of_not_cached rfl, hrest, hun]
    · intro r hr
      rcases List.mem_append.mp hr with hr | hr
      · exact hspec.reads r hr
      · rw [List.mem_singleton.mp hr]
        exact ⟨hnonneg, hcan⟩
    · by_cases hfit : shell.shellSize.toInt ≤ 2 ^ 31 - 16
      · obtain ⟨b, hb, hholds⟩ := epBufferNew_epRbRead hspec.valid hpos hcan hfit (fresh 1)
          (fresh 2) (fun _ => 0)
        simp only [hb]
        exact ⟨by rw [← List.length_pos_iff]; omega, by omega, by rw [hbody]; exact hholds⟩
      · have hnone : epBufferNew (fresh 2)
            ((epRbRead (fresh 1) child.recv shell.shellSize.toInt).data.getD fun _ => 0)
            shell.shellSize.toInt = none := by
          rw [← Option.not_isSome_iff_eq_none, epBufferNew_isSome_iff]
          omega
        simp only [hnone]
        exact .inr (by omega)

/-- A size outside the bounds is passed on as it is: a negative one to the ring
buffer, one too large for a buffer to the dispatcher without a body. -/
theorem enqueueRound_unsound (fresh : ℕ → ℤ → UInt8) (h : io.recv.Valid)
    {rest body : List UInt8} {shell : EpShell}
    (hlook : shellLook maxCapacity io.raw = .item (shell, body) rest) (hsound : ¬ shell.Sound) :
    ∃ io' reads task, enqueueRound maxCapacity fresh io = .again io' reads task ∧
      (¬ ReadsOk reads ∨ ¬ task.Complete) := by
  obtain ⟨child, reads, -, -, -, hround⟩ := enqueueRound_dispatch fresh h hlook
  unfold EpShell.Sound at hsound
  have hz : shell.shellSize.toInt ≠ 0 := by omega
  rw [if_pos hz] at hround
  refine ⟨_, _, _, hround, ?_⟩
  by_cases hneg : shell.shellSize.toInt < 0
  · left
    intro hok
    have := hok (shell.shellSize.toInt, epRbCanRead child.recv) (by simp)
    omega
  · right
    have hnone : ¬ (epBufferNew (fresh 2)
        ((epRbRead (fresh 1) child.recv shell.shellSize.toInt).data.getD fun _ => 0)
        shell.shellSize.toInt).isSome := by rw [epBufferNew_isSome_iff]; omega
    rw [Option.not_isSome_iff_eq_none] at hnone
    rw [hnone]
    exact fun hcomplete => hz hcomplete.2

/-- The connection after a round. -/
def EnqueueRound.child : EnqueueRound → EpIo
  | .ret child _ _ | .again child _ _ => child

theorem EpIo.Kept.trans {io₁ io₂ io₃ : EpIo} (h : io₁.Kept io₂) (h' : io₂.Kept io₃) :
    io₁.Kept io₃ :=
  ⟨h'.fd.trans h.fd, h'.aes.trans h.aes, h'.capacity.trans h.capacity⟩

theorem epRbRead_capacity (mem : ℤ → UInt8) (rb : EpRb) (n : ℤ) :
    (epRbRead mem rb n).rb.capacity = rb.capacity := by
  unfold epRbRead
  dsimp only
  split_ifs <;> rfl

theorem enqueueHeader_kept (mem : ℤ → UInt8) (io : EpIo) : io.Kept (enqueueHeader mem io).1 := by
  unfold enqueueHeader
  split_ifs
  · exact ⟨rfl, rfl, rfl⟩
  · exact ⟨rfl, rfl, epRbRead_capacity _ _ _⟩

theorem enqueueRound_kept (maxCapacity : ℤ) (fresh : ℕ → ℤ → UInt8) (io : EpIo) :
    io.Kept (enqueueRound maxCapacity fresh io).child := by
  unfold enqueueRound
  split_ifs
  · exact ⟨rfl, rfl, rfl⟩
  · refine (enqueueHeader_kept (fresh 0) io).trans ?_
    unfold enqueueBody
    dsimp only
    split_ifs
    · exact ⟨rfl, rfl, rfl⟩
    · exact ⟨rfl, rfl, rfl⟩
    · exact ⟨rfl, rfl, rfl⟩
    · exact ⟨rfl, rfl, epRbRead_capacity _ _ _⟩
    · exact ⟨rfl, rfl, rfl⟩

end Round

/-! ## The loop refines a run -/

def EpRb.InBounds (rb : EpRb) : Prop :=
  (0 ≤ rb.head ∧ rb.head < rb.capacity) ∧ 0 ≤ rb.tail ∧ rb.tail < rb.capacity

theorem EpRb.Valid.inBounds {rb : EpRb} (h : rb.Valid) : rb.InBounds :=
  ⟨⟨h.head_nonneg, h.head_lt⟩, h.tail_nonneg, h.tail_lt⟩

/-- Reads within the unread bytes, progress in every round, whole frames only. -/
structure EnqueueLog.Safe (log : EnqueueLog) : Prop where
  reads : ReadsOk log.reads
  rounds : ∀ r ∈ log.rounds, epRbCanRead r.2 < epRbCanRead r.1 ∧ r.2.InBounds
  dispatched : ∀ t ∈ log.dispatched, t.Complete

/-- What a call does to a connection, in terms of the run of the abstract parser. -/
structure LoopSpec (maxCapacity : ℤ) (o : Out UInt8 (EpShell × List UInt8) ℤ) (fd : ℤ) (io' : EpIo)
    (log : EnqueueLog) : Prop where
  ready : io'.Ready maxCapacity
  raw : io'.raw = o.rest
  fd_eq : io'.fd = fd
  safe : log.Safe
  delivers : List.Forall₂ EpIoTask.Delivers log.dispatched o.items
  task_fd : ∀ t ∈ log.dispatched, t.fd = fd
  waits : o.code < 0 ∨ io'.Waits maxCapacity

theorem ReadsOk.append {a b : List (ℤ × ℤ)} (ha : ReadsOk a) (hb : ReadsOk b) :
    ReadsOk (a ++ b) := by
  intro r hr
  exact (List.mem_append.mp hr).elim (ha r) (hb r)

section Loop

variable {maxCapacity : ℤ}

/-- The same for sizes that are only known not to be negative. -/
structure LoopRun (maxCapacity : ℤ) (o : Out UInt8 (EpShell × List UInt8) ℤ) (io io' : EpIo)
    (log : EnqueueLog) : Prop where
  ready : io'.Ready maxCapacity
  raw : io'.raw = o.rest
  kept : io.Kept io'
  cached : io'.bShellCached = true ↔ o.code = 1
  reads : ReadsOk log.reads
  rounds : ∀ r ∈ log.rounds, epRbCanRead r.2 < epRbCanRead r.1 ∧ r.2.InBounds
  shows : List.Forall₂ EpIoTask.Shows log.dispatched o.items
  task_fd : ∀ t ∈ log.dispatched, t.fd = io.fd
  waits : o.code < 0 ∨ io'.Waits maxCapacity

theorem enqueueLoop_run {io : EpIo} (h : io.Ready maxCapacity) {fuel : ℕ}
    (hfuel : io.raw.length < fuel)
    (hnonneg : ∀ x ∈ ((shellParser maxCapacity).run io.raw).items, 0 ≤ x.1.shellSize.toInt)
    (fresh : ℕ → ℕ → ℤ → UInt8) :
    ∃ io' log, enqueueLoop maxCapacity fuel fresh io =
        some (io', ((shellParser maxCapacity).run io.raw).code, log) ∧
      LoopRun maxCapacity ((shellParser maxCapacity).run io.raw) io io' log := by
  induction fuel generalizing io fresh with
  | zero => omega
  | succ fuel ih =>
    have hkept := enqueueRound_kept maxCapacity (fresh 0) io
    cases hlook : (shellParser maxCapacity).look io.raw with
    | more code =>
      rw [(shellParser maxCapacity).run_more hlook]
      obtain ⟨io', reads, hround, hready, hraw, hcached, hreads, hwaits⟩ :=
        enqueueRound_more (fresh 0) h hlook
      rw [hround] at hkept
      exact ⟨io', { reads := reads }, by simp only [enqueueLoop, hround], hready, hraw, hkept,
        hcached, hreads, by simp, .nil, by simp, .inr hwaits⟩
    | refuse code rest =>
      rw [(shellParser maxCapacity).run_refuse hlook]
      obtain ⟨io', reads, hround, hready, hraw, hcached, hreads, hneg⟩ :=
        enqueueRound_refuse (fresh 0) h hlook
      rw [hround] at hkept
      have hcode : code ≠ 1 := by omega
      exact ⟨io', { reads := reads }, by simp only [enqueueLoop, hround], hready, hraw, hkept,
        by simp [hcached, hcode], hreads, by simp, .nil, by simp, .inl hneg⟩
    | item x rest =>
      rw [(shellParser maxCapacity).run_item hlook] at hnonneg ⊢
      simp only [Out.push, List.mem_cons, forall_eq_or_imp] at hnonneg
      obtain ⟨io₁, reads, task, hround, hready, hraw, hreads, htask, hshows, hless⟩ :=
        enqueueRound_item (fresh 0) h hlook hnonneg.1
      rw [hround] at hkept
      have hshorter := (shellParser maxCapacity).shorter hlook
      rw [← hraw] at hshorter hnonneg ⊢
      obtain ⟨io', log, hloop, hrun⟩ := ih hready (by omega) hnonneg.2 (fun i => fresh (i + 1))
      refine ⟨io', _, by simp only [enqueueLoop, hround, hloop, Option.map_some]; rfl,
        hrun.ready, hrun.raw, hkept.trans hrun.kept, hrun.cached, hreads.append hrun.reads, ?_,
        .cons hshows hrun.shows, ?_, hrun.waits⟩
      · simp only [List.mem_cons, forall_eq_or_imp]
        exact ⟨⟨hless, hready.valid.inBounds⟩, hrun.rounds⟩
      · simp only [List.mem_cons, forall_eq_or_imp]
        exact ⟨htask, fun t ht => (hrun.task_fd t ht).trans hkept.fd⟩

theorem LoopRun.sound {io io' : EpIo} {o : Out UInt8 (EpShell × List UInt8) ℤ}
    {log : EnqueueLog} (h : LoopRun maxCapacity o io io' log)
    (hsound : ∀ x ∈ o.items, x.1.Sound) : LoopSpec maxCapacity o io.fd io' log := by
  obtain ⟨hlen, hshows⟩ := List.forall₂_iff_get.mp h.shows
  have hdelivers : ∀ i hi hi', (log.dispatched.get ⟨i, hi⟩).Delivers (o.items.get ⟨i, hi'⟩) :=
    fun i hi hi' => (hshows i hi hi').delivers (hsound _ (List.get_mem _ _))
  refine ⟨h.ready, h.raw, h.kept.fd, ⟨h.reads, h.rounds, fun t ht => ?_⟩,
    List.forall₂_iff_get.mpr ⟨hlen, hdelivers⟩, h.task_fd, h.waits⟩
  obtain ⟨i, rfl⟩ := List.get_of_mem ht
  exact (hdelivers i i.2 (hlen ▸ i.2)).complete

theorem enqueueLoop_spec {io : EpIo} (h : io.Ready maxCapacity) {fuel : ℕ}
    (hfuel : io.raw.length < fuel)
    (hsound : ∀ x ∈ ((shellParser maxCapacity).run io.raw).items, x.1.Sound)
    (fresh : ℕ → ℕ → ℤ → UInt8) :
    ∃ io' log, enqueueLoop maxCapacity fuel fresh io =
        some (io', ((shellParser maxCapacity).run io.raw).code, log) ∧
      LoopSpec maxCapacity ((shellParser maxCapacity).run io.raw) io.fd io' log := by
  obtain ⟨io', log, hloop, hrun⟩ := enqueueLoop_run h hfuel (fun x hx => (hsound x hx).1) fresh
  exact ⟨io', log, hloop, hrun.sound hsound⟩

/-- A round that goes on puts its reads, itself and its task in front of the log. -/
theorem enqueueLoop_again {io io₁ io' : EpIo} {fuel : ℕ} {fresh : ℕ → ℕ → ℤ → UInt8}
    {reads : List (ℤ × ℤ)} {task : EpIoTask} {code : ℤ} {log : EnqueueLog}
    (hround : enqueueRound maxCapacity (fresh 0) io = .again io₁ reads task)
    (hloop : enqueueLoop maxCapacity (fuel + 1) fresh io = some (io', code, log)) :
    ∃ log', enqueueLoop maxCapacity fuel (fun i => fresh (i + 1)) io₁ = some (io', code, log') ∧
      log = { reads := reads ++ log'.reads
              rounds := (io.recv, io₁.recv) :: log'.rounds
              dispatched := task :: log'.dispatched } := by
  simp only [enqueueLoop, hround, Option.map_eq_some_iff] at hloop
  obtain ⟨⟨io₂, code₂, log₂⟩, hrec, heq⟩ := hloop
  simp only [Prod.mk.injEq] at heq
  obtain ⟨rfl, rfl, rfl⟩ := heq
  exact ⟨log₂, hrec, rfl⟩

/-- A run that meets an unsound frame is never a safe call: it does not end, or
its log shows the frame. -/
theorem enqueueLoop_unsound {io io' : EpIo} (h : io.Ready maxCapacity) {fuel : ℕ}
    (hunsound : ∃ x ∈ ((shellParser maxCapacity).run io.raw).items, ¬ x.1.Sound)
    {fresh : ℕ → ℕ → ℤ → UInt8} {code : ℤ} {log : EnqueueLog}
    (hloop : enqueueLoop maxCapacity fuel fresh io = some (io', code, log)) : ¬ log.Safe := by
  induction fuel generalizing io fresh log with
  | zero => simp [enqueueLoop] at hloop
  | succ fuel ih =>
    cases hlook : (shellParser maxCapacity).look io.raw with
    | more code =>
      rw [(shellParser maxCapacity).run_more hlook] at hunsound
      simp at hunsound
    | refuse code rest =>
      rw [(shellParser maxCapacity).run_refuse hlook] at hunsound
      simp at hunsound
    | item x rest =>
      rw [(shellParser maxCapacity).run_item hlook] at hunsound
      by_cases hx : x.1.Sound
      · obtain ⟨io₁, reads, task, hround, hready, hraw, -, -, -, -⟩ :=
          enqueueRound_item (fresh 0) h hlook hx.1
        have hrest : ∃ y ∈ ((shellParser maxCapacity).run io₁.raw).items, ¬ y.1.Sound := by
          obtain ⟨y, hy, hbad⟩ := hunsound
          rw [hraw]
          rcases List.mem_cons.mp hy with rfl | hy
          · exact absurd hx hbad
          · exact ⟨y, hy, hbad⟩
        obtain ⟨log₂, hrec, rfl⟩ := enqueueLoop_again hround hloop
        intro hsafe
        refine ih hready hrest hrec ⟨?_, ?_, ?_⟩
        · exact fun r hr => hsafe.reads r (List.mem_append_right _ hr)
        · exact fun r hr => hsafe.rounds r (List.mem_cons_of_mem _ hr)
        · exact fun t ht => hsafe.dispatched t (List.mem_cons_of_mem _ ht)
      · obtain ⟨io₁, reads, task, hround, hbad⟩ := enqueueRound_unsound (fresh 0) h.valid hlook hx
        obtain ⟨log₂, -, rfl⟩ := enqueueLoop_again hround hloop
        intro hsafe
        rcases hbad with hbad | hbad
        · exact hbad fun r hr => hsafe.reads r (List.mem_append_left _ hr)
        · exact hbad (hsafe.dispatched task (List.mem_cons_self ..))

end Loop

end Youmenu.Eventpack
