import Mathlib.Data.Fintype.Pi
import Mathlib.Logic.Equiv.Basic
import Youmenu.Eventpack.Buffer
import Youmenu.Eventpack.Ringbuffer
import Youmenu.Eventpack.Shell

/-!
# The connection table and the frame codec of `ep_io.c`

A frame is a header in network order followed by a body. On the way out the body
is compressed and then encrypted as the sender's own pair of header flags says;
the receiver consults the same pair, because its role is the other one. The
lengths before compression and before encryption travel in the header.

## Main definitions

* `EpIo`, `EpIoMgr`, `epIoFind`, `epIoGetAes` — the connection table.
* `epIoCombineShell`, `epIoRecombineOriginal` — building and taking apart a frame.
* `CodecCall` — the calls that use the key of a connection.

Functions that allocate take the contents of their allocations, numbered in the
order of the source, as the argument `fresh`.
-/

namespace Youmenu.Eventpack

open Circular

/-! ## The connection table -/

inductive EpIoRefor where
  | server
  | client
deriving DecidableEq

structure EpIo where
  recv : EpRb
  shell : EpShell
  bShellCached : Bool
  aes : EpAesKey
  fd : ℤ

structure EpIoMgr where
  refor : EpIoRefor
  defCapacity : ℤ
  maxCapacity : ℤ
  miniCompressIf : ℤ
  ioList : List EpIo

def epIoFind (ioMgr : EpIoMgr) (fd : ℤ) : Option EpIo := ioMgr.ioList.find? fun io => io.fd = fd

/-- The caller gets a copy; what it does to the vector stays in the copy. -/
def epIoGetAes (ioMgr : EpIoMgr) (fd : ℤ) : Option EpAesKey := (epIoFind ioMgr fd).map EpIo.aes

/-! ## Building a frame -/

/-- The compression flag that the party `refor` applies to what it sends. -/
def EpShellProto.compressOf (p : EpShellProto) : EpIoRefor → BitVec 3
  | .client => p.cCompress
  | .server => p.sCompress

def EpShellProto.cryptOf (p : EpShellProto) : EpIoRefor → BitVec 3
  | .client => p.cCrypt
  | .server => p.sCrypt

def EpShellProto.setCompress (p : EpShellProto) (v : BitVec 3) : EpIoRefor → EpShellProto
  | .client => { p with cCompress := v }
  | .server => { p with sCompress := v }

section Codec

variable (aes : AesCipher) (bz : Bz2) (fresh : ℕ → ℤ → UInt8)

/-- The compression step; `auto` is resolved here, in the header as well. -/
def combineCompress (ioMgr : EpIoMgr) (shell : EpShell) (input : EpBuffer) :
    Option (EpShell × EpBuffer) :=
  let compress := shell.proto.compressOf ioMgr.refor
  if compress = compressTypeCompress then
    (epBufferCompress bz (fresh 0) input).map fun c => (shell, c)
  else if compress = compressTypeAuto then
    if input.used > ioMgr.miniCompressIf then
      (epBufferCompress bz (fresh 0) input).map fun c =>
        ({ shell with proto := shell.proto.setCompress compressTypeCompress ioMgr.refor }, c)
    else
      some ({ shell with proto := shell.proto.setCompress compressTypeNone ioMgr.refor }, input)
  else some (shell, input)

def combineEncrypt (ioMgr : EpIoMgr) (fd : ℤ) (crypt : BitVec 3) (input : EpBuffer) :
    Option EpBuffer :=
  if crypt = cryptTypeEncrypt then
    match epIoGetAes ioMgr fd with
    | none => none
    | some key => (epBufferEncrypt aes (fresh 1) input key).1
  else some input

/-- Header and body in one buffer; `shell` is left in network order. -/
def combineFrame (shell : EpShell) (shellBuffer : ℤ → UInt8) (shellSize : ℤ) :
    Option (EpShell × EpBuffer) :=
  match epMalloc (fresh 2) (sizeofEpShell + shellSize + 1) with
  | none => none
  | some outBuf =>
    let shell := { shell with shellSize := BitVec.ofInt 32 shellSize }.toNetwork
    let outBuf := copyIn (copyIn outBuf 0 shell.bytes) sizeofEpShell
      (cells shellBuffer 0 shellSize.toNat)
    (epBufferNew (fresh 3) outBuf (sizeofEpShell + shellSize)).map fun out => (shell, out)

/-- Returns the connection table, the header as it is left in the caller's
variable, and the frame. -/
def epIoCombineShell (ioMgr : EpIoMgr) (fd : ℤ) (shell : EpShell) (input : Option EpBuffer) :
    EpIoMgr × Option (EpShell × EpBuffer) :=
  match input with
  | none => (ioMgr, combineFrame fresh { shell with packSize := 0 } (fun _ => 0) 0)
  | some input =>
    let crypt := shell.proto.cryptOf ioMgr.refor
    (ioMgr, do
      let (shell, input) ← combineCompress bz fresh ioMgr
        { shell with packSize := BitVec.ofInt 32 input.used } input
      let shell := { shell with decryptSize := BitVec.ofInt 32 input.used }
      let input ← combineEncrypt aes fresh ioMgr fd crypt input
      combineFrame fresh shell input.chunk input.used)

/-! ## Taking a frame apart -/

/-- The role whose flags a receiver consults. -/
def EpIoRefor.peer : EpIoRefor → EpIoRefor
  | .server => .client
  | .client => .server

def recombineDecrypt (ioMgr : EpIoMgr) (fd : ℤ) (shell : EpShell) (input : EpBuffer) :
    Option EpBuffer :=
  if shell.proto.cryptOf ioMgr.refor.peer = cryptTypeEncrypt then
    match epIoGetAes ioMgr fd with
    | none => none
    | some key => (epBufferDecrypt aes (fresh 0) input key shell.decryptSize.toInt).1
  else some input

def recombineDecompress (ioMgr : EpIoMgr) (shell : EpShell) (input : EpBuffer) :
    Option EpBuffer :=
  if shell.proto.compressOf ioMgr.refor.peer = compressTypeCompress then
    epBufferDecompress bz (fresh 1) input shell.packSize.toInt
  else some input

def epIoRecombineOriginal (ioMgr : EpIoMgr) (fd : ℤ) (shell : EpShell) (input : EpBuffer) :
    EpIoMgr × Option EpBuffer :=
  (ioMgr, do
    let input ← recombineDecrypt aes fresh ioMgr fd shell input
    recombineDecompress bz fresh ioMgr shell input)

end Codec

/-! ## One specification per step -/

section Specs

variable {aes : AesCipher} {bz : Bz2} {fresh : ℕ → ℤ → UInt8}

@[simp] theorem EpShellProto.compressOf_setCompress (p : EpShellProto) (v : BitVec 3)
    (r : EpIoRefor) : (p.setCompress v r).compressOf r = v := by cases r <;> rfl

@[simp] theorem EpShellProto.cryptOf_setCompress (p : EpShellProto) (v : BitVec 3)
    (r r' : EpIoRefor) : (p.setCompress v r).cryptOf r' = p.cryptOf r' := by
  cases r <;> cases r' <;> rfl

@[simp] theorem EpShellProto.category_setCompress (p : EpShellProto) (v : BitVec 3)
    (r : EpIoRefor) : (p.setCompress v r).category = p.category := by cases r <;> rfl

@[simp] theorem EpShellProto.type_setCompress (p : EpShellProto) (v : BitVec 3)
    (r : EpIoRefor) : (p.setCompress v r).type = p.type := by cases r <;> rfl

/-- The byte string a compression flag stands for. -/
def packed (bz : Bz2) (flag : BitVec 3) (xs : List UInt8) : List UInt8 :=
  if flag = compressTypeCompress then bz.compress xs else xs

/-- The header that leaves the compression step says what was done to the body. -/
structure CompressSpec (bz : Bz2) (refor : EpIoRefor) (shell shell' : EpShell)
    (xs : List UInt8) (c : EpBuffer) : Prop where
  holds : c.Holds (packed bz (shell'.proto.compressOf refor) xs)
  fits : shell'.proto.compressOf refor = compressTypeCompress → epAlignSize xs.length ≤ intMax
  crypt : shell'.proto.cryptOf refor = shell.proto.cryptOf refor
  category : shell'.proto.category = shell.proto.category
  type : shell'.proto.type = shell.proto.type
  magic : shell'.magic = shell.magic
  packSize : shell'.packSize = shell.packSize

theorem combineCompress_spec {ioMgr : EpIoMgr} {shell shell' : EpShell} {b c : EpBuffer}
    {xs : List UInt8} (hb : b.Holds xs)
    (h : combineCompress bz fresh ioMgr shell b = some (shell', c)) :
    CompressSpec bz ioMgr.refor shell shell' xs c := by
  simp only [combineCompress] at h
  split_ifs at h with hflag hauto hbig
  · obtain ⟨c', hc, heq⟩ := Option.map_eq_some_iff.mp h
    obtain ⟨rfl, rfl⟩ := Prod.mk.inj heq
    obtain ⟨hholds, hfit⟩ := epBufferCompress_eq_some hb hc
    rw [hb.used_eq] at hfit
    exact ⟨by rwa [packed, if_pos hflag], fun _ => hfit, rfl, rfl, rfl, rfl, rfl⟩
  · obtain ⟨c', hc, heq⟩ := Option.map_eq_some_iff.mp h
    obtain ⟨rfl, rfl⟩ := Prod.mk.inj heq
    obtain ⟨hholds, hfit⟩ := epBufferCompress_eq_some hb hc
    rw [hb.used_eq] at hfit
    exact ⟨by simpa [packed] using hholds, fun _ => hfit, by simp, by simp, by simp, rfl, rfl⟩
  · obtain ⟨rfl, rfl⟩ := Prod.mk.inj (Option.some.inj h)
    have hne : compressTypeNone ≠ compressTypeCompress := by decide
    exact ⟨by simpa [packed, hne] using hb, fun hc => absurd (by simpa using hc) hne,
      by simp, by simp, by simp, rfl, rfl⟩
  · obtain ⟨rfl, rfl⟩ := Prod.mk.inj (Option.some.inj h)
    exact ⟨by rwa [packed, if_neg hflag], fun hc => absurd hc hflag, rfl, rfl, rfl, rfl, rfl⟩

theorem toInt_ofInt_of_fits {n : ℤ} (h0 : 0 ≤ n) (h : n ≤ intMax) :
    (BitVec.ofInt 32 n).toInt = n := by
  unfold intMax at h
  rw [BitVec.toInt_ofInt, Int.bmod_eq_of_le (by omega) (by omega)]

/-- The frame is the header, with the size of the body filled in, and the body. -/
theorem combineFrame_spec {shell net : EpShell} {m : ℤ → UInt8} {wire : List UInt8}
    {out : EpBuffer} (hwire : cells m 0 wire.length = wire)
    (h : combineFrame fresh shell m wire.length = some (net, out)) :
    net = { shell with shellSize := BitVec.ofInt 32 wire.length }.toNetwork ∧
    out.Holds (net.bytes ++ wire) ∧ (wire.length : ℤ) + 34 ≤ 2 ^ 31 := by
  unfold combineFrame at h
  cases hm : epMalloc (fresh 2) (sizeofEpShell + wire.length + 1) with
  | none => simp [hm] at h
  | some outBuf =>
    simp only [hm, Int.toNat_natCast, hwire] at h
    obtain ⟨out', hnew, heq⟩ := Option.map_eq_some_iff.mp h
    obtain ⟨rfl, rfl⟩ := Prod.mk.inj heq
    generalize hnet : EpShell.toNetwork { shell with shellSize := BitVec.ofInt 32 wire.length } = n
      at hnew ⊢
    have hfit := (epBufferNew_isSome_iff _ _ _).mp (by rw [hnew]; rfl)
    refine ⟨rfl, ?_, by simp only [sizeofEpShell] at hfit; omega⟩
    have hcells := cells_copyIn_pair outBuf 0 n.bytes wire
    rw [Int.zero_add, EpShell.length_bytes] at hcells
    have hlen : ((sizeofEpShell : ℤ) + wire.length).toNat = sizeofEpShell + wire.length := by omega
    have hholds := epBufferNew_holds hnew
    rwa [hlen, hcells] at hholds

/-- What the encryption flag did to the body, in terms of the key that was used. -/
theorem combineEncrypt_spec {ioMgr : EpIoMgr} {fd : ℤ} {crypt : BitVec 3} {b e : EpBuffer}
    {ys : List UInt8} (hb : b.Holds ys)
    (h : combineEncrypt aes fresh ioMgr fd crypt b = some e) :
    ∃ wire, e.Holds wire ∧ ys.length ≤ wire.length ∧
      ∀ rcv rfd (shell : EpShell) r fresh', epIoGetAes rcv rfd = epIoGetAes ioMgr fd →
        shell.proto.cryptOf rcv.refor.peer = crypt → shell.decryptSize.toInt = (ys.length : ℤ) →
        r.Holds wire → (wire.length : ℤ) + 34 ≤ 2 ^ 31 →
        ∃ d, recombineDecrypt aes fresh' rcv rfd shell r = some d ∧ d.Holds ys := by
  unfold combineEncrypt at h
  split_ifs at h with hflag
  · cases hkey : epIoGetAes ioMgr fd with
    | none => simp [hkey] at h
    | some key =>
      rw [hkey] at h
      obtain ⟨n, hused, -, hlt, -, -⟩ := epBufferEncrypt_eq_some h (by rw [hb.used_eq]; omega)
      have := hb.used_eq
      refine ⟨cells e.chunk 0 e.used.toNat, ⟨by simp; omega, by simp⟩, by simp; omega, ?_⟩
      intro rcv rfd shell r fresh' hkey' hcrypt hsize hr hfit
      obtain ⟨d, hd, hholds⟩ := epBufferDecrypt_encrypt hb h hr
        (by simp only [length_cells] at hfit; unfold intMax; omega) (fresh' 0)
      refine ⟨d, ?_, hholds⟩
      simp only [recombineDecrypt, hcrypt, hflag, if_true, hkey', hsize, hd]
  · cases h
    refine ⟨ys, hb, le_rfl, ?_⟩
    intro rcv rfd shell r fresh' _ hcrypt _ hr _
    exact ⟨r, by simp only [recombineDecrypt, hcrypt, if_neg hflag], hr⟩

theorem recombineDecompress_spec (fresh : ℕ → ℤ → UInt8) (rcv : EpIoMgr) (shell : EpShell)
    {xs : List UInt8} {d : EpBuffer}
    (hd : d.Holds (packed bz (shell.proto.compressOf rcv.refor.peer) xs))
    (hpos : 0 < xs.length) (hsize : shell.packSize.toInt = xs.length)
    (hfit : shell.proto.compressOf rcv.refor.peer = compressTypeCompress →
      epAlignSize xs.length ≤ intMax) :
    ∃ o, recombineDecompress bz fresh rcv shell d = some o ∧ o.Holds xs := by
  unfold recombineDecompress
  unfold packed at hd
  split_ifs at hd ⊢ with hflag
  · rw [hsize]
    exact epBufferDecompress_compress hd hpos (hfit hflag)
  · exact ⟨d, rfl, hd⟩

/-- A frame in flight: `wire` is the body a peer recovers `xs` from, whatever its
table holds besides the key. -/
structure FrameSpec (aes : AesCipher) (bz : Bz2) (ioMgr : EpIoMgr) (fd : ℤ) (shell hdr : EpShell)
    (xs wire : List UInt8) : Prop where
  category : hdr.proto.category = shell.proto.category
  type : hdr.proto.type = shell.proto.type
  magic : hdr.magic = shell.magic
  shellSize : hdr.shellSize.toInt = wire.length
  wire_pos : 0 < wire.length
  fits : (wire.length : ℤ) + 34 ≤ 2 ^ 31
  recombine : ∀ rcv rfd r fresh', rcv.refor.peer = ioMgr.refor →
    epIoGetAes rcv rfd = epIoGetAes ioMgr fd → r.Holds wire →
    ∃ o, (epIoRecombineOriginal aes bz fresh' rcv rfd hdr r).2 = some o ∧ o.Holds xs

theorem epIoCombineShell_spec {ioMgr : EpIoMgr} {fd : ℤ} {shell net : EpShell} {b out : EpBuffer}
    {xs : List UInt8} (hb : b.Holds xs) (hpos : 0 < xs.length)
    (h : (epIoCombineShell aes bz fresh ioMgr fd shell (some b)).2 = some (net, out)) :
    ∃ hdr wire, net = hdr.toNetwork ∧ out.Holds (net.bytes ++ wire) ∧
      FrameSpec aes bz ioMgr fd shell hdr xs wire := by
  simp only [epIoCombineShell] at h
  obtain ⟨⟨shell₁, c⟩, hc, h⟩ := Option.bind_eq_some_iff.mp h
  obtain ⟨e, he, h⟩ := Option.bind_eq_some_iff.mp h
  have hcs := combineCompress_spec hb hc
  obtain ⟨wire, hwire, hle, hdec⟩ := combineEncrypt_spec hcs.holds he
  rw [hwire.used_eq] at h
  obtain ⟨hnet, hout, hfit⟩ := combineFrame_spec hwire.cells_eq h
  refine ⟨_, wire, hnet, hout, ?_⟩
  have hpacked : 0 < (packed bz (shell₁.proto.compressOf ioMgr.refor) xs).length := by
    unfold packed
    split_ifs
    · exact List.length_pos_iff.mpr (bz.compress_ne_nil xs)
    · exact hpos
  have hxs : (xs.length : ℤ) ≤ intMax := by
    by_cases hflag : shell₁.proto.compressOf ioMgr.refor = compressTypeCompress
    · exact (le_epAlignSize _).trans (hcs.fits hflag)
    · rw [packed, if_neg hflag] at hle
      unfold intMax; omega
  have hys : ((packed bz (shell₁.proto.compressOf ioMgr.refor) xs).length : ℤ) ≤ intMax := by
    unfold intMax; omega
  refine ⟨hcs.category, hcs.type, hcs.magic, ?_, by omega, hfit, ?_⟩
  · exact toInt_ofInt_of_fits (by omega) (by unfold intMax; omega)
  · intro rcv rfd r fresh' hrole hkey hr
    obtain ⟨d, hd, hdholds⟩ := hdec rcv rfd
      { shell₁ with
        decryptSize := BitVec.ofInt 32 c.used
        shellSize := BitVec.ofInt 32 wire.length } r fresh' hkey
      (by rw [hrole]; exact hcs.crypt)
      (by rw [hcs.holds.used_eq]; exact toInt_ofInt_of_fits (by omega) hys) hr hfit
    obtain ⟨o, ho, hoholds⟩ := recombineDecompress_spec fresh' rcv
      { shell₁ with
        decryptSize := BitVec.ofInt 32 c.used
        shellSize := BitVec.ofInt 32 wire.length } (by rw [hrole]; exact hdholds) hpos
      (by rw [hcs.packSize, hb.used_eq]; exact toInt_ofInt_of_fits (by omega) hxs)
      (by rw [hrole]; exact hcs.fits)
    exact ⟨o, by simp only [epIoRecombineOriginal, hd, Option.bind_some, bind, ho], hoholds⟩

/-- A request without a body is its header alone. -/
theorem epIoCombineShell_none_spec {ioMgr : EpIoMgr} {fd : ℤ} {shell net : EpShell}
    {out : EpBuffer} (h : (epIoCombineShell aes bz fresh ioMgr fd shell none).2 = some (net, out)) :
    net = { shell with packSize := 0, shellSize := 0 }.toNetwork ∧ out.Holds net.bytes := by
  have hempty : cells (fun _ => (0 : UInt8)) 0 ([] : List UInt8).length = [] := rfl
  obtain ⟨hnet, hout, -⟩ := combineFrame_spec hempty h
  exact ⟨hnet, by simpa using hout⟩

end Specs

/-! ## Round trip -/

/-- A call that uses the key of a connection. -/
inductive CodecCall where
  | combine (fresh : ℕ → ℤ → UInt8) (fd : ℤ) (shell : EpShell) (input : Option EpBuffer)
  | recombine (fresh : ℕ → ℤ → UInt8) (fd : ℤ) (shell : EpShell) (input : EpBuffer)

def CodecCall.run (aes : AesCipher) (bz : Bz2) (ioMgr : EpIoMgr) : CodecCall → EpIoMgr
  | .combine fresh fd shell input => (epIoCombineShell aes bz fresh ioMgr fd shell input).1
  | .recombine fresh fd shell input => (epIoRecombineOriginal aes bz fresh ioMgr fd shell input).1

/-- The table after a history of codec calls. -/
def codecCalls (aes : AesCipher) (bz : Bz2) (ioMgr : EpIoMgr) (calls : List CodecCall) : EpIoMgr :=
  calls.foldl (CodecCall.run aes bz) ioMgr

/-- The chaining vector is overwritten in a copy only, so a call leaves the table alone. -/
theorem CodecCall.run_eq (aes : AesCipher) (bz : Bz2) (ioMgr : EpIoMgr) (call : CodecCall) :
    call.run aes bz ioMgr = ioMgr := by
  cases call with
  | combine fresh fd shell input => cases input <;> rfl
  | recombine fresh fd shell input => rfl

theorem codecCalls_eq (aes : AesCipher) (bz : Bz2) (ioMgr : EpIoMgr) (calls : List CodecCall) :
    codecCalls aes bz ioMgr calls = ioMgr := by
  induction calls generalizing ioMgr with
  | nil => rfl
  | cons call calls ih => exact (ih _).trans (call.run_eq aes bz ioMgr)

/-- The bytes of a buffer. -/
def EpBuffer.bytes (b : EpBuffer) : List UInt8 := cells b.chunk 0 b.used.toNat

theorem EpBuffer.Holds.bytes_eq {b : EpBuffer} {xs : List UInt8} (h : b.Holds xs) :
    b.bytes = xs := by rw [EpBuffer.bytes, h.used_eq, Int.toNat_natCast, h.cells_eq]

/-- Decoding inverts building, in both directions and for every choice of flags.
The buffers `input` and `received` are only known on their used parts, both
tables have been used before, and neither key is changed. -/
theorem epIoRecombineOriginal_epIoCombineShell (aes : AesCipher) (bz : Bz2)
    (sender receiver : EpIoMgr) (hrole : sender.refor ≠ receiver.refor) (sfd rfd : ℤ)
    (hkey : epIoGetAes sender sfd = epIoGetAes receiver rfd) (sent taken : List CodecCall)
    (shell : EpShell) (body : List UInt8) (hbody : body ≠ []) (input : EpBuffer)
    (hinput : input.Holds body) (fresh : ℕ → ℤ → UInt8) (net : EpShell) (out : EpBuffer)
    (hframe : (epIoCombineShell aes bz fresh (codecCalls aes bz sender sent) sfd shell
      (some input)).2 = some (net, out)) :
    let hdr := (EpShell.ofBytes out.bytes).toHost
    hdr.proto.category = shell.proto.category ∧
    hdr.proto.type = shell.proto.type ∧
    hdr.shellSize.toInt = (out.bytes.drop sizeofEpShell).length ∧
    (∀ received fresh', received.Holds (out.bytes.drop sizeofEpShell) →
      ∃ orig, (epIoRecombineOriginal aes bz fresh' (codecCalls aes bz receiver taken) rfd hdr
        received).2 = some orig ∧ orig.Holds body) ∧
    epIoGetAes (codecCalls aes bz sender sent) sfd = epIoGetAes sender sfd ∧
    epIoGetAes (codecCalls aes bz receiver taken) rfd = epIoGetAes receiver rfd := by
  intro hdr
  rw [codecCalls_eq] at hframe
  obtain ⟨host, wire, hnet, hout, hspec⟩ :=
    epIoCombineShell_spec hinput (List.length_pos_iff.mpr hbody) hframe
  have hhdr : hdr = host := by
    simp only [hdr, hout.bytes_eq, EpShell.ofBytes_append, hnet, EpShell.toHost_toNetwork]
  have hwire : out.bytes.drop sizeofEpShell = wire := by
    rw [hout.bytes_eq, List.drop_left' net.length_bytes]
  have hpeer : receiver.refor.peer = sender.refor := by
    revert hrole
    cases sender.refor <;> cases receiver.refor <;> simp [EpIoRefor.peer]
  rw [hhdr, hwire, codecCalls_eq, codecCalls_eq]
  exact ⟨hspec.category, hspec.type, hspec.shellSize,
    fun received fresh' hr => hspec.recombine receiver rfd received fresh' hpeer hkey.symm hr,
    rfl, rfl⟩

/-! ## One encrypted frame

The example vector of FIPS 197: under the key `00 01 … 0f` the plaintext block
`00 11 … ff` has the ciphertext block `69 c4 … 5a`. -/

def fipsPlain : List UInt8 :=
  [0x00, 0x11, 0x22, 0x33, 0x44, 0x55, 0x66, 0x77, 0x88, 0x99, 0xaa, 0xbb, 0xcc, 0xdd, 0xee, 0xff]

def fipsCipher : List UInt8 :=
  [0x69, 0xc4, 0xe0, 0xd8, 0x6a, 0x7b, 0x04, 0x30, 0xd8, 0xcd, 0xb7, 0x80, 0x70, 0xb4, 0xc5, 0x5a]

def blockOf (xs : List UInt8) : Block := fun i => xs.getD i 0

/-- The cipher on the blocks of the vector, as a permutation of all blocks. -/
def fipsAes : AesCipher where
  encrypt := fun _ => Equiv.swap (blockOf fipsPlain) (blockOf fipsCipher)
  decrypt := fun _ => Equiv.swap (blockOf fipsPlain) (blockOf fipsCipher)
  decrypt_encrypt := fun _ _ => Equiv.swap_apply_self _ _ _

/-- A compressor for frames that do not use it. -/
def storedBz2 : Bz2 where
  compress := fun xs => 0x42 :: xs
  decompress := fun xs => some xs.tail
  decompress_compress := fun _ => rfl
  compress_ne_nil := fun _ => List.cons_ne_nil _ _
  length_compress_le := fun xs => by simp only [List.length_cons]; omega

def fipsMgr (refor : EpIoRefor) (fd : ℤ) : EpIoMgr where
  refor := refor
  defCapacity := 4096
  maxCapacity := 4194304
  miniCompressIf := 4096
  ioList := [⟨epRbNew 4096 4194304, ⟨0, ⟨0, 0, 0, 0, 0, 0, 0⟩, 0, 0, 0⟩, false,
    ⟨fun i => UInt8.ofNat i, fun _ => 0⟩, fd⟩]

def fipsShell : EpShell :=
  ⟨epMagicNumber, ⟨0x0102, reqTypeGet, cryptTypeEncrypt, compressTypeAuto, 0, 0, 0⟩, 0, 0, 0⟩

/-- A client sends the first fifteen bytes of the plaintext block; the byte behind
them happens to be the sixteenth. -/
def fipsFrame : Option (EpShell × EpBuffer) :=
  (epIoCombineShell fipsAes storedBz2 (fun _ _ => 0) (fipsMgr .client 7) 7 fipsShell
    (some ⟨fun a => fipsPlain.getD a.toNat 0, 16, 15⟩)).2

theorem epIoRecombineOriginal_epIoCombineShell_fips :
    (fipsFrame.map fun p => p.2.bytes.drop sizeofEpShell) = some fipsCipher ∧
    ∃ net out, fipsFrame = some (net, out) ∧
      ∃ orig, (epIoRecombineOriginal fipsAes storedBz2 (fun _ _ => 0) (fipsMgr .server 9) 9
        (EpShell.ofBytes out.bytes).toHost
        ⟨fun a => fipsCipher.getD (a.toNat % 16) 0, 16, 16⟩).2 = some orig ∧
        orig.Holds (fipsPlain.take 15) := by
  have hbytes : (fipsFrame.map fun p => p.2.bytes.drop sizeofEpShell) = some fipsCipher := by
    decide
  refine ⟨hbytes, ?_⟩
  obtain ⟨⟨net, out⟩, hframe, hwire⟩ := Option.map_eq_some_iff.mp hbytes
  obtain ⟨-, -, -, horig, -⟩ := epIoRecombineOriginal_epIoCombineShell fipsAes storedBz2
    (fipsMgr .client 7) (fipsMgr .server 9) (by decide) 7 9 rfl [] [] fipsShell
    (fipsPlain.take 15) (by decide) ⟨fun a => fipsPlain.getD a.toNat 0, 16, 15⟩
    ⟨rfl, by decide⟩ (fun _ _ => 0) net out hframe
  exact ⟨net, out, hframe, horig _ _ (by rw [hwire]; exact ⟨rfl, by decide⟩)⟩

end Youmenu.Eventpack
