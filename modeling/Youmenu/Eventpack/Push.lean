import Youmenu.Eventpack.Legible
import Youmenu.Eventpack.Sending

/-!
# Pushing a message: `ep_service_push`

A push builds one frame and posts it to every selected connection. The frame is ciphered
with the key of the descriptor that the caller names, before anything is known about the
recipients; each recipient deciphers it with a key of its own.

## Main definitions

* `ServiceIo`, `ServiceMgr` — a connection of the service with its key and its queue.
* `epServicePush` — the source.
* `Reads` — a client recovers the pack from a frame.
* `PushReaches` — every selected client got a frame that it can read, and no other got one.
-/

namespace Youmenu.Eventpack

open Circular

/-! ## The source -/

/-- An `ep_io_t` of the service: what the codec uses, the queue and the address. -/
structure ServiceIo extends EpIo where
  io : ℕ
  send : List (List UInt8)

structure ServiceMgr where
  defCapacity : ℤ
  maxCapacity : ℤ
  miniCompressIf : ℤ
  ioList : List ServiceIo
  queue : List ℕ

/-- The part of the manager that the codec uses. -/
def ServiceMgr.ioMgr (m : ServiceMgr) : EpIoMgr :=
  ⟨.server, m.defCapacity, m.maxCapacity, m.miniCompressIf, m.ioList.map ServiceIo.toEpIo⟩

def ServiceIo.sendIo (c : ServiceIo) : SendIo := ⟨c.io, c.fd, c.send⟩

/-- Whether a push selects a connection. -/
def ServiceIo.Notified (fd notifyType : ℤ) (c : ServiceIo) : Bool :=
  c.sendIo.Notified fd notifyType

def ServiceIo.push (frame : List UInt8) (c : ServiceIo) : ServiceIo :=
  { c with send := c.send ++ [frame] }

def ServiceMgr.epIoNodifyFd (m : ServiceMgr) (curfd notifyType : ℤ) (input : List UInt8) :
    ServiceMgr × ℕ :=
  let p := ServiceIo.Notified curfd notifyType
  ({ m with
      ioList := m.ioList.map fun c => if p c then c.push input else c
      queue := m.queue ++ (m.ioList.filter p).map ServiceIo.io },
    (m.ioList.filter p).length)

/-- `ep_req_param_t`. -/
structure ReqParam (Pack : Type) where
  category : BitVec 16
  type : BitVec 3
  cCrypt : BitVec 3
  cCompress : BitVec 3
  sCrypt : BitVec 3
  sCompress : BitVec 3
  pack : Option Pack

/-- The header that a message starts with. -/
def ReqParam.shell {Pack : Type} (param : ReqParam Pack) (type : BitVec 3) : EpShell :=
  ⟨epMagicNumber, ⟨param.category, type, param.cCrypt, param.cCompress, param.sCrypt,
    param.sCompress, 0⟩, 0, 0, 0⟩

section Push

variable (aes : AesCipher) (bz : Bz2) (mem : ℤ → UInt8) (fresh : ℕ → ℤ → UInt8)

/-- The part of a push behind the copy of the pack. -/
def pushBuffer (m : ServiceMgr) (fd notifyType : ℤ) (shell : EpShell) (input : Option EpBuffer) :
    ServiceMgr × ℕ :=
  match (epIoCombineShell aes bz fresh m.ioMgr fd shell input).2 with
  | none => (m, 0)
  | some (_, buffer) => m.epIoNodifyFd fd notifyType buffer.bytes

/-- The copy of the pack is allocated from `mem`; the type that the caller asks for is ignored. -/
def epServicePush (m : ServiceMgr) (fd notifyType : ℤ) (param : ReqParam EpPack) : ServiceMgr × ℕ :=
  match param.pack with
  | none => pushBuffer aes bz fresh m fd notifyType (param.shell reqTypePost) none
  | some pack =>
    match epBufferNew2 mem pack.bytes with
    | none => (m, 0)
    | some input => pushBuffer aes bz fresh m fd notifyType (param.shell reqTypePost) (some input)

end Push

/-! ## What the recipients get -/

section Recipients

variable (aes : AesCipher) (bz : Bz2)

/-- A client that holds the key recovers the pack from the frame, wherever the body lies in
its memory. A frame without a pack is a header alone. -/
def Reads (key : EpAesKey) (pack : Option EpPack) (frame : List UInt8) : Prop :=
  match pack with
  | none => (EpShell.ofBytes frame).toHost.shellSize = 0 ∧ frame.length = sizeofEpShell
  | some pack => ∀ client cfd received fresh, client.refor = .client →
      epIoGetAes client cfd = some key → received.Holds (frame.drop sizeofEpShell) →
      ∃ orig, (epIoRecombineOriginal aes bz fresh client cfd (EpShell.ofBytes frame).toHost
        received).2 = some orig ∧ orig.Holds pack.bytes

/-- From `m` to `m'` every selected client got one frame, one that it can read, and every
other client got nothing. -/
def PushReaches (m m' : ServiceMgr) (fd notifyType : ℤ) (pack : Option EpPack) : Prop :=
  List.Forall₂ (fun c c' : ServiceIo => c'.toEpIo = c.toEpIo ∧
    if c.Notified fd notifyType then
      ∃ frame, c'.send = c.send ++ [frame] ∧ Reads aes bz c.aes pack frame
    else c'.send = c.send) m.ioList m'.ioList

end Recipients

variable {aes : AesCipher} {bz : Bz2} {mem : ℤ → UInt8} {fresh : ℕ → ℤ → UInt8}
  {m : ServiceMgr} {fd notifyType : ℤ} {param : ReqParam EpPack}

/-- Without a post nothing reaches anyone. -/
theorem pushReaches_self_iff {pack : Option EpPack} :
    PushReaches aes bz m m fd notifyType pack ↔ ∀ c ∈ m.ioList, ¬ c.Notified fd notifyType := by
  unfold PushReaches
  rw [List.forall₂_same]
  refine forall₂_congr fun c _ => ?_
  split_ifs with hp <;> simp [hp]

/-- A post reaches those who can read what was posted. -/
theorem pushReaches_epIoNodifyFd_iff {pack : Option EpPack} {frame : List UInt8} :
    PushReaches aes bz m (m.epIoNodifyFd fd notifyType frame).1 fd notifyType pack ↔
      ∀ c ∈ m.ioList, c.Notified fd notifyType → Reads aes bz c.aes pack frame := by
  unfold PushReaches ServiceMgr.epIoNodifyFd
  rw [List.forall₂_map_right_iff, List.forall₂_same]
  refine forall₂_congr fun c _ => ?_
  by_cases hp : c.Notified fd notifyType <;> simp [hp, ServiceIo.push]

/-- Some client that holds a key, and some buffer that holds a byte string. -/
theorem exists_client (key : EpAesKey) :
    ∃ client cfd, client.refor = .client ∧ epIoGetAes client cfd = some key :=
  ⟨⟨.client, 4096, 4194304, 4096, [⟨epRbNew 4096 4194304, ⟨0, .ofWord 0, 0, 0, 0⟩, false, key,
    0⟩]⟩, 0, rfl, rfl⟩

theorem exists_holds (xs : List UInt8) : ∃ b : EpBuffer, b.Holds xs :=
  ⟨⟨copyIn (fun _ => 0) 0 xs, xs.length, xs.length⟩, rfl, cells_copyIn_self _ _ _⟩

/-- What was behind the copy of the pack is behind the body. -/
theorem legible_behindBody_iff {k k' : EpAesKey} {flag : BitVec 3} {xs : List UInt8}
    {capacity : ℤ} :
    Legible aes bz k k' flag (behindBody fresh flag ⟨copyIn mem 0 xs, capacity, xs.length⟩) xs ↔
      Legible aes bz k k' flag (if flag = compressTypeCompress then fresh 0 else mem) xs := by
  have hholds : EpBuffer.Holds ⟨copyIn mem 0 xs, capacity, xs.length⟩ xs :=
    ⟨rfl, cells_copyIn_self _ _ _⟩
  unfold behindBody
  split_ifs with hflag
  · rfl
  · have hpacked : packed bz flag xs = xs := if_neg hflag
    simp only [Legible, hpacked, hholds.copyIn_chunk]

/-- A frame that a server has built from the pack is read by whom it is legible to. -/
theorem reads_iff {ioMgr : EpIoMgr} (hrefor : ioMgr.refor = .server) {shell : EpShell}
    {pack : EpPack} {b : EpBuffer} (hb : b.Holds pack.bytes) {flag : BitVec 3}
    (hflag : ioMgr.frameFlag shell b.used = flag) {net : EpShell} {out : EpBuffer}
    (h : (epIoCombineShell aes bz fresh ioMgr fd shell (some b)).2 = some (net, out))
    (key : EpAesKey) :
    Reads aes bz key (some pack) out.bytes ↔ (shell.proto.sCrypt = cryptTypeEncrypt →
      ∃ k, epIoGetAes ioMgr fd = some k ∧
        Legible aes bz k key flag (behindBody fresh flag b) pack.bytes) := by
  have hpos : 0 < pack.bytes.length := by have := pack.five_le; omega
  have hcrypt : shell.proto.cryptOf ioMgr.refor = shell.proto.sCrypt := by rw [hrefor]; rfl
  constructor
  · intro hreads
    obtain ⟨client, cfd, hclient, hkey⟩ := exists_client key
    obtain ⟨received, hr⟩ := exists_holds (out.bytes.drop sizeofEpShell)
    have hiff := epIoRecombineOriginal_iff h hb hpos hflag hcrypt (by rw [hclient, hrefor]; rfl)
      hkey hr fresh
    exact hiff.mp (hreads client cfd received fresh hclient hkey hr)
  · intro hlegible client cfd received fresh' hclient hkey hr
    have hiff := epIoRecombineOriginal_iff h hb hpos hflag hcrypt (by rw [hclient, hrefor]; rfl)
      hkey hr fresh'
    exact hiff.mpr hlegible

section Condition

variable (aes : AesCipher) (bz : Bz2) (mem : ℤ → UInt8) (fresh : ℕ → ℤ → UInt8)

/-- No client is selected; or there is no pack; or the pack can be framed and, if the push is
encrypted, `fd` is a connection whose key and vector every selected client can undo with
its own. -/
def KeysFit (m : ServiceMgr) (fd notifyType : ℤ) (param : ReqParam EpPack) : Prop :=
  (∀ c ∈ m.ioList, ¬ c.Notified fd notifyType) ∨ ∀ pack, param.pack = some pack →
    let flag := resolveCompress m.miniCompressIf param.sCompress pack.bytes.length
    (pack.bytes.length : ℤ) ≤ 2 ^ 31 - 16 ∧ Framable bz flag param.sCrypt pack.bytes ∧
      (param.sCrypt = cryptTypeEncrypt → ∃ k, epIoGetAes m.ioMgr fd = some k ∧
        ∀ c ∈ m.ioList, c.Notified fd notifyType →
          Legible aes bz k c.aes flag (if flag = compressTypeCompress then fresh 0 else mem)
            pack.bytes)

end Condition

/-- A push without a pack is a header that everyone can read. -/
theorem pushReaches_none :
    PushReaches aes bz m (pushBuffer aes bz fresh m fd notifyType (param.shell reqTypePost) none).1
      fd notifyType none := by
  unfold pushBuffer
  have hsome : (epIoCombineShell aes bz fresh m.ioMgr fd (param.shell reqTypePost) none).2.isSome :=
    (combineFrame_isSome_iff _ _ 0).mpr (by norm_num)
  obtain ⟨⟨net, out⟩, hcombine⟩ := Option.isSome_iff_exists.mp hsome
  obtain ⟨hnet, hout⟩ := epIoCombineShell_none_spec hcombine
  rw [hcombine, pushReaches_epIoNodifyFd_iff]
  intro c _ _
  refine ⟨?_, ?_⟩
  · rw [hout.bytes_eq, EpShell.ofBytes_bytes, hnet, EpShell.toHost_toNetwork]
  · rw [hout.bytes_eq, EpShell.length_bytes]

theorem epServicePush_reaches_iff (aes : AesCipher) (bz : Bz2) (mem : ℤ → UInt8)
    (fresh : ℕ → ℤ → UInt8) (m : ServiceMgr) (fd notifyType : ℤ) (param : ReqParam EpPack) :
    PushReaches aes bz m (epServicePush aes bz mem fresh m fd notifyType param).1 fd notifyType
      param.pack ↔ KeysFit aes bz mem fresh m fd notifyType param := by
  unfold epServicePush KeysFit
  cases hpack : param.pack with
  | none =>
    simp only [reduceCtorEq, false_imp_iff, implies_true, or_true, iff_true]
    exact pushReaches_none
  | some pack =>
    simp only [Option.some.injEq, forall_eq', epBufferNew2_eq]
    by_cases hnew : (pack.bytes.length : ℤ) ≤ 2 ^ 31 - 16
    · simp only [hnew, if_true, true_and]
      generalize hb : EpBuffer.mk (copyIn mem 0 pack.bytes) _ _ = b
      have hholds : b.Holds pack.bytes := by
        rw [← hb]
        exact ⟨rfl, cells_copyIn_self _ _ _⟩
      have hflag : m.ioMgr.frameFlag (param.shell reqTypePost) b.used =
          resolveCompress m.miniCompressIf param.sCompress pack.bytes.length := by
        rw [hholds.used_eq]; rfl
      have hsome := epIoCombineShell_isSome_iff aes bz fresh fd hholds hflag rfl
      unfold pushBuffer
      cases hcombine : (epIoCombineShell aes bz fresh m.ioMgr fd (param.shell reqTypePost)
        (some b)).2 with
      | none =>
        -- nothing is posted, so nobody may be selected
        rw [hcombine] at hsome
        simp only [Option.isSome_none, Bool.false_eq_true, false_iff] at hsome
        refine pushReaches_self_iff.trans ⟨.inl, ?_⟩
        rintro (hnobody | ⟨hframable, hkeys⟩)
        · exact hnobody
        · refine absurd ⟨hframable, fun hcrypt => ?_⟩ hsome
          obtain ⟨k, hk, -⟩ := hkeys hcrypt
          rw [hk]; rfl
      | some r =>
        obtain ⟨net, out⟩ := r
        rw [hcombine] at hsome
        obtain ⟨hframable, hkey⟩ := hsome.mp rfl
        have hreads := reads_iff rfl hholds hflag hcombine
        simp only [← hb, legible_behindBody_iff] at hreads
        refine pushReaches_epIoNodifyFd_iff.trans ⟨fun h => .inr ⟨hframable, fun hcrypt => ?_⟩, ?_⟩
        · obtain ⟨k, hk⟩ := Option.isSome_iff_exists.mp (hkey hcrypt)
          refine ⟨k, hk, fun c hc hp => ?_⟩
          obtain ⟨k', hk', hlegible⟩ := (hreads c.aes).mp (h c hc hp) hcrypt
          rwa [Option.some.inj (hk.symm.trans hk')]
        · rintro (hnobody | ⟨-, hkeys⟩) c hc hp
          · exact absurd hp (hnobody c hc)
          · refine (hreads c.aes).mpr fun hcrypt => ?_
            obtain ⟨k, hk, hlegible⟩ := hkeys hcrypt
            exact ⟨k, hk, hlegible c hc hp⟩
    · simp only [hnew, if_false, false_and, or_false]
      exact pushReaches_self_iff

/-- A push reaches its recipients exactly if their keys fit; the same key and vector always
do. -/
theorem epServicePush_reaches (aes : AesCipher) (bz : Bz2) (mem : ℤ → UInt8)
    (fresh : ℕ → ℤ → UInt8) (m : ServiceMgr) (fd notifyType : ℤ) (param : ReqParam EpPack) :
    (PushReaches aes bz m (epServicePush aes bz mem fresh m fd notifyType param).1 fd notifyType
      param.pack ↔ KeysFit aes bz mem fresh m fd notifyType param) ∧
    ∀ k flag behind xs, Legible aes bz k k flag behind xs :=
  ⟨epServicePush_reaches_iff aes bz mem fresh m fd notifyType param, legible_self⟩

/-! ## Two clients

The clients 5 and 6 have the keys `00 01 … 0f` and `0f 0e … 00` and the vector zero. An empty
packet, followed by zeros in memory, makes one block. The three blocks are what AES makes of
it: under the first key `05 00 … 00` has the ciphertext `78 9d … 0e`, and under the second
this is the ciphertext of `f5 23 … 82`. -/

def emptyPlain : List UInt8 := [5, 0, 0, 0, 0, 0, 0, 0, 0, 0, 0, 0, 0, 0, 0, 0]

def emptyCipher : List UInt8 :=
  [0x78, 0x9d, 0xc7, 0x6c, 0xcb, 0x52, 0xce, 0x1c, 0x3d, 0xb9, 0x0e, 0xcb, 0x35, 0x7a, 0xf6, 0x0e]

def otherPlain : List UInt8 :=
  [0xf5, 0x23, 0x8f, 0xa6, 0xfe, 0xc4, 0x4c, 0x33, 0x5b, 0x2d, 0x97, 0xe6, 0xb4, 0x8a, 0xc1, 0x82]

/-- A cipher that is given by one permutation of the blocks for each key. -/
def AesCipher.ofPerm (perm : Block → Equiv.Perm Block) : AesCipher where
  encrypt := fun key => perm key
  decrypt := fun key => (perm key).symm
  decrypt_encrypt := fun key b => (perm key).symm_apply_apply b

def risingKey : EpAesKey := ⟨fun i => UInt8.ofNat i, fun _ => 0⟩

def fallingKey : EpAesKey := ⟨fun i => UInt8.ofNat (15 - i), fun _ => 0⟩

def twoKeyAes : AesCipher := .ofPerm fun key =>
  if key = risingKey.key then Equiv.swap (blockOf emptyPlain) (blockOf emptyCipher)
  else Equiv.swap (blockOf otherPlain) (blockOf emptyCipher)

def twoClients : ServiceMgr where
  defCapacity := 4096
  maxCapacity := 4194304
  miniCompressIf := 1024
  ioList := [⟨⟨epRbNew 4096 4194304, ⟨0, .ofWord 0, 0, 0, 0⟩, false, risingKey, 5⟩, 1, []⟩,
    ⟨⟨epRbNew 4096 4194304, ⟨0, .ofWord 0, 0, 0, 0⟩, false, fallingKey, 6⟩, 2, []⟩]
  queue := []

def emptyPush : ReqParam EpPack :=
  ⟨7, reqTypePost, cryptTypeNone, compressTypeNone, cryptTypeEncrypt, compressTypeAuto,
    some ⟨[5, 0, 0, 0, 0], by decide, by decide⟩⟩

/-- The push to all is ciphered with the key of client 5, and client 6 cannot read it. -/
theorem epServicePush_two_keys :
    ¬ PushReaches twoKeyAes storedBz2 twoClients
      (epServicePush twoKeyAes storedBz2 (fun _ => 0) (fun _ _ => 0) twoClients 5 0 emptyPush).1 5 0
      emptyPush.pack := by
  rw [epServicePush_reaches_iff]
  rintro (hnobody | hkeys)
  · exact hnobody _ (List.mem_cons_self ..) rfl
  · obtain ⟨-, -, hcrypt⟩ := hkeys _ rfl
    obtain ⟨k, hk, hlegible⟩ := hcrypt rfl
    obtain rfl : risingKey = k := Option.some.inj hk
    have hsix := hlegible _ (List.mem_cons_of_mem _ (List.mem_cons_self ..)) rfl
    revert hsix
    decide

end Youmenu.Eventpack
