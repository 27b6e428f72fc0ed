import Youmenu.Eventpack.Interference
import Youmenu.Eventpack.Packet
import Youmenu.Eventpack.Push
import Youmenu.Eventpack.Request

/-!
# Agreeing on a key: `ep_cert.c` and `ep_cert_verify.c`

A client draws a key, installs it for its own connection and sends it to the server under the
public key of the server. The request travels in plain text and asks for an encrypted reply,
so the reply is ciphered with what the server has for the connection by then.

The hash function and the public key operations are parameters. The allocations of a call
are numbered in the order of the source; `heap i` is what allocation `i` held before.

## Main definitions

* `epCertGenVec`, `epCertGenClientKey`, `epCertVerifyClientKey` — the keys.
* `epIoProcessor` — what a worker does with a frame, for any dispatch table.
* `epCertServerSecurity` — the handler of the server.
* `EpClient`, `epCertClientHello`, `epCertClientResult` — `ep_cert_client_security` before and
  after it waits.
* `handshake` — the whole exchange.
-/

namespace Youmenu.Eventpack

open Bytes Circular

/-! ## Keys -/

section Keys

variable (md5 : List UInt8 → Block)

def epCertGenVec (key : Block) : Block :=
  let bytes := List.ofFn key
  let magic := (bytes.getD 1 0).toNat <<< 8 ||| (bytes.getD 15 0).toNat
  md5 (leBytes 2 magic ++ (bytes.take 1 ++ (bytes.drop 2).take 13))

/-- `random` is what `ep_cert_random` filled in. -/
def epCertGenClientKey (random : Block) : EpAesKey :=
  let key : Block := fun i => if i.val = 0 then 0 else random i
  ⟨key, epCertGenVec md5 key⟩

def epCertVerifyClientKey (aes : EpAesKey) : Bool :=
  if (List.ofFn aes.key).getD 0 0 ≠ 0 then false else epCertGenVec md5 aes.key = aes.vec

end Keys

/-- The operations of the crypto library with the two keys of the source. An encryption is
padded with random bytes. -/
structure Rsa where
  publicEncrypt : List UInt8 → List UInt8 → Option (List UInt8)
  privateDecrypt : List UInt8 → Option (List UInt8)
  publicEncrypt_spec : ∀ pad xs, xs.length ≤ 117 →
    ∃ c, publicEncrypt pad xs = some c ∧ c.length = 128 ∧ privateDecrypt c = some xs

def epCertClientEncrypt (rsa : Rsa) (mem : ℤ → UInt8) (pad buffer : List UInt8) :
    Option EpBuffer :=
  match rsa.publicEncrypt pad buffer with
  | none => none
  | some ptr => epBufferNew mem (fun a => ptr.getD a.toNat 0) ptr.length

def epCertServerDecrypt (rsa : Rsa) (mem : ℤ → UInt8) (buffer : List UInt8) : Option EpBuffer :=
  match rsa.privateDecrypt buffer with
  | none => none
  | some ptr => epBufferNew mem (fun a => ptr.getD a.toNat 0) ptr.length

/-! ## Packets -/

/-- `"key"` -/
def keyKey : CString := ⟨[0x6B, 0x65, 0x79], by simp⟩

/-- `"vec"` -/
def vecKey : CString := ⟨[0x76, 0x65, 0x63], by simp⟩

/-- `"security"` -/
def securityKey : CString := ⟨[0x73, 0x65, 0x63, 0x75, 0x72, 0x69, 0x74, 0x79], by simp⟩

/-- `"result"` -/
def resultKey : CString := ⟨[0x72, 0x65, 0x73, 0x75, 0x6C, 0x74], by simp⟩

/-- `EP_CATEGORY_INTERNAL_KEY` -/
def categoryInternalKey : Category := 0xFFFF

/-- `ep_pack_new` and the calls; `mem` is the area of the packet. -/
def packOf (mem : ℤ → UInt8) (ops : List PackOp) : Bson := packAppend (bsonInit (cells mem 0 4)) ops

/-- `ep_pack_create` on a buffer. It copies as many bytes as the first four say; `none` is the
exit of the process. -/
def EpBuffer.createPack (b : EpBuffer) : Option (Option Bson) :=
  let size := (BitVec.ofNat 32 (word 4 (cells b.chunk 0 4))).toInt
  epPackCreate (cells b.chunk 0 (max 4 size.toNat)) b.used

/-- `ep_pack_iterator_int`; `ofDouble` is the conversion of a `double`. -/
def bsonIteratorInt (ofDouble : BitVec 64 → ℤ) (i : BsonIterator) : ℤ :=
  let t := bsonIteratorType i
  if t = bsonInt then (bsonIteratorIntRaw i).toInt
  else if t = bsonLong then ((bsonIteratorLongRaw i).setWidth 32).toInt
  else if t = bsonDouble then ofDouble (bsonIteratorDoubleRaw i)
  else 0

/-! ## What a worker does with a frame -/

section Processor

variable (aes : AesCipher) (bz : Bz2) (heap : ℕ → ℤ → UInt8)

/-- What a task comes to: the exit of the process, nothing, or its packet if it has one. -/
inductive TaskPack where
  | exits
  | givenUp
  | pack (p : Option Bson)

def taskPack (ioMgr : EpIoMgr) (task : EpIoTask) : TaskPack :=
  match task.input with
  | none => if task.shell.shellSize = 0 then .pack none else .givenUp
  | some input =>
    match (epIoRecombineOriginal aes bz heap ioMgr task.fd task.shell input).2 with
    | none => .givenUp
    | some orig =>
      match orig.createPack with
      | none => .exits
      | some none => .givenUp
      | some (some pack) => .pack (some pack)

/-- The reply: a frame for the connection, if it is still there. -/
def taskReply (ioMgr : EpIoMgr) (task : EpIoTask) (ret : Bson) : Option (List UInt8) := do
  let input ← if epPackSize ret = 0 then none else epBufferNew2 (heap 2) ret.data
  let shell := { task.shell with proto := { task.shell.proto with type := reqTypePost } }
  let body ← (epIoCombineShell aes bz (fun i => heap (i + 3)) ioMgr task.fd shell (some input)).2
  let _ ← epIoFind ioMgr task.fd
  some body.2.bytes

variable {σ : Type} (mgr : σ → EpIoMgr)
  (disp : σ → Category → ℤ → Option Bson → Option (σ × Option Bson))

/-- `disp` is the dispatch table with its callbacks, over a state in which the table of the
connections is `mgr`. Returns the frame that is queued; `none` is the exit of the process. -/
def epIoProcessor (s : σ) (task : EpIoTask) : Option (σ × Option (List UInt8)) :=
  match taskPack aes bz heap (mgr s) task with
  | .exits => none
  | .givenUp => some (s, none)
  | .pack pack =>
    match disp s ⟨task.shell.proto.category⟩ task.fd pack with
    | none => none
    | some (s, none) => some (s, none)
    | some (s, some ret) =>
      match bsonFinish ret with
      | none => none
      | some (ret, _) =>
        some (s, if task.shell.proto.type = reqTypePost then none
          else taskReply aes bz heap (mgr s) task ret)

end Processor

/-! ## The server -/

section Server

variable (md5 : List UInt8 → Block) (rsa : Rsa) (heap : ℕ → ℤ → UInt8)

/-- The loop over the request. -/
def epCertServerRsaGetDecryptBuffer : ℕ → BsonIterator → Option (Option EpBuffer)
  | 0, _ => none
  | fuel + 1, i =>
    match epPackIteratorNext i with
    | none => none
    | some (_, false) => some none
    | some (i, true) =>
      if bsonIteratorKey i = securityKey then
        if bsonIteratorBinLen i ≠ 128 then some none
        else some (epCertServerDecrypt rsa (heap 0) ((bsonIteratorBinData i).take 128))
      else epCertServerRsaGetDecryptBuffer fuel i

/-- Sixteen bytes from a pointer, whatever the length of the element; `past` is what lies
behind the packet. -/
def blockAt (past : ℤ → UInt8) (p : List UInt8) : Block := fun i => p.getD i (past i)

/-- The loop over the decrypted packet. -/
def securityKeys : ℕ → BsonIterator → EpAesKey → Option EpAesKey
  | 0, _, _ => none
  | fuel + 1, i, aes =>
    match epPackIteratorNext i with
    | none => none
    | some (_, false) => some aes
    | some (i, true) =>
      let bin := blockAt (heap 1) (bsonIteratorBinData i)
      if bsonIteratorKey i = keyKey then securityKeys fuel i { aes with key := bin }
      else if bsonIteratorKey i = vecKey then securityKeys fuel i { aes with vec := bin }
      else securityKeys fuel i aes

/-- The key of a request that passes every check; `some none` is a refusal, `none` the exit of
the process. -/
def verifiedKey (pack : Bson) : Option (Option EpAesKey) := do
  let buffer ← epCertServerRsaGetDecryptBuffer rsa heap (pack.data.length + 1)
    (epPackIteratorGet pack)
  let inner ← match buffer with
    | none => some none
    | some buffer => buffer.createPack
  match inner with
  | none => some none
  | some inner =>
    let key ← securityKeys heap (inner.data.length + 1) (epPackIteratorGet inner)
      ⟨fun _ => 0, fun _ => 0⟩
    some (if epCertVerifyClientKey md5 key then some key else none)

/-- A request without a packet is a null pointer. -/
def epCertServerSecurity (ioMgr : EpIoMgr) (fd : ℤ) (pack : Option Bson) :
    Option (EpIoMgr × Option Bson) := do
  let result (v : ℤ) : Option Bson := some (packOf (heap 2) [.int resultKey (.ofInt 32 v)])
  let key ← verifiedKey md5 rsa heap (← pack)
  match key with
  | none => some (ioMgr, result (-1))
  | some key =>
    let r := epIoUpdateAes ioMgr fd key
    some (r.1, result (if r.2 = 0 then -1 else 1))

/-- The dispatch table of the service; `others` stands for the callbacks of the application,
which cannot have the category. -/
def serviceDisp (others : EpIoMgr → Category → ℤ → Option Bson → Option (EpIoMgr × Option Bson))
    (ioMgr : EpIoMgr) (category : Category) (fd : ℤ) (pack : Option Bson) :
    Option (EpIoMgr × Option Bson) :=
  if category = categoryInternalKey then epCertServerSecurity md5 rsa heap ioMgr fd pack
  else others ioMgr category fd pack

end Server

/-! ## The client -/

/-- What a client uses of its `ep_client_t`, with the requests it has under way. -/
structure EpClient where
  ioMgr : EpIoMgr
  fd : ℤ
  ioMaxCapacity : ℤ
  dispList : List EpDisp
  handles : List (EpReq (Option Bson))
  fresh : ℕ

/-- A client that `ep_client_start` has connected: empty tables and one new connection. -/
def EpClient.start (defCapacity maxCapacity miniCompressIf fd : ℤ) : EpClient where
  ioMgr := epIoAdd ⟨.client, defCapacity, maxCapacity, miniCompressIf, []⟩ fd
  fd := fd
  ioMaxCapacity := max maxCapacity defCapacity
  dispList := []
  handles := []
  fresh := 0

/-- `ep_disp_processor` on the client: every callback is that of a request. -/
def clientDisp (client : EpClient) (category : Category) (_fd : ℤ) (pack : Option Bson) :
    Option (EpClient × Option Bson) :=
  match client.dispList.find? (·.category = category) with
  | some d =>
    some ({ client with handles := epReqDefaultDispatcher client.handles d.handle pack }, none)
  | none => some (client, none)

section Client

variable (aes : AesCipher) (bz : Bz2) (heap : ℕ → ℤ → UInt8)

/-- The frame of a request, or `none` where `ep_req_new` gives up after it has registered. -/
def requestFrame (client : EpClient) (param : ReqParam Bson) (pack : Option Bson) :
    Option (List UInt8) := do
  let input ← match pack with
    | none => some none
    | some pack => (epBufferNew2 (heap 0) pack.data).map some
  let shellbuf ← (epIoCombineShell aes bz (fun i => heap (i + 1)) client.ioMgr client.fd
    (param.shell param.type) input).2
  let _ ← epIoFind client.ioMgr client.fd
  some shellbuf.2.bytes

/-- The handle and the frame that is queued for it. A request that fails after it has been
registered frees its handle and leaves its callback in the table. -/
def EpClient.epReqNew (client : EpClient) (param : ReqParam Bson) :
    Option (EpClient × Option (ℕ × List UInt8)) :=
  if client.fd = -1 then some (client, none)
  else do
    let pack ← match param.pack with
      | none => some none
      | some pack => (bsonFinish pack).map fun r => some r.1
    if (pack.map epPackSize).getD 0 > client.ioMaxCapacity then some (client, none)
    else
      match epDispAddCb client.dispList ⟨param.category⟩ client.fresh with
      | none => some (client, none)
      | some dispList =>
        let client' := { client with dispList := dispList, fresh := client.fresh + 1 }
        match requestFrame aes bz heap client param pack with
        | none => some (client', none)
        | some frame =>
          some ({ client' with
            handles := ⟨client.fresh, ⟨param.category⟩, .get, []⟩ :: client.handles },
            some (client.fresh, frame))

variable (md5 : List UInt8 → Block) (rsa : Rsa)

/-- The parameters of the request. -/
def securityParam (pack : Bson) : ReqParam Bson where
  category := categoryInternalKey.toBitVec
  type := reqTypeGet
  cCrypt := cryptTypeNone
  cCompress := compressTypeAuto
  sCrypt := cryptTypeEncrypt
  sCompress := compressTypeAuto
  pack := some pack

/-- `ep_cert_client_security` up to the wait: the value it returns, or the handle it waits on
and the frame that is on its way. -/
def epCertClientHello (client : EpClient) (random : Block) (pad : List UInt8) :
    Option (EpClient × Except ℤ (ℕ × List UInt8)) :=
  let key := epCertGenClientKey md5 random
  let r := epIoUpdateAes client.ioMgr client.fd key
  let client := { client with ioMgr := r.1 }
  if r.2 ≠ 1 then some (client, .error (-1))
  else do
    let tmpPack ← epPackFinish (cells (heap 0) 0 4)
      [.binary keyKey (List.ofFn key.key), .binary vecKey (List.ofFn key.vec)]
    match epCertClientEncrypt rsa (heap 1) pad (tmpPack.data.take (epPackSize tmpPack).toNat) with
    | none => some (client, .error (-1))
    | some tmpBuffer =>
      let pack := packOf (heap 2) [.binary securityKey tmpBuffer.bytes]
      let (client, request) ← client.epReqNew aes bz (fun i => heap (i + 3)) (securityParam pack)
      match request with
      | none => some (client, .error 0)
      | some request => some (client, .ok request)

/-- The loop over the response. -/
def securityResult (ofDouble : BitVec 64 → ℤ) : ℕ → BsonIterator → Option ℤ
  | 0, _ => none
  | fuel + 1, i =>
    match epPackIteratorNext i with
    | none => none
    | some (_, false) => some (-1)
    | some (i, true) =>
      if bsonIteratorKey i = resultKey then some (bsonIteratorInt ofDouble i)
      else securityResult ofDouble fuel i

/-- `ep_cert_client_security` from the wait on. Nothing in the queue is a wait that timed out. -/
def epCertClientResult (ofDouble : BitVec 64 → ℤ) (client : EpClient) (handle : ℕ) : Option ℤ :=
  match client.handles.find? (·.id = handle) with
  | none => none
  | some h =>
    match epReqWait h with
    | (1, some (some pack), _) =>
      securityResult ofDouble (pack.data.length + 1) (epPackIteratorGet pack)
    | (0, _, _) => some 0
    | _ => none

end Client

/-! ## The exchange -/

/-- The contents of the memory that the two parties allocate. -/
structure Heaps where
  hello : ℕ → ℤ → UInt8
  serverRead : ℕ → ℕ → ℕ → ℤ → UInt8
  serverWork : ℕ → ℤ → UInt8
  handler : ℕ → ℤ → UInt8
  clientRead : ℕ → ℕ → ℕ → ℤ → UInt8
  clientWork : ℕ → ℤ → UInt8

/-- What is given: the libraries, the other callbacks of the service, and how the two byte
streams are cut into pieces. -/
structure Setting where
  aes : AesCipher
  bz : Bz2
  md5 : List UInt8 → Block
  rsa : Rsa
  ofDouble : BitVec 64 → ℤ
  others : EpIoMgr → Category → ℤ → Option Bson → Option (EpIoMgr × Option Bson)
  cut : List UInt8 → List (List UInt8)
  cut' : List UInt8 → List (List UInt8)
  fuel : ℕ
  heaps : Heaps

/-- The workers take the tasks one after the other; the frames that they queue. -/
def processAll {σ : Type} (proc : σ → EpIoTask → Option (σ × Option (List UInt8))) :
    σ → List EpIoTask → Option (σ × List (List UInt8))
  | s, [] => some (s, [])
  | s, task :: tasks => do
    let (s, reply) ← proc s task
    let (s, replies) ← processAll proc s tasks
    some (s, reply.toList ++ replies)

/-- From the bytes of a request on the wire to the frames that are queued for it. -/
def Setting.serve (g : Setting) (server : EpIoMgr) (sfd : ℤ) (bytes : List UInt8) :
    Option (EpIoMgr × List (List UInt8)) := do
  let (server, _, tasks) ← enqueueAll g.fuel sfd g.heaps.serverRead server (g.cut bytes)
  processAll (epIoProcessor g.aes g.bz g.heaps.serverWork id
    (serviceDisp g.md5 g.rsa g.heaps.handler g.others)) server tasks

/-- From the bytes of a response on the wire to the handle that waits for it. -/
def Setting.receive (g : Setting) (client : EpClient) (bytes : List UInt8) : Option EpClient := do
  let (ioMgr, _, tasks) ←
    enqueueAll g.fuel client.fd g.heaps.clientRead client.ioMgr (g.cut' bytes)
  let (client, _) ← processAll (epIoProcessor g.aes g.bz g.heaps.clientWork EpClient.ioMgr
    clientDisp) { client with ioMgr := ioMgr } tasks
  some client

/-- The value that `ep_cert_client_security` returns, and both parties afterwards. -/
def Setting.handshake (g : Setting) (server : EpIoMgr) (sfd : ℤ) (client : EpClient)
    (random : Block) (pad : List UInt8) : Option (ℤ × EpIoMgr × EpClient) := do
  let (client, hello) ←
    epCertClientHello g.aes g.bz g.heaps.hello g.md5 g.rsa client random pad
  match hello with
  | .error code => some (code, server, client)
  | .ok (handle, frame) =>
    let (server, replies) ← g.serve server sfd frame
    let client ← g.receive client replies.flatten
    let code ← epCertClientResult g.ofDouble client handle
    some (code, server, client)

end Youmenu.Eventpack
