import Youmenu.Eventpack.Cert

/-!
# Both parties have the same key after a handshake

Every key that a client can draw passes the verification of the server. The request is in
plain text, so what the server still has for the connection does not matter for it; the reply
is ciphered with the key that the handler has just installed, and that is the one the client
has had all along.

## Main definitions

* `Finished` — a packet that was built as the calls say.
* `Waiting` — a client that has sent its request.
* `Answer` — the frame that the server makes of the result.

## Main statements

* `epCertVerifyClientKey_gen` — honest keys are accepted.
* `serve_eq`, `receive_eq` — the two halves of the exchange.
* `handshake_agrees` — the handshake succeeds, and the keys are equal.
-/

namespace Youmenu.Eventpack

open Bytes Circular

theorem epCertVerifyClientKey_gen (md5 : List UInt8 → Block) (random : Block) :
    epCertVerifyClientKey md5 (epCertGenClientKey md5 random) = true := by
  simp [epCertVerifyClientKey, epCertGenClientKey]

/-! ## Receiving a frame -/

theorem enqueueLoop_kept {maxCapacity : ℤ} {fuel : ℕ} {fresh : ℕ → ℕ → ℤ → UInt8} {io io' : EpIo}
    {code : ℤ} {log : EnqueueLog}
    (h : enqueueLoop maxCapacity fuel fresh io = some (io', code, log)) : io.Kept io' := by
  induction fuel generalizing fresh io log with
  | zero => cases h
  | succ fuel ih =>
    have hkept := enqueueRound_kept maxCapacity (fresh 0) io
    rw [enqueueLoop] at h
    split at h
    · next child' code' reads hround =>
      rw [hround] at hkept
      cases h
      exact hkept
    · next child' reads task hround =>
      rw [hround] at hkept
      obtain ⟨⟨io₁, code₁, log₁⟩, hloop, heq⟩ := Option.map_eq_some_iff.mp h
      cases heq
      exact hkept.trans (ih hloop)

/-- What a manager keeps while bytes come in: its role, its settings and the keys. -/
structure SameKeys (fd : ℤ) (ioMgr ioMgr' : EpIoMgr) : Prop where
  aes : epIoGetAes ioMgr' fd = epIoGetAes ioMgr fd
  refor : ioMgr'.refor = ioMgr.refor
  miniCompressIf : ioMgr'.miniCompressIf = ioMgr.miniCompressIf

theorem epIoGetAes_replaceIo {ioMgr : EpIoMgr} {fd : ℤ} {child : EpIo}
    (hfind : epIoFind ioMgr fd = some child) (io : EpIo) (hfd : io.fd = fd) :
    epIoGetAes { ioMgr with ioList := replaceIo io ioMgr.ioList } fd = some io.aes := by
  rw [epIoGetAes, epIoFind, find_replaceIo hfind hfd]
  rfl

theorem epIoEnqueue_sameKeys {fuel : ℕ} {fresh : ℕ → ℕ → ℤ → UInt8} {ioMgr ioMgr' : EpIoMgr}
    {fd code : ℤ} {inbuf : List UInt8} {log : EnqueueLog}
    (h : epIoEnqueue fuel fresh ioMgr fd inbuf = some (ioMgr', code, log)) :
    SameKeys fd ioMgr ioMgr' := by
  unfold epIoEnqueue at h
  cases hfind : epIoFind ioMgr fd with
  | none =>
    rw [hfind] at h
    cases h
    exact ⟨rfl, rfl, rfl⟩
  | some child =>
    have hfd := epIoFind_fd hfind
    have hold : epIoGetAes ioMgr fd = some child.aes := by rw [epIoGetAes, hfind]; rfl
    simp only [hfind] at h
    cases hwrite : epRbTryWrite (fresh 0 0) child.recv inbuf inbuf.length with
    | none => simp [hwrite] at h
    | some w =>
      simp only [hwrite] at h
      split_ifs at h
      · cases h
        have hnew := epIoGetAes_replaceIo hfind { child with recv := w.1 } hfd
        exact ⟨hnew.trans hold.symm, rfl, rfl⟩
      · obtain ⟨⟨io', code', log'⟩, hloop, heq⟩ := Option.map_eq_some_iff.mp h
        cases heq
        have hkept := enqueueLoop_kept hloop
        have hnew := epIoGetAes_replaceIo hfind io' (hkept.fd.trans hfd)
        rw [hkept.aes] at hnew
        exact ⟨hnew.trans hold.symm, rfl, rfl⟩

theorem enqueueAll_sameKeys {fuel : ℕ} {fd : ℤ} {chunks : List (List UInt8)}
    {fresh : ℕ → ℕ → ℕ → ℤ → UInt8} {ioMgr ioMgr' : EpIoMgr} {codes : List ℤ}
    {tasks : List EpIoTask}
    (h : enqueueAll fuel fd fresh ioMgr chunks = some (ioMgr', codes, tasks)) :
    SameKeys fd ioMgr ioMgr' := by
  induction chunks generalizing fresh ioMgr codes tasks with
  | nil =>
    cases h
    exact ⟨rfl, rfl, rfl⟩
  | cons c cs ih =>
    obtain ⟨⟨ioMgr₁, code, log⟩, hcall, h⟩ := Option.bind_eq_some_iff.mp h
    obtain ⟨⟨ioMgr₂, codes₂, tasks₂⟩, hall, h⟩ := Option.bind_eq_some_iff.mp h
    cases h
    have hfirst := epIoEnqueue_sameKeys hcall
    have hrest := ih hall
    exact ⟨hrest.aes.trans hfirst.aes, hrest.refor.trans hfirst.refor,
      hrest.miniCompressIf.trans hfirst.miniCompressIf⟩

/-- One frame on a quiet connection becomes one task. -/
theorem enqueueAll_frame {aes : AesCipher} {bz : Bz2} {ioMgr : EpIoMgr} {fd : ℤ} {v : IoView}
    (hview : HasView ioMgr fd v) (hraw : v.raw = []) {f : List UInt8}
    (hf : BuiltFrame aes bz ioMgr.maxCapacity f) {chunks : List (List UInt8)}
    (hcut : chunks.flatten = f) (hmax : (f.length : ℤ) ≤ ioMgr.maxCapacity)
    (hint : v.WithinInt ioMgr.maxCapacity chunks) {fuel : ℕ}
    (hfuel : f.length < fuel) (fresh : ℕ → ℕ → ℕ → ℤ → UInt8) :
    ∃ ioMgr' codes task, enqueueAll fuel fd fresh ioMgr chunks = some (ioMgr', codes, [task]) ∧
      task.Carries fd f ∧ SameKeys fd ioMgr ioMgr' := by
  have hpos : f ≠ [] := by
    obtain ⟨hdr, wire, rfl, -⟩ := hf.exists_header
    intro hnil
    have := congrArg List.length hnil
    simp [sizeofEpShell] at this
  have hlen : ∀ c ∈ chunks, (c.length : ℤ) ≤ ioMgr.maxCapacity := by
    intro c hc
    have hle : c.length ≤ chunks.flatten.length := (List.sublist_flatten_of_mem hc).length_le
    rw [hcut] at hle
    omega
  obtain ⟨ioMgr', codes, tasks, hall, -, -, htasks⟩ := enqueueAll_reassembles (F := [f]) hview
    hraw (by simpa using hf) hf List.nil_prefix hpos.symm hlen (by simpa using hcut) hint
    (by rwa [hcut]) fresh
  obtain ⟨task, hcarries, rfl⟩ : ∃ task, task.Carries fd f ∧ tasks = [task] := by
    cases htasks with
    | cons hcarries hnil =>
      cases hnil
      exact ⟨_, hcarries, rfl⟩
  exact ⟨ioMgr', codes, task, hall, hcarries, enqueueAll_sameKeys hall⟩

/-! ## Packets -/

/-- `data` is the finished document of the calls, with the elements `bs`. -/
structure Finished (ops : List PackOp) (bs data : List UInt8) : Prop where
  doc : Doc ops bs
  length : bs.length + 5 = packTotal ops
  lt : packTotal ops < int32Max
  data_eq : data = leBytes 4 (bs.length + 5) ++ (bs ++ [0])

section Packets

variable {ops : List PackOp} {bs data : List UInt8}

theorem Finished.length_data (h : Finished ops bs data) : data.length = packTotal ops := by
  rw [h.data_eq, ← h.length]
  simp
  omega

theorem Finished.length_pos (h : Finished ops bs data) : 0 < data.length := by
  rw [h.length_data, ← h.length]
  omega

theorem Finished.size_eq (h : Finished ops bs data) :
    (BitVec.ofNat 32 (word 4 data)).toInt = data.length := by
  have hlt := h.lt
  unfold int32Max at hlt
  rw [h.length_data, h.data_eq, h.length, word_leBytes_append (by omega),
    BitVec.toInt_eq_toNat_of_lt (by simp; omega)]
  simp
  omega

/-- The packet with its invariant. -/
def Finished.pack (h : Finished ops bs data) : EpPack :=
  ⟨data, by rw [h.length_data, ← h.length]; omega, h.size_eq⟩

/-- The buffer that it is copied into. -/
theorem Finished.epBufferNew2 (h : Finished ops bs data) (hfit : (data.length : ℤ) ≤ 2 ^ 31 - 16)
    (mem : ℤ → UInt8) :
    epBufferNew2 mem data = some ⟨copyIn mem 0 data, epAlignSize data.length, data.length⟩ :=
  (epBufferNew2_eq mem h.pack).trans (if_pos hfit)

/-- Calls that fit make a finished document. -/
theorem packOf_finished (hn : WellNested ops) (hkeys : ∀ op ∈ ops, op.KeyOk)
    (hvalues : ∀ op ∈ ops, op.ValueOk) (hfits : Fits ops) (mem : ℤ → UInt8) :
    ∃ b ok bs, bsonFinish (packOf mem ops) = some (b, ok) ∧ Finished ops bs b.data := by
  obtain ⟨b, bs, hfinish, hdoc, hbs, hdata⟩ := epPackFinish_of_fits hn hkeys hvalues hfits
    (length_cells mem 0 4)
  obtain ⟨⟨b', ok⟩, hb, rfl⟩ := Option.map_eq_some_iff.mp hfinish
  obtain ⟨-, -, -, hlt⟩ := hfits
  exact ⟨b', ok, bs, hb, hdoc, hbs, hlt, hdata⟩

/-- A buffer with a finished document gives the packet back, unless the size is a multiple
of 256. -/
theorem Finished.createPack (h : Finished ops bs data) (hmod : packTotal ops % 256 ≠ 0)
    {b : EpBuffer} (hb : b.Holds data) :
    b.createPack = some (some ⟨data, data.length, [], 0, true⟩) := by
  have hlen := h.length_data
  have hlength := h.length
  have hfour : cells b.chunk 0 4 = data.take 4 := by
    rw [← take_cells b.chunk 0 (by omega : 4 ≤ data.length), hb.cells_eq]
  have hword : word 4 (cells b.chunk 0 4) = word 4 data := by
    rw [hfour, word, word, List.take_take]
    rfl
  have hhead : data.headD 0 ≠ 0 := by
    rw [h.data_eq, h.length]
    simpa [leBytes, ← UInt8.toNat_inj] using hmod
  have hmax : max 4 data.length = data.length := by omega
  simp only [EpBuffer.createPack, hword, h.size_eq, Int.toNat_natCast, hmax, hb.cells_eq,
    epPackCreate, hb.used_eq, List.take_length]
  rw [if_pos ⟨hhead, by omega⟩, if_neg (by omega)]

/-- Bytes that start with a negative size whose first byte is not zero make the process exit. -/
theorem EpBuffer.Holds.createPack_negative {b : EpBuffer} {xs : List UInt8} (hb : b.Holds xs)
    (hlen : 4 ≤ xs.length) (hhead : xs.headD 0 ≠ 0)
    (hneg : (BitVec.ofNat 32 (word 4 xs)).toInt < 0) : b.createPack = none := by
  have hfour : cells b.chunk 0 4 = xs.take 4 := by
    rw [← take_cells b.chunk 0 hlen, hb.cells_eq]
  have hword : word 4 (cells b.chunk 0 4) = word 4 xs := by
    rw [hfour, word, word, List.take_take]
    rfl
  have hzero : (BitVec.ofNat 32 (word 4 xs)).toInt.toNat = 0 := by omega
  have hfirst : (cells b.chunk 0 4).headD 0 ≠ 0 := by
    cases xs with
    | nil => simp at hlen
    | cons x xs => rwa [hfour]
  have hpos : b.used > 0 := by rw [hb.used_eq]; omega
  simp only [EpBuffer.createPack, hword, hzero, Nat.zero_le, max_eq_left, epPackCreate,
    if_pos (⟨hfirst, hpos⟩ : _ ∧ _), if_pos hneg]

/-- The iterator starts on the elements. -/
theorem Finished.iterator (h : Finished ops bs data) {p : Bson} (hp : p.data = data) :
    epPackIteratorGet p = ⟨bs ++ [0], true⟩ := by
  rw [epPackIteratorGet, hp, h.data_eq, bsonIteratorFromBuffer,
    List.drop_left' (length_leBytes _ _)]

end Packets

/-- What a loop finds at a binary element, and where it goes from there. -/
theorem binary_step {i : BsonIterator} {name : CString} {data rest : List UInt8}
    (hi : bsonIteratorNext i = some (⟨estartBytes bsonBindata name ++
      ((leBytes 4 data.length ++ bsonBinBinary :: data) ++ rest), false⟩, bsonBindata))
    (hdata : data.length + 5 < 2 ^ 31) :
    ∃ j, epPackIteratorNext i = some (j, true) ∧ bsonIteratorKey j = name ∧
      bsonIteratorBinLen j = data.length ∧ bsonIteratorBinData j = data ++ rest ∧
      bsonIteratorNext j = some (⟨rest, false⟩, rest.headD 0) := by
  have he : (PackOp.binary name data).element = some (bsonBindata, name,
      leBytes 4 data.length ++ bsonBinBinary :: data) := rfl
  have hv : (leBytes 4 data.length ++ bsonBinBinary :: data).length < 2 ^ 31 := by simp; omega
  obtain ⟨ht, -, hsize⟩ := bsonValueSize_element he hv rest false
  obtain ⟨hlen, hbin⟩ := bsonIteratorBin_element name (by omega : data.length < 2 ^ 31) rest false
  exact ⟨_, epPackIteratorNext_element he hv hi, bsonIteratorKey_estart .., hlen, hbin,
    bsonIteratorNext_step ht hsize⟩

/-- The same for an integer, which is the last element. -/
theorem int_step {i : BsonIterator} {name : CString} {v : BitVec 32} {rest : List UInt8}
    (hi : bsonIteratorNext i = some (⟨estartBytes bsonInt name ++ (leBytes 4 v.toNat ++ rest),
      false⟩, bsonInt)) :
    ∃ j, epPackIteratorNext i = some (j, true) ∧ bsonIteratorKey j = name ∧
      bsonIteratorType j = bsonInt ∧ bsonIteratorIntRaw j = v := by
  have he : (PackOp.int name v).element = some (bsonInt, name, leBytes 4 v.toNat) := rfl
  have hword := word_leBytes_append (show v.toNat < 256 ^ 4 from v.isLt) rest
  refine ⟨_, epPackIteratorNext_element he (by simp) hi, bsonIteratorKey_estart ..,
    bsonIteratorType_estart .., ?_⟩
  rw [bsonIteratorIntRaw, bsonIteratorValue_estart, hword, BitVec.ofNat_toNat, BitVec.setWidth_eq]

/-- The end of the document ends every loop. -/
theorem epPackIteratorNext_end {i : BsonIterator}
    (h : bsonIteratorNext i = some (⟨[0], false⟩, ([0] : List UInt8).headD 0)) :
    epPackIteratorNext i = some (⟨[0], false⟩, false) := by
  rw [epPackIteratorNext, h]
  rfl

theorem Doc.value_inv {op : PackOp} {ops : List PackOp} {bs : List UInt8} (h : Doc (op :: ops) bs)
    {t : UInt8} {name : CString} {v : List UInt8} (he : op.element = some (t, name, v)) :
    ∃ bs', bs = estartBytes t name ++ (v ++ bs') ∧ Doc ops bs' := by
  cases h with
  | value he' h =>
    rw [he'] at he
    cases he
    exact ⟨_, rfl, h⟩
  | sub hi h => simp [PackOp.element] at he

theorem Doc.nil_inv {bs : List UInt8} (h : Doc [] bs) : bs = [] := by
  cases h
  rfl

/-- Where a loop starts: on the first element of the document. -/
theorem Finished.first {op : PackOp} {ops : List PackOp} {bs data : List UInt8}
    (h : Finished (op :: ops) bs data) {p : Bson} (hp : p.data = data) {t : UInt8} {name : CString}
    {v : List UInt8} (he : op.element = some (t, name, v)) :
    ∃ bs', Doc ops bs' ∧ bsonIteratorNext (epPackIteratorGet p) =
      some (⟨estartBytes t name ++ (v ++ (bs' ++ [0])), false⟩, t) := by
  obtain ⟨bs', rfl, hdoc⟩ := h.doc.value_inv he
  refine ⟨bs', hdoc, ?_⟩
  rw [h.iterator hp]
  simp [bsonIteratorNext, bsonIteratorType, estartBytes]

/-- The three packets of a handshake. -/
def keyOps (key : EpAesKey) : List PackOp :=
  [.binary keyKey (List.ofFn key.key), .binary vecKey (List.ofFn key.vec)]

def securityOps (security : List UInt8) : List PackOp := [.binary securityKey security]

def resultOps (v : ℤ) : List PackOp := [.int resultKey (.ofInt 32 v)]

section Loops

variable {bs data : List UInt8} {p : Bson}

/-- The server takes out the field of the request. -/
theorem epCertServerRsaGetDecryptBuffer_eq {security : List UInt8}
    (h : Finished (securityOps security) bs data) (hp : p.data = data)
    (hlen : security.length = 128) (rsa : Rsa) (heap : ℕ → ℤ → UInt8) (fuel : ℕ) :
    epCertServerRsaGetDecryptBuffer rsa heap (fuel + 1) (epPackIteratorGet p) =
      some (epCertServerDecrypt rsa (heap 0) security) := by
  obtain ⟨bs', -, hfirst⟩ := h.first hp rfl
  obtain ⟨j, hnext, hkey, hbinLen, hbinData, -⟩ := binary_step hfirst (by omega)
  simp only [epCertServerRsaGetDecryptBuffer, hnext, hkey, if_true, hbinLen, hbinData, hlen,
    Nat.cast_ofNat, ne_eq, not_true, if_false]
  rw [List.take_left' hlen]

theorem blockAt_ofFn (past : ℤ → UInt8) (b : Block) (rest : List UInt8) :
    blockAt past (List.ofFn b ++ rest) = b := by
  funext i
  have hi : (i : ℕ) < (List.ofFn b).length := by rw [List.length_ofFn]; exact i.isLt
  rw [blockAt, List.getD_eq_getElem?_getD, List.getElem?_append_left hi, List.getElem?_ofFn]
  simp

/-- The server reads the key and the vector out of the decrypted packet. -/
theorem securityKeys_eq {key : EpAesKey} (h : Finished (keyOps key) bs data) (hp : p.data = data)
    (heap : ℕ → ℤ → UInt8) (fuel : ℕ) (start : EpAesKey) :
    securityKeys heap (fuel + 3) (epPackIteratorGet p) start = some key := by
  have hne : vecKey ≠ keyKey := by decide
  have hlen : ∀ b : Block, (List.ofFn b).length + 5 < 2 ^ 31 := fun b => by
    rw [List.length_ofFn]; decide
  obtain ⟨bs₁, hdoc, hfirst⟩ := h.first hp rfl
  obtain ⟨j₁, hnext₁, hkey₁, -, hbin₁, hgo⟩ := binary_step hfirst (hlen _)
  obtain ⟨bs₂, rfl, hnil⟩ := hdoc.value_inv rfl
  obtain rfl := hnil.nil_inv
  simp only [List.append_assoc, List.nil_append] at hgo
  obtain ⟨j₂, hnext₂, hkey₂, -, hbin₂, hend⟩ := binary_step
    (by rw [hgo]; simp only [List.append_assoc]; rfl) (hlen _)
  simp only [securityKeys, hnext₁, hkey₁, hbin₁, hnext₂, hkey₂, hbin₂, hne, if_true, if_false,
    blockAt_ofFn, epPackIteratorNext_end hend]

/-- The client reads the result. -/
theorem securityResult_eq {v : ℤ} (h : Finished (resultOps v) bs data) (hp : p.data = data)
    (ofDouble : BitVec 64 → ℤ) (fuel : ℕ) :
    securityResult ofDouble (fuel + 1) (epPackIteratorGet p) =
      some (BitVec.ofInt 32 v).toInt := by
  obtain ⟨bs', -, hfirst⟩ := h.first hp rfl
  obtain ⟨j, hnext, hkey, htype, hraw⟩ := int_step hfirst
  simp only [securityResult, hnext, hkey, if_true, bsonIteratorInt, htype, hraw]

end Loops

/-! ## The sizes -/

/-- The room for an element is the room that it takes. -/
theorem size_binary (name : CString) (data : List UInt8) :
    (PackOp.binary name data).size = name.bytes.length + data.length + 7 ∧
      (PackOp.binary name data).need = name.bytes.length + data.length + 7 := by
  simp [PackOp.size, PackOp.need, PackOp.element]
  omega

theorem packTotal_keyOps (key : EpAesKey) : packTotal (keyOps key) = 57 := by
  simp [packTotal, packBytes, keyOps, size_binary, keyKey, vecKey]

theorem packTotal_securityOps (security : List UInt8) :
    packTotal (securityOps security) = security.length + 20 := by
  simp [packTotal, packBytes, securityOps, size_binary, securityKey]
  omega

theorem packTotal_resultOps (v : ℤ) : packTotal (resultOps v) = 17 := by
  simp [packTotal, packBytes, resultOps, PackOp.size, PackOp.element, resultKey]

theorem keyOps_finished (key : EpAesKey) (mem : ℤ → UInt8) :
    ∃ b ok bs, bsonFinish (packOf mem (keyOps key)) = some (b, ok) ∧
      Finished (keyOps key) bs b.data := by
  have hkey : ValidUtf8 keyKey.bytes := by decide
  have hvec : ValidUtf8 vecKey.bytes := by decide
  refine packOf_finished (show WellNested (keyOps key) from rfl) ?_ ?_ ⟨128, ?_, ?_, ?_⟩ mem
  · simp [keyOps, PackOp.KeyOk, hkey, hvec]
  · simp [keyOps, PackOp.ValueOk]
  · simp [keyOps, growAll, bsonGrow, size_binary, keyKey, vecKey]
  · simp [keyOps, packBytes, bsonGrow, size_binary, keyKey, vecKey]
  · rw [packTotal_keyOps]
    decide

/-- The area of a small packet can always grow. -/
theorem bsonGrow_small (pos : ℕ) {size need : ℕ} (h : size + need ≤ 2000) :
    ∃ size', bsonGrow pos size need = some size' ∧ size' ≤ max size (2 * (size + need)) := by
  unfold bsonGrow
  split_ifs with hfits hgrow
  · exact ⟨size, rfl, by omega⟩
  · exact ⟨_, rfl, by omega⟩
  all_goals unfold int32Max at hgrow; omega

theorem securityOps_finished {security : List UInt8} (hlen : security.length ≤ 128)
    (mem : ℤ → UInt8) :
    ∃ b ok bs, bsonFinish (packOf mem (securityOps security)) = some (b, ok) ∧
      Finished (securityOps security) bs b.data := by
  have hkey : ValidUtf8 securityKey.bytes := by decide
  have hneed : (PackOp.binary securityKey security).need = security.length + 15 := by
    rw [(size_binary ..).2]
    simp [securityKey]
    omega
  obtain ⟨size, hgrow, hsize⟩ := bsonGrow_small 4
    (show 128 + (PackOp.binary securityKey security).need ≤ 2000 by omega)
  obtain ⟨size', hgrow', -⟩ := bsonGrow_small (4 + packBytes (securityOps security))
    (show size + 1 ≤ 2000 by omega)
  refine packOf_finished (show WellNested (securityOps security) from rfl) ?_ ?_ ⟨size, ?_, ?_, ?_⟩
    mem
  · simp [securityOps, PackOp.KeyOk, hkey]
  · simp [securityOps, PackOp.ValueOk]
  · simp [securityOps, growAll, hgrow]
  · rw [hgrow']
    rfl
  · rw [packTotal_securityOps]
    unfold int32Max
    omega

theorem resultOps_finished (v : ℤ) (mem : ℤ → UInt8) :
    ∃ b ok bs, bsonFinish (packOf mem (resultOps v)) = some (b, ok) ∧
      Finished (resultOps v) bs b.data := by
  have hkey : ValidUtf8 resultKey.bytes := by decide
  refine packOf_finished (show WellNested (resultOps v) from rfl) ?_ ?_ ⟨128, ?_, ?_, ?_⟩ mem
  · simp [resultOps, PackOp.KeyOk, hkey]
  · simp [resultOps, PackOp.ValueOk]
  · simp [resultOps, growAll, bsonGrow, PackOp.need, PackOp.element, resultKey]
  · simp [resultOps, packBytes, bsonGrow, PackOp.size, PackOp.element, resultKey]
  · rw [packTotal_resultOps]
    decide

/-! ## One frame there, one frame back -/

/-- The frames of a handshake are small, compressed or not. -/
theorem framable_small (bz : Bz2) (flag crypt : BitVec 3) {xs : List UInt8}
    (h : xs.length ≤ 200) :
    Framable bz flag crypt xs ∧ wireLength bz flag crypt xs ≤ 1000 := by
  have hpacked : (packed bz flag xs).length ≤ 900 := by
    have hbound := bz.length_compress_le xs
    unfold packed
    split_ifs <;> omega
  have hwire : wireLength bz flag crypt xs ≤ 1000 := by
    simp only [wireLength]
    split_ifs <;> omega
  refine ⟨⟨fun _ => ?_, by omega⟩, hwire⟩
  unfold epAlignSize intMax
  omega

section Frames

variable {aes : AesCipher} {bz : Bz2} {fresh : ℕ → ℤ → UInt8} {ioMgr : EpIoMgr} {fd : ℤ}
  {shell : EpShell} {b : EpBuffer} {xs : List UInt8}

/-- A small body is sent in a frame that any receiver takes. -/
theorem epIoCombineShell_small (aes : AesCipher) (bz : Bz2) (fresh : ℕ → ℤ → UInt8)
    (shell : EpShell) (hmagic : shell.magic = epMagicNumber) (hb : b.Holds xs)
    (hpos : 0 < xs.length) (hsmall : xs.length ≤ 200) {key : EpAesKey}
    (hkey : epIoGetAes ioMgr fd = some key) :
    ∃ net out, (epIoCombineShell aes bz fresh ioMgr fd shell (some b)).2 = some (net, out) ∧
      out.bytes.length ≤ 1018 ∧
      ∀ maxCapacity : ℤ, 1024 ≤ maxCapacity → BuiltFrame aes bz maxCapacity out.bytes := by
  obtain ⟨hframable, hwire⟩ := framable_small bz (ioMgr.frameFlag shell b.used)
    (shell.proto.cryptOf ioMgr.refor) hsmall
  have hsome := (epIoCombineShell_isSome_iff aes bz fresh fd hb rfl rfl).mpr
    ⟨hframable, fun _ => by rw [hkey]; rfl⟩
  obtain ⟨⟨net, out⟩, hcombine⟩ := Option.isSome_iff_exists.mp hsome
  obtain ⟨-, -, hsize, hlen⟩ := epIoCombineShell_header hcombine hb rfl rfl
  refine ⟨net, out, hcombine, by unfold sizeofEpShell at hlen; omega, fun maxCapacity hmax => ?_⟩
  refine ⟨fresh, ioMgr, fd, shell, some b, net, out, hmagic, ?_, hcombine, rfl, by omega⟩
  rintro b' ⟨⟩
  rw [hb.used_eq]
  omega

/-- The task of a frame with a body has an input. -/
theorem exists_input {net : EpShell} {out : EpBuffer}
    (hcombine : (epIoCombineShell aes bz fresh ioMgr fd shell (some b)).2 = some (net, out))
    (hb : b.Holds xs) (hpos : 0 < xs.length) {rfd : ℤ} {task : EpIoTask}
    (htask : task.Carries rfd out.bytes) :
    ∃ input, task.input = some input ∧ input.Holds (out.bytes.drop sizeofEpShell) := by
  obtain ⟨-, hshell, hinput⟩ := htask
  obtain ⟨-, -, hsize, -⟩ := epIoCombineShell_header hcombine hb rfl rfl
  have hwire : 0 < wireLength bz (ioMgr.frameFlag shell b.used)
      (shell.proto.cryptOf ioMgr.refor) xs := by
    have hle := packed_le_wireLength bz (ioMgr.frameFlag shell b.used)
      (shell.proto.cryptOf ioMgr.refor) xs
    have hpacked := length_packed_pos bz (ioMgr.frameFlag shell b.used) hpos
    omega
  cases hin : task.input with
  | none =>
    rw [hin, hshell, hsize] at hinput
    have := hinput.1
    omega
  | some input =>
    rw [hin] at hinput
    exact ⟨input, rfl, hinput.2⟩

/-- The worker of the receiver gets at the packet if no key was used, or the frame is legible
under its own. -/
theorem taskPack_eq {net : EpShell} {out : EpBuffer} {ops : List PackOp} {bs : List UInt8}
    (hcombine : (epIoCombineShell aes bz fresh ioMgr fd shell (some b)).2 = some (net, out))
    (hb : b.Holds xs) (hpack : Finished ops bs xs) (hmod : packTotal ops % 256 ≠ 0)
    {rcv : EpIoMgr} (hrole : rcv.refor.peer = ioMgr.refor) {rfd : ℤ} {key' : EpAesKey}
    (hkey' : epIoGetAes rcv rfd = some key')
    (hkey : shell.proto.cryptOf ioMgr.refor = cryptTypeEncrypt → ∃ k, epIoGetAes ioMgr fd = some k ∧
      Legible aes bz k key' (ioMgr.frameFlag shell b.used)
        (behindBody fresh (ioMgr.frameFlag shell b.used) b) xs)
    {task : EpIoTask} (htask : task.Carries rfd out.bytes) (heap : ℕ → ℤ → UInt8) :
    taskPack aes bz heap rcv task = .pack (some ⟨xs, xs.length, [], 0, true⟩) := by
  have hpos := hpack.length_pos
  obtain ⟨input, hin, hinput⟩ := exists_input hcombine hb hpos htask
  obtain ⟨orig, horig, hholds⟩ := (epIoRecombineOriginal_iff hcombine hb hpos rfl rfl hrole hkey'
    hinput heap).mpr hkey
  simp only [taskPack, hin, htask.1, htask.2.1, horig, hpack.createPack hmod hholds]

/-- The process exits if its key makes something of the ciphertext that starts with a negative
size, and with a byte that is not zero. -/
theorem taskPack_garbled {net : EpShell} {out : EpBuffer}
    (hcombine : (epIoCombineShell aes bz fresh ioMgr fd shell (some b)).2 = some (net, out))
    (hb : b.Holds xs) (hlen : 4 ≤ xs.length)
    (hflag : ioMgr.frameFlag shell b.used ≠ compressTypeCompress)
    (hcrypt : shell.proto.cryptOf ioMgr.refor = cryptTypeEncrypt)
    {rcv : EpIoMgr} (hrole : rcv.refor.peer = ioMgr.refor) {key key' : EpAesKey}
    (hkey : epIoGetAes ioMgr fd = some key) {rfd : ℤ} (hkey' : epIoGetAes rcv rfd = some key')
    {task : EpIoTask} (htask : task.Carries rfd out.bytes)
    (hhead : (deciphered aes key key' b.chunk xs.length).headD 0 ≠ 0)
    (hneg : (BitVec.ofNat 32 (word 4 (deciphered aes key key' b.chunk xs.length))).toInt < 0)
    (heap : ℕ → ℤ → UInt8) : taskPack aes bz heap rcv task = .exits := by
  obtain ⟨input, hin, hinput⟩ := exists_input hcombine hb (by omega) htask
  obtain ⟨orig, horig, hholds⟩ := epIoRecombineOriginal_deciphered hcombine hb hflag hcrypt hrole
    hkey hkey' hinput heap
  have hcreate := hholds.createPack_negative (by rwa [length_deciphered]) hhead hneg
  simp only [taskPack, hin, htask.1, htask.2.1, horig, hcreate]

end Frames

/-! ## The handler -/

/-- Installing a key on a connection that is there. -/
theorem epIoUpdateAes_eq {ioMgr : EpIoMgr} {fd : ℤ} {key : EpAesKey}
    (h : epIoGetAes ioMgr fd = some key) (key' : EpAesKey) :
    (epIoUpdateAes ioMgr fd key').2 = 1 ∧
      epIoGetAes (epIoUpdateAes ioMgr fd key').1 fd = some key' ∧
      (epIoUpdateAes ioMgr fd key').1.refor = ioMgr.refor ∧
      (epIoUpdateAes ioMgr fd key').1.miniCompressIf = ioMgr.miniCompressIf := by
  obtain ⟨io, hfind, -⟩ := Option.map_eq_some_iff.mp h
  have hfd : io.fd = fd := epIoFind_fd hfind
  have hnew := epIoGetAes_replaceIo hfind { io with aes := key' } hfd
  simp only [epIoUpdateAes, hfind]
  exact ⟨trivial, hnew, trivial, trivial⟩

/-- An honest request passes every check. -/
theorem verifiedKey_honest {md5 : List UInt8 → Block} {rsa : Rsa}
    {security inner bs bs' : List UInt8} {key : EpAesKey} {p : Bson}
    (hp : Finished (securityOps security) bs p.data) (hlen : security.length = 128)
    (hdecrypt : rsa.privateDecrypt security = some inner)
    (hinner : Finished (keyOps key) bs' inner) (hverify : epCertVerifyClientKey md5 key = true)
    (heap : ℕ → ℤ → UInt8) : verifiedKey md5 rsa heap p = some (some key) := by
  have hinnerLen : inner.length = 57 := by rw [hinner.length_data, packTotal_keyOps]
  obtain ⟨b, hb, hholds⟩ := epBufferNew_list (heap 0) (show 0 < inner.length by omega)
    (by omega)
  have hcreate := hinner.createPack (by rw [packTotal_keyOps]; decide) hholds
  have hbuffer : epCertServerDecrypt rsa (heap 0) security = some b := by
    simp only [epCertServerDecrypt, hdecrypt, hb]
  have hkeys : ∀ start, securityKeys heap (inner.length + 1)
      (epPackIteratorGet ⟨inner, inner.length, [], 0, true⟩) start = some key := by
    intro start
    rw [hinnerLen]
    exact securityKeys_eq hinner rfl heap 55 start
  simp only [verifiedKey, epCertServerRsaGetDecryptBuffer_eq hp rfl hlen rsa heap, hbuffer,
    Option.bind_eq_bind, Option.bind_some, hcreate, hkeys, hverify, if_true]

/-- A verified key is installed. -/
theorem epCertServerSecurity_accepted {md5 : List UInt8 → Block} {rsa : Rsa}
    {heap : ℕ → ℤ → UInt8} {p : Bson} {key old : EpAesKey}
    (hkey : verifiedKey md5 rsa heap p = some (some key)) {ioMgr : EpIoMgr} {fd : ℤ}
    (hold : epIoGetAes ioMgr fd = some old) :
    epCertServerSecurity md5 rsa heap ioMgr fd (some p) =
      some ((epIoUpdateAes ioMgr fd key).1, some (packOf (heap 2) (resultOps 1))) := by
  have hone : ((epIoUpdateAes ioMgr fd key).2 = 0) = False := by
    rw [(epIoUpdateAes_eq hold key).1]
    simp
  simp only [epCertServerSecurity, hkey, Option.bind_eq_bind, Option.bind_some, hone, if_false]
  rfl

/-- A refusal leaves the table alone. -/
theorem epCertServerSecurity_refused {md5 : List UInt8 → Block} {rsa : Rsa}
    {heap : ℕ → ℤ → UInt8} {p : Bson} (hkey : verifiedKey md5 rsa heap p = some none)
    (ioMgr : EpIoMgr) (fd : ℤ) :
    epCertServerSecurity md5 rsa heap ioMgr fd (some p) =
      some (ioMgr, some (packOf (heap 2) (resultOps (-1)))) := by
  simp only [epCertServerSecurity, hkey, Option.bind_eq_bind, Option.bind_some]
  rfl

/-! ## The request -/

/-- The key does not touch what has been received. -/
theorem Registered.updateAes {ioMgr : EpIoMgr} {fd : ℤ} {raw : List UInt8}
    (h : Registered ioMgr fd raw) (key : EpAesKey) :
    Registered (epIoUpdateAes ioMgr fd key).1 fd raw ∧
      (epIoUpdateAes ioMgr fd key).1.maxCapacity = ioMgr.maxCapacity := by
  obtain ⟨io, hfind, hready, hraw⟩ := h
  have hfd : io.fd = fd := epIoFind_fd hfind
  have hnew : epIoFind { ioMgr with ioList := replaceIo { io with aes := key } ioMgr.ioList } fd =
      some { io with aes := key } := find_replaceIo hfind hfd
  simp only [epIoUpdateAes, hfind]
  exact ⟨⟨_, hnew, ⟨hready.valid, hready.limit, hready.magic, hready.size_pos, hready.size_le⟩,
    hraw⟩, trivial⟩

theorem Registered.getAes {ioMgr : EpIoMgr} {fd : ℤ} {raw : List UInt8}
    (h : Registered ioMgr fd raw) : ∃ key, epIoGetAes ioMgr fd = some key := by
  obtain ⟨io, hfind, -⟩ := h
  exact ⟨io.aes, by rw [epIoGetAes, hfind]; rfl⟩

/-- The header of the request. -/
def securityShell : EpShell :=
  ⟨epMagicNumber, ⟨categoryInternalKey.toBitVec, reqTypeGet, cryptTypeNone, compressTypeAuto,
    cryptTypeEncrypt, compressTypeAuto, 0⟩, 0, 0, 0⟩

/-- A client that waits for the reply to a request with the field `security`, and the frame
of the request. -/
structure Waiting (aes : AesCipher) (bz : Bz2) (client : EpClient) (key : EpAesKey)
    (security frame : List UInt8) : Prop where
  registered : Registered client.ioMgr client.fd []
  refor : client.ioMgr.refor = .client
  holds : epIoGetAes client.ioMgr client.fd = some key
  maxCapacity : 1024 ≤ client.ioMgr.maxCapacity
  dispList : client.dispList = [⟨categoryInternalKey, 0⟩]
  handles : client.handles = [⟨0, categoryInternalKey, .get, []⟩]
  frame : ∃ fresh net out b bs data,
    (epIoCombineShell aes bz fresh client.ioMgr client.fd securityShell (some b)).2 =
      some (net, out) ∧ b.Holds data ∧ Finished (securityOps security) bs data ∧
    frame = out.bytes

/-- The request of a field of at most 128 bytes is sent. -/
theorem epReqNew_security (aes : AesCipher) (bz : Bz2) (client : EpClient) {key : EpAesKey}
    {security : List UInt8} (hlen : security.length ≤ 128)
    (hreg : Registered client.ioMgr client.fd []) (hrefor : client.ioMgr.refor = .client)
    (hkey : epIoGetAes client.ioMgr client.fd = some key)
    (hmax : 1024 ≤ client.ioMgr.maxCapacity) (hroom : 1024 ≤ client.ioMaxCapacity)
    (hfd : client.fd ≠ -1) (hdisp : client.dispList = []) (hhandles : client.handles = [])
    (hfresh : client.fresh = 0) (mem : ℤ → UInt8) (heap : ℕ → ℤ → UInt8) :
    ∃ client' frame, client.epReqNew aes bz heap
        (securityParam (packOf mem (securityOps security))) = some (client', some (0, frame)) ∧
      Waiting aes bz client' key security frame ∧ client'.fd = client.fd ∧
      frame.length ≤ 1018 := by
  obtain ⟨pack, ok, bs, hfinish, hpack⟩ := securityOps_finished hlen mem
  have hsize : pack.data.length = security.length + 20 := by
    rw [hpack.length_data, packTotal_securityOps]
  have hepSize : epPackSize pack = pack.data.length := by rw [epPackSize, hpack.size_eq]
  have hnew := hpack.epBufferNew2 (by omega) (heap 0)
  generalize hb : EpBuffer.mk _ _ _ = b at hnew
  have hholds : b.Holds pack.data := by
    rw [← hb]
    exact ⟨rfl, cells_copyIn_self _ _ _⟩
  obtain ⟨net, out, hcombine, hshort, -⟩ := epIoCombineShell_small aes bz
    (fun i => heap (i + 1)) securityShell rfl hholds (by omega) (by omega) hkey
  have hframe : requestFrame aes bz heap client
      (securityParam (packOf mem (securityOps security))) (some pack) = some out.bytes := by
    obtain ⟨io, hfind, -⟩ := hreg
    have hshell : (securityParam (packOf mem (securityOps security))).shell
        (securityParam (packOf mem (securityOps security))).type = securityShell := rfl
    simp only [requestFrame, hnew, Option.map_some, Option.bind_eq_bind, Option.bind_some, hshell,
      hcombine, hfind]
  refine ⟨{ client with
      dispList := [⟨categoryInternalKey, 0⟩]
      fresh := 1
      handles := [⟨0, categoryInternalKey, .get, []⟩] }, out.bytes, ?_,
    ⟨hreg, hrefor, hkey, hmax, rfl, rfl, _, net, out, b, bs, pack.data, hcombine, hholds, hpack,
      rfl⟩, rfl, hshort⟩
  have hroom' : ¬ epPackSize pack > client.ioMaxCapacity := by omega
  have hadd : epDispAddCb [] ⟨categoryInternalKey.toBitVec⟩ 0 =
      some [⟨categoryInternalKey, 0⟩] := rfl
  unfold securityParam at hframe
  simp only [EpClient.epReqNew, hfd, if_false, securityParam, hfinish, Option.map_some,
    Option.bind_eq_bind, Option.bind_some, Option.getD_some, hroom', hdisp, hfresh, hadd, hframe,
    hhandles, Nat.zero_add]

/-- A started client that has installed a key. -/
theorem EpClient.start_key {defCapacity maxCapacity : ℤ} (hdef : 0 < defCapacity)
    (hmax : defCapacity < maxCapacity) (miniCompressIf fd : ℤ) (key : EpAesKey) :
    let r := epIoUpdateAes (EpClient.start defCapacity maxCapacity miniCompressIf fd).ioMgr fd key
    r.2 = 1 ∧ Registered r.1 fd [] ∧ r.1.refor = .client ∧ epIoGetAes r.1 fd = some key ∧
      r.1.maxCapacity = maxCapacity := by
  have hnew : epIoFind (⟨.client, defCapacity, maxCapacity, miniCompressIf, []⟩ : EpIoMgr) fd =
    none := rfl
  obtain ⟨hreg, hcap⟩ := epIoAdd_registered hdef hmax hnew
  obtain ⟨old, hold⟩ := hreg.getAes
  obtain ⟨hreg', hcap'⟩ := hreg.updateAes key
  obtain ⟨hone, hget, hrefor, -⟩ := epIoUpdateAes_eq hold key
  exact ⟨hone, hreg', hrefor, hget, hcap'.trans hcap⟩

/-- A started client sends its key, and waits. -/
theorem epCertClientHello_waits (aes : AesCipher) (bz : Bz2) (heap : ℕ → ℤ → UInt8)
    (md5 : List UInt8 → Block) (rsa : Rsa) {defCapacity maxCapacity : ℤ} (hdef : 0 < defCapacity)
    (hmax : defCapacity < maxCapacity) (hroom : 1024 ≤ maxCapacity) (miniCompressIf : ℤ) {fd : ℤ}
    (hfd : fd ≠ -1) (random : Block) (pad : List UInt8) :
    ∃ client security inner bs frame,
      epCertClientHello aes bz heap md5 rsa (.start defCapacity maxCapacity miniCompressIf fd)
        random pad = some (client, .ok (0, frame)) ∧
      Waiting aes bz client (epCertGenClientKey md5 random) security frame ∧ client.fd = fd ∧
      frame.length ≤ 1018 ∧ security.length = 128 ∧
      rsa.privateDecrypt security = some inner ∧
      Finished (keyOps (epCertGenClientKey md5 random)) bs inner := by
  obtain ⟨hone, hreg, hrefor, hget, hcap⟩ := EpClient.start_key hdef hmax miniCompressIf fd
    (epCertGenClientKey md5 random)
  -- the inner packet and its encryption
  obtain ⟨inner, ok, bs, hfinish, hinner⟩ :=
    keyOps_finished (epCertGenClientKey md5 random) (heap 0)
  have hinnerLen : inner.data.length = 57 := by rw [hinner.length_data, packTotal_keyOps]
  have hinnerSize : (epPackSize inner).toNat = inner.data.length := by
    rw [epPackSize, hinner.size_eq, Int.toNat_natCast]
  obtain ⟨security, hencrypt, hlen, hdecrypt⟩ := rsa.publicEncrypt_spec pad inner.data (by omega)
  obtain ⟨tmpBuffer, hbuffer, hholds⟩ := epBufferNew_list (heap 1)
    (show 0 < security.length by omega) (by omega)
  have hbytes : tmpBuffer.bytes = security := by
    rw [EpBuffer.bytes, hholds.used_eq, Int.toNat_natCast, hholds.cells_eq]
  obtain ⟨client', frame, hreq, hwaiting, hfd', hshort⟩ := epReqNew_security aes bz
    ⟨_, fd, max maxCapacity defCapacity, [], [], 0⟩ hlen.le hreg hrefor hget
    (hroom.trans_eq hcap.symm) (by simp; omega) hfd rfl rfl rfl (heap 2) (fun i => heap (i + 3))
  refine ⟨client', security, inner.data, bs, frame, ?_, hwaiting, hfd', hshort, hlen, hdecrypt,
    hinner⟩
  have htmp : epPackFinish (cells (heap 0) 0 4) [.binary keyKey
      (List.ofFn (epCertGenClientKey md5 random).key), .binary vecKey
      (List.ofFn (epCertGenClientKey md5 random).vec)] = some inner :=
    Option.map_eq_some_iff.mpr ⟨_, hfinish, rfl⟩
  have hcipher : epCertClientEncrypt rsa (heap 1) pad
      (inner.data.take (epPackSize inner).toNat) = some tmpBuffer := by
    rw [hinnerSize, List.take_length]
    simp only [epCertClientEncrypt, hencrypt, hbuffer]
  rw [securityOps, ← hbytes] at hreq
  simp only [EpClient.start] at hone hreq
  simp only [epCertClientHello, EpClient.start, hone, ne_eq, not_true, if_false, htmp, hcipher,
    Option.bind_eq_bind, Option.bind_some, hreq]

/-! ## The reply -/

/-- What the header of a reply keeps of the request. -/
structure ReplyShell (shell : EpShell) : Prop where
  magic : shell.magic = epMagicNumber
  category : shell.proto.category = categoryInternalKey.toBitVec
  type : shell.proto.type = reqTypePost
  sCrypt : shell.proto.sCrypt = cryptTypeEncrypt
  sCompress : shell.proto.sCompress = compressTypeAuto

/-- The frame that the server builds from a finished packet. -/
structure Answer (aes : AesCipher) (bz : Bz2) (heap : ℕ → ℤ → UInt8) (server : EpIoMgr) (sfd : ℤ)
    (data reply : List UInt8) (shell net : EpShell) (out : EpBuffer) : Prop where
  header : ReplyShell shell
  refor : server.refor = .server
  combine : (epIoCombineShell aes bz (fun i => heap (i + 3)) server sfd shell
    (some ⟨copyIn (heap 2) 0 data, epAlignSize data.length, data.length⟩)).2 = some (net, out)
  reply_eq : reply = out.bytes
  short : reply.length ≤ 1018
  built : ∀ maxCapacity : ℤ, 1024 ≤ maxCapacity → BuiltFrame aes bz maxCapacity reply

/-- The server decides about the compression, and ciphers. -/
theorem Answer.flags {aes : AesCipher} {bz : Bz2} {heap : ℕ → ℤ → UInt8} {server : EpIoMgr}
    {sfd : ℤ} {data reply : List UInt8} {shell net : EpShell} {out : EpBuffer}
    (h : Answer aes bz heap server sfd data reply shell net out) (size : ℤ) :
    server.frameFlag shell size =
      resolveCompress server.miniCompressIf compressTypeAuto size ∧
    shell.proto.cryptOf server.refor = cryptTypeEncrypt := by
  rw [EpIoMgr.frameFlag, h.refor]
  exact ⟨congrArg (resolveCompress _ · size) h.header.sCompress, h.header.sCrypt⟩

/-- A worker of the server makes a frame of the result. -/
theorem taskReply_eq (aes : AesCipher) (bz : Bz2) (heap : ℕ → ℤ → UInt8) {server : EpIoMgr}
    {task : EpIoTask} (hshell : ReplyShell
      { task.shell with proto := { task.shell.proto with type := reqTypePost } })
    (hrefor : server.refor = .server) {key : EpAesKey}
    (hkey : epIoGetAes server task.fd = some key) {v : ℤ} {bs : List UInt8} {ret : Bson}
    (hret : Finished (resultOps v) bs ret.data) :
    ∃ reply shell net out, taskReply aes bz heap server task ret = some reply ∧
      Answer aes bz heap server task.fd ret.data reply shell net out := by
  have hlen : ret.data.length = 17 := by rw [hret.length_data, packTotal_resultOps]
  have hsize : epPackSize ret ≠ 0 := by rw [epPackSize, hret.size_eq, hlen]; decide
  have hnew := hret.epBufferNew2 (by omega) (heap 2)
  have hholds : EpBuffer.Holds ⟨copyIn (heap 2) 0 ret.data, epAlignSize ret.data.length,
    ret.data.length⟩ ret.data := ⟨rfl, cells_copyIn_self _ _ _⟩
  obtain ⟨net, out, hcombine, hshort, hbuilt⟩ := epIoCombineShell_small aes bz
    (fun i => heap (i + 3)) _ hshell.magic hholds (by omega) (by omega) hkey
  obtain ⟨io, hfind, -⟩ := Option.map_eq_some_iff.mp hkey
  refine ⟨out.bytes, _, net, out, ?_, hshell, hrefor, hcombine, rfl, hshort, hbuilt⟩
  simp only [taskReply, hsize, if_false, hnew, Option.bind_eq_bind, Option.bind_some, hcombine,
    hfind]

/-- From the request on the wire to the handler, and from its result to the reply. -/
theorem serve_eq {g : Setting} {client : EpClient} {key : EpAesKey} {security frame : List UInt8}
    (hwait : Waiting g.aes g.bz client key security frame) {server : EpIoMgr} {sfd : ℤ}
    {v₀ : IoView} (hview : HasView server sfd v₀) (hraw : v₀.raw = [])
    (hrefor : server.refor = .server) (hcut : (g.cut frame).flatten = frame)
    (hmax : (frame.length : ℤ) ≤ server.maxCapacity)
    (hint : v₀.WithinInt server.maxCapacity (g.cut frame)) (hfuel : frame.length < g.fuel) (hmod : packTotal (securityOps security) % 256 ≠ 0) :
    ∃ server₁ bs data, SameKeys sfd server server₁ ∧ Finished (securityOps security) bs data ∧
      ∀ server₂ v, epCertServerSecurity g.md5 g.rsa g.heaps.handler server₁ sfd
            (some ⟨data, data.length, [], 0, true⟩) =
          some (server₂, some (packOf (g.heaps.handler 2) (resultOps v))) →
        (∃ k, epIoGetAes server₂ sfd = some k) → server₂.refor = .server →
        ∃ reply bs' data' shell net out, g.serve server sfd frame = some (server₂, [reply]) ∧
          Finished (resultOps v) bs' data' ∧
          Answer g.aes g.bz g.heaps.serverWork server₂ sfd data' reply shell net out := by
  obtain ⟨fresh, net, out, b, bs, data, hcombine, hb, hdata, rfl⟩ := hwait.frame
  obtain ⟨hmagic, hproto, hsize, hlen⟩ := epIoCombineShell_header hcombine hb rfl rfl
  have hpos := hdata.length_pos
  have hbuilt : BuiltFrame g.aes g.bz server.maxCapacity out.bytes := by
    refine ⟨fresh, _, _, securityShell, some b, net, out, rfl, ?_, hcombine, rfl, by omega⟩
    rintro b' ⟨⟩
    rw [hb.used_eq]
    omega
  obtain ⟨server₁, codes, task, henqueue, htask, hsame⟩ := enqueueAll_frame hview hraw hbuilt
    hcut hmax hint hfuel g.heaps.serverRead
  obtain ⟨old, hold⟩ := (registered_iff.mpr ⟨v₀, hview, hraw⟩).getAes
  have hrole : server₁.refor.peer = client.ioMgr.refor := by
    rw [hsame.refor, hrefor, hwait.refor]
    rfl
  have hplain : securityShell.proto.cryptOf client.ioMgr.refor ≠ cryptTypeEncrypt := by
    rw [hwait.refor]
    decide
  have hpack := taskPack_eq hcombine hb hdata hmod hrole (hsame.aes.trans hold)
    (fun hcrypt => absurd hcrypt hplain) htask g.heaps.serverWork
  obtain ⟨rfl, hshell, -⟩ := htask
  rw [hwait.refor] at hproto
  refine ⟨server₁, bs, data, hsame, hdata, ?_⟩
  rintro server₂ v hhandler ⟨k, hk⟩ hrefor₂
  obtain ⟨ret, ok, bs', hfinish, hret⟩ := resultOps_finished v (g.heaps.handler 2)
  have hreply : ReplyShell { task.shell with proto :=
      { task.shell.proto with type := reqTypePost } } := by
    rw [hshell]
    refine ⟨hmagic, ?_, rfl, ?_, ?_⟩ <;> simp only [hproto] <;> rfl
  obtain ⟨reply, shell, net', out', htaskReply, hanswer⟩ := taskReply_eq g.aes g.bz
    g.heaps.serverWork hreply hrefor₂ hk hret
  refine ⟨reply, bs', ret.data, shell, net', out', ?_, hret, hanswer⟩
  have hcategory : (⟨task.shell.proto.category⟩ : Category) = categoryInternalKey := by
    rw [hshell, hproto]
    rfl
  have htype : task.shell.proto.type ≠ reqTypePost := by
    rw [hshell, hproto, EpShellProto.type_setCompress]
    decide
  have hdisp : serviceDisp g.md5 g.rsa g.heaps.handler g.others server₁
      ⟨task.shell.proto.category⟩ task.fd (some ⟨data, data.length, [], 0, true⟩) =
      some (server₂, some (packOf (g.heaps.handler 2) (resultOps v))) := by
    rw [serviceDisp, if_pos hcategory, hhandler]
  simp only [Setting.serve, henqueue, Option.bind_eq_bind, Option.bind_some, processAll,
    epIoProcessor, id, hpack, hdisp, hfinish, htype, if_false, htaskReply, Option.toList_some,
    List.append_nil]

/-- From the reply on the wire to the client that waits: it gets the packet, or ends if the
worker makes it exit. -/
theorem receive_eq {g : Setting} {client : EpClient} {key : EpAesKey}
    {security frame : List UInt8} (hwait : Waiting g.aes g.bz client key security frame)
    {server : EpIoMgr} {sfd : ℤ} {data reply : List UInt8} {shell net : EpShell} {out : EpBuffer}
    (hanswer : Answer g.aes g.bz g.heaps.serverWork server sfd data reply shell net out)
    (hcut : (g.cut' reply).flatten = reply) (hfuel : 1018 < g.fuel) :
    ∃ ioMgr task, task.Carries client.fd reply ∧ SameKeys client.fd client.ioMgr ioMgr ∧
      (∀ p, taskPack g.aes g.bz g.heaps.clientWork ioMgr task = .pack (some p) →
        ∃ client', g.receive client reply = some client' ∧ client'.ioMgr = ioMgr ∧
          client'.fd = client.fd ∧ epCertClientResult g.ofDouble client' 0 =
            securityResult g.ofDouble (p.data.length + 1) (epPackIteratorGet p)) ∧
      (∃ codes, enqueueAll g.fuel client.fd g.heaps.clientRead client.ioMgr (g.cut' reply) =
        some (ioMgr, codes, [task])) ∧
      (taskPack g.aes g.bz g.heaps.clientWork ioMgr task = .exits →
        g.receive client reply = none) := by
  have hshort := hanswer.short
  have hmax := hwait.maxCapacity
  obtain ⟨v, hview, hraw⟩ := registered_iff.mp hwait.registered
  -- the reply is too short for the ring buffer to outgrow an `int`
  have hint : v.WithinInt client.ioMgr.maxCapacity (g.cut' reply) :=
    IoView.withinInt_of_length (by rw [hraw, hcut, List.nil_append]; omega)
  obtain ⟨ioMgr, codes, task, henqueue, htask, hsame⟩ := enqueueAll_frame hview hraw
    (hanswer.built _ hwait.maxCapacity) hcut (by omega) hint
    (show reply.length < g.fuel by omega) g.heaps.clientRead
  refine ⟨ioMgr, task, htask, hsame, ?_, ⟨codes, henqueue⟩, ?_⟩
  · intro p hpack
    have hcategory : (⟨task.shell.proto.category⟩ : Category) = categoryInternalKey := by
      obtain ⟨-, hproto, -⟩ := epIoCombineShell_header hanswer.combine
        ⟨rfl, cells_copyIn_self _ _ _⟩ rfl rfl
      rw [htask.2.1, hanswer.reply_eq, hproto, EpShellProto.category_setCompress,
        hanswer.header.category]
    have hdisp : clientDisp { client with ioMgr := ioMgr } ⟨task.shell.proto.category⟩ task.fd
        (some p) = some ({ client with
          ioMgr := ioMgr
          handles := [⟨0, categoryInternalKey, .get, [some p]⟩] }, none) := by
      simp [clientDisp, hcategory, hwait.dispList, hwait.handles, epReqDefaultDispatcher]
    refine ⟨{ client with
      ioMgr := ioMgr
      handles := [⟨0, categoryInternalKey, .get, [some p]⟩] }, ?_, rfl, rfl, ?_⟩
    · simp only [Setting.receive, henqueue, Option.bind_eq_bind, Option.bind_some, processAll,
        epIoProcessor, hpack, hdisp]
    · simp [epCertClientResult, epReqWait]
  · intro hpack
    simp only [Setting.receive, henqueue, Option.bind_eq_bind, Option.bind_some, processAll,
      epIoProcessor, hpack, Option.bind_none]

/-- A result that is legible to the client is what it returns. -/
theorem receive_legible {g : Setting} {client : EpClient} {key : EpAesKey}
    {security frame : List UInt8} (hwait : Waiting g.aes g.bz client key security frame)
    {server : EpIoMgr} {sfd v : ℤ} {bs data reply : List UInt8} {shell net : EpShell}
    {out : EpBuffer}
    (hanswer : Answer g.aes g.bz g.heaps.serverWork server sfd data reply shell net out)
    (hdata : Finished (resultOps v) bs data) {k : EpAesKey}
    (hk : epIoGetAes server sfd = some k)
    (hlegible : Legible g.aes g.bz k key (server.frameFlag shell data.length)
      (behindBody (fun i => g.heaps.serverWork (i + 3)) (server.frameFlag shell data.length)
        ⟨copyIn (g.heaps.serverWork 2) 0 data, epAlignSize data.length, data.length⟩) data)
    (hcut : (g.cut' reply).flatten = reply) (hfuel : 1018 < g.fuel) :
    ∃ client', g.receive client reply = some client' ∧
      epIoGetAes client'.ioMgr client'.fd = some key ∧
      epCertClientResult g.ofDouble client' 0 = some (BitVec.ofInt 32 v).toInt := by
  obtain ⟨ioMgr, task, htask, hsame, hget, -⟩ := receive_eq hwait hanswer hcut hfuel
  have hrole : ioMgr.refor.peer = server.refor := by
    rw [hsame.refor, hwait.refor, hanswer.refor]
    rfl
  rw [hanswer.reply_eq] at htask
  have hpack := taskPack_eq hanswer.combine ⟨rfl, cells_copyIn_self _ _ _⟩ hdata
    (by rw [packTotal_resultOps]; decide) hrole (hsame.aes.trans hwait.holds)
    (fun _ => ⟨k, hk, hlegible⟩) htask g.heaps.clientWork
  obtain ⟨client', hreceive, hioMgr, hfd, hresult⟩ := hget _ hpack
  refine ⟨client', hreceive, ?_, ?_⟩
  · rw [hioMgr, hfd, hsame.aes, hwait.holds]
  · rw [hresult]
    exact securityResult_eq hdata rfl g.ofDouble _

/-! ## The handshake -/

/-- The handshake returns 1, and both parties have the key that the client has drawn. Every
capacity that holds the frames will do. -/
theorem handshake_agrees (g : Setting) (hcut : ∀ bs, (g.cut bs).flatten = bs)
    (hcut' : ∀ bs, (g.cut' bs).flatten = bs) (hfuel : 1018 < g.fuel) {service : EpIoMgr}
    (hrefor : service.refor = .server) (hdef : 0 < service.defCapacity)
    (hmax : service.defCapacity < service.maxCapacity) (hroom : 1024 ≤ service.maxCapacity)
    {sfd : ℤ} (hnew : epIoFind service sfd = none) {defCapacity maxCapacity : ℤ}
    (hdef' : 0 < defCapacity) (hmax' : defCapacity < maxCapacity) (hroom' : 1024 ≤ maxCapacity)
    (miniCompressIf : ℤ) {fd : ℤ} (hfd : fd ≠ -1) (random : Block) (pad : List UInt8) :
    ∃ server client, g.handshake (epIoAdd service sfd) sfd
        (.start defCapacity maxCapacity miniCompressIf fd) random pad = some (1, server, client) ∧
      epIoGetAes server sfd = some (epCertGenClientKey g.md5 random) ∧
      epIoGetAes client.ioMgr client.fd = some (epCertGenClientKey g.md5 random) := by
  obtain ⟨hview, hcap⟩ := epIoAdd_hasView hdef hmax hnew
  have hrefor' : (epIoAdd service sfd).refor = .server := by
    simp only [epIoAdd, hnew, hrefor]
  -- the request
  obtain ⟨client, security, inner, bs, frame, hhello, hwait, -, hshort, hlen, hdecrypt, hinner⟩ :=
    epCertClientHello_waits g.aes g.bz g.heaps.hello g.md5 g.rsa hdef' hmax' hroom' miniCompressIf
      hfd random pad
  -- the handler installs the key
  obtain ⟨server₁, bs₁, data, hsame, hdata, hserve⟩ := serve_eq hwait hview rfl hrefor'
    (hcut frame) (by omega)
    (IoView.withinInt_of_length (by rw [hcut, IoView.start, List.nil_append]; omega)) (by omega)
    (by rw [packTotal_securityOps, hlen]; decide)
  obtain ⟨old, hold⟩ := (registered_iff.mpr ⟨_, hview, rfl⟩).getAes
  have hold₁ := hsame.aes.trans hold
  have hverified := verifiedKey_honest (p := ⟨data, data.length, [], 0, true⟩) hdata hlen hdecrypt
    hinner (epCertVerifyClientKey_gen g.md5 random) g.heaps.handler
  obtain ⟨-, hinstalled, hrefor₂, -⟩ := epIoUpdateAes_eq hold₁ (epCertGenClientKey g.md5 random)
  obtain ⟨reply, bs₂, data', shell, net, out, hreply, hdata', hanswer⟩ := hserve _ 1
    (epCertServerSecurity_accepted hverified hold₁) ⟨_, hinstalled⟩
    (by rw [hrefor₂, hsame.refor, hrefor'])
  -- the reply comes back under the same key
  obtain ⟨client', hreceive, hholds, hresult⟩ := receive_legible hwait hanswer hdata' hinstalled
    (legible_self ..) (hcut' reply) hfuel
  refine ⟨_, client', ?_, hinstalled, hholds⟩
  have hflat : [reply].flatten = reply := by simp
  simp only [Setting.handshake, hhello, Option.bind_eq_bind, Option.bind_some, hreply, hflat,
    hreceive, hresult]
  rfl

/-- The document with one element. -/
def onePack (t : UInt8) (name : CString) (v : List UInt8) : List UInt8 :=
  let bs := estartBytes t name ++ v
  leBytes 4 (bs.length + 5) ++ (bs ++ [0])

/-! ## One handshake

The client draws `01 02 … 10`. The functions below have the values of MD5, of RSA with the keys
of the source and of AES on the inputs that occur in this handshake and in the refusal
further down; `samplePad` is what the padding has drawn. -/

def sampleRandom : Block := fun i => UInt8.ofNat (i + 1)

def sampleKey : EpAesKey where
  key := fun i => if i.val = 0 then 0 else UInt8.ofNat (i + 1)
  vec := blockOf
    [0xfe, 0xe2, 0x39, 0x6c, 0x58, 0xea, 0x3a, 0x41, 0x38, 0x86, 0x3d, 0x3e, 0x43, 0x88, 0xa9, 0x42]

def sampleMd5 (xs : List UInt8) : Block :=
  if xs = [0x10, 2, 0, 3, 4, 5, 6, 7, 8, 9, 0x0a, 0x0b, 0x0c, 0x0d, 0x0e, 0x0f] then sampleKey.vec
  else fun _ => 0

def samplePad : List UInt8 := List.replicate 68 0x5a

def sampleInner : List UInt8 :=
  let binary (name : CString) (b : Block) := estartBytes bsonBindata name ++
    (leBytes 4 16 ++ bsonBinBinary :: List.ofFn b)
  leBytes 4 57 ++ (binary keyKey sampleKey.key ++ binary vecKey sampleKey.vec ++ [0])

def sampleCipher : List UInt8 :=
  [0x60, 0x3d, 0xdd, 0xb5, 0xe1, 0xc3, 0xce, 0x68, 0x25, 0x84, 0xd9, 0x90, 0x8a, 0xc2, 0xa6, 0xd1,
   0xc7, 0x5a, 0xc1, 0xa1, 0x63, 0x32, 0xb5, 0x9e, 0x22, 0x58, 0x52, 0x77, 0x54, 0x29, 0x39, 0x33,
   0xa0, 0xf1, 0x2d, 0xba, 0x40, 0xaf, 0x24, 0x59, 0xeb, 0xd5, 0x6e, 0x5e, 0xad, 0x99, 0x45, 0xa2,
   0x8d, 0x54, 0xdd, 0x2b, 0x61, 0x60, 0x9f, 0x7f, 0xe4, 0xde, 0x62, 0x29, 0x04, 0x0a, 0x62, 0x30,
   0xbe, 0x4d, 0x9d, 0x7d, 0xa2, 0xa5, 0x1b, 0xf4, 0xfd, 0x98, 0x6d, 0x4e, 0xc6, 0xba, 0xa6, 0xc1,
   0xe9, 0x30, 0x7a, 0x52, 0x07, 0xb1, 0x4c, 0x75, 0xec, 0xbc, 0xba, 0xea, 0x5c, 0x9c, 0xf5, 0xfd,
   0x0a, 0x58, 0x82, 0x4e, 0x6b, 0xee, 0xd9, 0x45, 0x78, 0xa0, 0x04, 0x61, 0xdc, 0x5d, 0x71, 0xf1,
   0x2f, 0xc6, 0x3c, 0xf2, 0x8c, 0x18, 0x50, 0xd6, 0x52, 0x01, 0xb2, 0x1a, 0x4c, 0x07, 0xb7, 0x7a]

/-- Everywhere else the padding alone. -/
def padded (xs : List UInt8) : List UInt8 :=
  0 :: 2 :: (List.replicate (125 - xs.length) 0xff ++ 0 :: xs)

def sampleRsa : Rsa where
  publicEncrypt := fun pad xs =>
    if pad = samplePad ∧ xs = sampleInner then some sampleCipher
    else if xs.length ≤ 117 then some (padded xs) else none
  privateDecrypt := fun c =>
    if c = sampleCipher then some sampleInner
    else
      match c with
      | 0 :: 2 :: rest => some ((rest.dropWhile (· ≠ 0)).drop 1)
      | _ => none
  publicEncrypt_spec := by
    intro pad xs hlen
    by_cases hsample : pad = samplePad ∧ xs = sampleInner
    · exact ⟨sampleCipher, by rw [if_pos hsample], rfl, by rw [if_pos rfl, hsample.2]⟩
    · refine ⟨padded xs, by rw [if_neg hsample, if_pos hlen], by simp [padded]; omega, ?_⟩
      have hne : padded xs ≠ sampleCipher := fun h => by simp [padded, sampleCipher] at h
      rw [if_neg hne]
      simp [padded]

/-- `a` becomes `b`, and `b` becomes `c`. -/
def threeCycle (a b c : Block) : Equiv.Perm Block := (Equiv.swap b c).trans (Equiv.swap a b)

def acceptPlain : List UInt8 :=
  [0xef, 0xe2, 0x39, 0x6c, 0x48, 0x98, 0x5f, 0x32, 0x4d, 0xea, 0x49, 0x3e, 0x42, 0x88, 0xa9, 0x42]

def acceptCipher : List UInt8 :=
  [0xd7, 0xca, 0x6f, 0x99, 0xd2, 0xa1, 0xe0, 0xd4, 0x91, 0x12, 0xd5, 0x09, 0x00, 0xec, 0x82, 0xd6]

def acceptCipher' : List UInt8 :=
  [0x88, 0xf1, 0x47, 0x3f, 0x7e, 0x13, 0x9e, 0xc6, 0x53, 0x04, 0x30, 0xce, 0x69, 0x02, 0xd3, 0x45]

def refuseCipher : List UInt8 :=
  [0x48, 0x53, 0xf5, 0x8f, 0x6d, 0x33, 0x87, 0x07, 0xc0, 0xc2, 0x69, 0xf8, 0xf0, 0x91, 0x4e, 0x41]

def refuseCipher' : List UInt8 :=
  [0xcf, 0x3e, 0x8c, 0x17, 0x46, 0xd6, 0x7b, 0xae, 0x1e, 0x7f, 0xf2, 0x74, 0x6b, 0x4a, 0x8d, 0xb5]

def strayPlain : List UInt8 :=
  [0xfd, 0x1a, 0x9f, 0xd3, 0xdf, 0x33, 0x47, 0xcf, 0xdf, 0x7c, 0x55, 0xf6, 0xee, 0xbf, 0x74, 0x79]

def strayPlain' : List UInt8 :=
  [0x4a, 0xa3, 0x5a, 0x71, 0x8b, 0xed, 0xe1, 0x1e, 0xc6, 0x59, 0xed, 0x61, 0xd8, 0x53, 0x95, 0xb1]

/-- The answer `1` under the key of the client, the refusal under zeros, and what the client
makes of the two blocks of the refusal. Both answers end with a block of zeros. -/
def sampleAes : AesCipher := .ofPerm fun key =>
  if key = sampleKey.key then
    (threeCycle (blockOf acceptPlain) (blockOf acceptCipher) (blockOf acceptCipher')).trans
      ((Equiv.swap (blockOf strayPlain) (blockOf refuseCipher)).trans
        (Equiv.swap (blockOf strayPlain') (blockOf refuseCipher')))
  else
    threeCycle (blockOf (onePack bsonInt resultKey (leBytes 4 0xFFFFFFFF))) (blockOf refuseCipher)
      (blockOf refuseCipher')

def sampleSetting : Setting where
  aes := sampleAes
  bz := storedBz2
  md5 := sampleMd5
  rsa := sampleRsa
  ofDouble := fun _ => 0
  others := fun ioMgr _ _ _ => some (ioMgr, none)
  cut := fun bs => [bs.take 10, bs.drop 10]
  cut' := fun bs => [bs]
  fuel := 2000
  heaps := ⟨fun _ _ => 0, fun _ _ _ _ => 0, fun _ _ => 0, fun _ _ => 0, fun _ _ _ _ => 0,
    fun _ _ => 0⟩

def sampleService : EpIoMgr := ⟨.server, 4096, 4194304, 1024, []⟩

/-- The capacities are those of the application. -/
theorem handshake_agrees_sample :
    ∃ server client, sampleSetting.handshake (epIoAdd sampleService 7) 7
        (.start 4096 4194304 4096 5) sampleRandom samplePad = some (1, server, client) ∧
      epIoGetAes server 7 = some (epCertGenClientKey sampleMd5 sampleRandom) ∧
      epIoGetAes client.ioMgr client.fd = some (epCertGenClientKey sampleMd5 sampleRandom) :=
  handshake_agrees sampleSetting (by simp [sampleSetting]) (by simp [sampleSetting]) (by decide) rfl
    (by decide) (by decide) (by decide) rfl (by decide) (by decide) (by decide) 4096 (by decide)
    sampleRandom samplePad

end Youmenu.Eventpack
