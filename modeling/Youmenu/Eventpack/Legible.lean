import Youmenu.Eventpack.Io

/-!
# A frame under another key

The sender ciphers a body with the key that its own table has for a connection, and the
receiver deciphers it with the key that it has itself. Nothing in a frame says which key
was used. This module says exactly which bodies can be framed, and what a receiver makes of
a frame whose sender had another key.

## Main definitions

* `deciphered` — what the one key makes of the ciphertext of the other.
* `Legible` — the body comes out as it went in.
* `Framable` — the sizes on the way to a frame can be allocated.
* `EpPack`, `epBufferNew2` — a finished packet, and a buffer with its bytes.
-/

namespace Youmenu.Eventpack

open Circular

section Definitions

variable (aes : AesCipher) (bz : Bz2)

/-- The first `len` bytes of `m`, ciphered with `k` and deciphered with `k'`. Whole blocks
go through the cipher, so the bytes behind matter. -/
def deciphered (k k' : EpAesKey) (m : ℤ → UInt8) (len : ℕ) : List UInt8 :=
  let cipher := Cbc.encrypt xorBlock (aes.encrypt k.key) k.vec (blocks m (len / 16 + 1))
  let plain := Cbc.decrypt xorBlock (aes.decrypt k'.key) k'.vec cipher.1
  cells (storeBlocks m plain.1) 0 len

/-- What a receiver takes a byte string for, as the compression flag says. -/
def unpacked (flag : BitVec 3) (ys : List UInt8) : Option (List UInt8) :=
  if flag = compressTypeCompress then bz.decompress ys else some ys

/-- A holder of `k'` gets the body `xs` out of what a holder of `k` has made of it; `behind`
is what the chunk of the body held before. -/
def Legible (k k' : EpAesKey) (flag : BitVec 3) (behind : ℤ → UInt8) (xs : List UInt8) : Prop :=
  let ys := packed bz flag xs
  unpacked bz flag (deciphered aes k k' (copyIn behind 0 ys) ys.length) = some xs

instance (k k' : EpAesKey) (flag : BitVec 3) (behind : ℤ → UInt8) (xs : List UInt8) :
    Decidable (Legible aes bz k k' flag behind xs) :=
  inferInstanceAs (Decidable (_ = some xs))

/-- The compression flag of the frame: `auto` is decided by the size. -/
def resolveCompress (miniCompressIf : ℤ) (flag : BitVec 3) (size : ℤ) : BitVec 3 :=
  if flag = compressTypeAuto then
    if size > miniCompressIf then compressTypeCompress else compressTypeNone
  else flag

def EpIoMgr.frameFlag (ioMgr : EpIoMgr) (shell : EpShell) (size : ℤ) : BitVec 3 :=
  resolveCompress ioMgr.miniCompressIf (shell.proto.compressOf ioMgr.refor) size

/-- What the chunk of the body held before the body was copied into it. -/
def behindBody (fresh : ℕ → ℤ → UInt8) (flag : BitVec 3) (input : EpBuffer) : ℤ → UInt8 :=
  if flag = compressTypeCompress then fresh 0 else input.chunk

/-- The number of bytes that follow the header. -/
def wireLength (flag crypt : BitVec 3) (xs : List UInt8) : ℕ :=
  let n := (packed bz flag xs).length
  if crypt = cryptTypeEncrypt then (n / 16 + 1) * 16 else n

/-- The output area of the compressor and the frame have sizes that can be served. -/
structure Framable (flag crypt : BitVec 3) (xs : List UInt8) : Prop where
  area : flag = compressTypeCompress → epAlignSize ((xs.length : ℤ) * 101 / 100 + 600) ≤ intMax
  frame : (wireLength bz flag crypt xs : ℤ) + 34 ≤ 2 ^ 31

end Definitions

/-! ## Packets in buffers -/

/-- A finished packet; it starts with its own size. -/
structure EpPack where
  bytes : List UInt8
  five_le : 5 ≤ bytes.length
  size_eq : (BitVec.ofNat 32 (Bytes.word 4 bytes)).toInt = bytes.length

/-- `data` are the bytes of the packet after `ep_pack_finish`. -/
def epBufferNew2 (mem : ℤ → UInt8) (data : List UInt8) : Option EpBuffer :=
  epBufferNew mem (fun a => data.getD a.toNat 0) (BitVec.ofNat 32 (Bytes.word 4 data)).toInt

theorem cells_getD (xs : List UInt8) :
    cells (fun a : ℤ => xs.getD a.toNat 0) 0 xs.length = xs := by
  apply List.ext_getElem
  · simp
  · intro i _ hi
    simp [cells, hi]

/-- A buffer with the bytes of a list. -/
theorem epBufferNew_list (mem : ℤ → UInt8) {xs : List UInt8} (hpos : 0 < xs.length)
    (hfit : (xs.length : ℤ) ≤ 2 ^ 31 - 16) :
    ∃ b, epBufferNew mem (fun a => xs.getD a.toNat 0) xs.length = some b ∧ b.Holds xs := by
  have hsome := (epBufferNew_isSome_iff mem (fun a => xs.getD a.toNat 0) xs.length).mpr
    ⟨by omega, hfit⟩
  obtain ⟨b, hb⟩ := Option.isSome_iff_exists.mp hsome
  have hholds := epBufferNew_holds hb
  rw [Int.toNat_natCast, cells_getD] at hholds
  exact ⟨b, hb, hholds⟩

theorem epBufferNew2_eq (mem : ℤ → UInt8) (pack : EpPack) :
    epBufferNew2 mem pack.bytes =
      if (pack.bytes.length : ℤ) ≤ 2 ^ 31 - 16 then
        some ⟨copyIn mem 0 pack.bytes, epAlignSize pack.bytes.length, pack.bytes.length⟩
      else none := by
  have hfive := pack.five_le
  have hsome := epBufferNew_isSome_iff mem (fun a => pack.bytes.getD a.toNat 0) pack.bytes.length
  unfold epBufferNew2
  rw [pack.size_eq]
  split_ifs with hfit
  · have hmalloc := epMalloc_of_fits mem (epAlignSize pack.bytes.length)
      (by unfold epAlignSize; omega) (by unfold epAlignSize intMax; omega)
    simp only [epBufferNew, hmalloc, Int.toNat_natCast, cells_getD]
  · have hnone : ¬ (epBufferNew mem (fun a => pack.bytes.getD a.toNat 0)
        pack.bytes.length).isSome := fun h => hfit (hsome.mp h).2
    simpa using hnone

variable {aes : AesCipher} {bz : Bz2} {fresh : ℕ → ℤ → UInt8}

/-! ## Ciphering -/

/-- Ciphering fails only on a size that cannot be served. -/
theorem epBufferEncrypt_isSome_iff (aes : AesCipher) {b : EpBuffer} (hu : 0 ≤ b.used)
    (mem : ℤ → UInt8)
    (k : EpAesKey) : (epBufferEncrypt aes mem b k).1.isSome ↔ cryptLen b.used ≤ intMax := by
  have hpos : 0 < cryptLen b.used := by rw [cryptLen_eq hu]; omega
  by_cases hfit : cryptLen b.used ≤ intMax
  · simp [epBufferEncrypt, epCryptAes, epMalloc_of_fits mem _ hpos hfit, hfit]
  · have hnone : epMalloc mem (cryptLen b.used) = none := by
      rw [epMalloc, if_neg fun h => hfit h.2]
    simp [epBufferEncrypt, epCryptAes, hnone, hfit]

theorem epBufferEncrypt_used {b e : EpBuffer} {mem : ℤ → UInt8} {k : EpAesKey}
    (h : (epBufferEncrypt aes mem b k).1 = some e) : e.used = cryptLen b.used := by
  unfold epBufferEncrypt epCryptAes at h
  cases hm : epMalloc mem (cryptLen b.used) with
  | none => simp [hm] at h
  | some out =>
    simp only [hm, Option.some.injEq] at h
    rw [← h]

/-- Deciphering succeeds under any key; the blocks it leaves are those of the mode. -/
theorem epBufferDecrypt_eq_some (aes : AesCipher) {r : EpBuffer} {n : ℕ} (hr : r.used = 16 * n)
    (hfit : r.used + 16 ≤ intMax) (mem : ℤ → UInt8) (k : EpAesKey) (size : ℤ) :
    ∃ d, (epBufferDecrypt aes mem r k size).1 = some d ∧ d.used = size ∧
      blocks d.chunk n =
        (Cbc.decrypt xorBlock (aes.decrypt k.key) k.vec (blocks r.chunk n)).1 := by
  have hlen : cryptLen r.used = 16 * (n + 1) := by rw [cryptLen_eq (by omega)]; omega
  have hdiv : (cryptLen r.used / 16).toNat = n + 1 := by omega
  have hmalloc := epMalloc_of_fits mem (cryptLen r.used) (by omega) (by omega)
  refine ⟨⟨(aesCbcEncrypt aes r.chunk mem (cryptLen r.used) k.key k.vec false).1,
    cryptLen r.used, size⟩, by simp only [epBufferDecrypt, epCryptAes, hmalloc], rfl, ?_⟩
  simp only [aesCbcEncrypt, hdiv, Bool.false_eq_true, if_false]
  rw [blocks_storeBlocks _ (by simp), blocks_add]
  have hfront := Cbc.take_decrypt_append xorBlock (aes.decrypt k.key) k.vec (blocks r.chunk n)
    (blocks (fun a => r.chunk (16 * n + a)) 1)
  rwa [length_blocks] at hfront

@[simp] theorem length_deciphered (k k' : EpAesKey) (m : ℤ → UInt8) (len : ℕ) :
    (deciphered aes k k' m len).length = len := by simp [deciphered]

/-- A buffer with the ciphertext deciphers to `deciphered`, whatever the key. -/
theorem epBufferDecrypt_deciphered {b e r : EpBuffer} {k : EpAesKey} {mem : ℤ → UInt8}
    {len : ℕ} (hused : b.used = len) (he : (epBufferEncrypt aes mem b k).1 = some e)
    (hr : r.Holds (cells e.chunk 0 e.used.toNat)) (hfit : e.used + 16 ≤ intMax)
    (k' : EpAesKey) (mem' : ℤ → UInt8) :
    ∃ d, (epBufferDecrypt aes mem' r k' len).1 = some d ∧
      d.Holds (deciphered aes k k' b.chunk len) := by
  obtain ⟨n, hn, -, -, -, hblocks⟩ := epBufferEncrypt_eq_some he (by omega)
  obtain rfl : n = len / 16 + 1 := by
    have hcrypt := epBufferEncrypt_used he
    rw [cryptLen_eq (by omega)] at hcrypt
    omega
  have h16 : e.used.toNat = 16 * (len / 16 + 1) := by omega
  rw [h16] at hr
  have hru : r.used = 16 * ((len / 16 + 1 : ℕ) : ℤ) := by rw [hr.used_eq]; simp
  have hcells : cells r.chunk 0 (16 * (len / 16 + 1)) = cells e.chunk 0 (16 * (len / 16 + 1)) := by
    simpa using hr.cells_eq
  obtain ⟨d, hd, hdu, hplain⟩ := epBufferDecrypt_eq_some aes hru (by omega) mem' k' len
  rw [blocks_eq_iff.mpr hcells, hblocks] at hplain
  refine ⟨d, hd, by simpa using hdu, ?_⟩
  have hstore : blocks d.chunk (len / 16 + 1) = blocks (storeBlocks b.chunk
      (Cbc.decrypt xorBlock (aes.decrypt k'.key) k'.vec
        (Cbc.encrypt xorBlock (aes.encrypt k.key) k.vec (blocks b.chunk (len / 16 + 1))).1).1)
      (len / 16 + 1) := by
    rw [hplain, blocks_storeBlocks _ (by simp), List.take_of_length_le (by simp)]
  rw [length_deciphered, deciphered, ← take_cells d.chunk 0 (by omega : len ≤ 16 * (len / 16 + 1)),
    blocks_eq_iff.mp hstore, take_cells _ _ (by omega)]

/-- The same key finds what was there. -/
theorem deciphered_self (k : EpAesKey) (m : ℤ → UInt8) (len : ℕ) :
    deciphered aes k k m len = cells m 0 len := by
  have hplain := Cbc.decrypt_encrypt_append xorBlock (aes.decrypt_encrypt k.key) xorBlock_xorBlock
    k.vec (blocks m (len / 16 + 1)) []
  rw [List.append_nil, List.take_of_length_le (by simp)] at hplain
  have hstore : blocks (storeBlocks m (blocks m (len / 16 + 1))) (len / 16 + 1) =
      blocks m (len / 16 + 1) := by
    rw [blocks_storeBlocks _ (by simp), List.take_of_length_le (by simp)]
  simp only [deciphered, hplain]
  rw [← take_cells _ 0 (by omega : len ≤ 16 * (len / 16 + 1)), blocks_eq_iff.mp hstore,
    take_cells _ _ (by omega)]

@[simp] theorem unpacked_packed (flag : BitVec 3) (xs : List UInt8) :
    unpacked bz flag (packed bz flag xs) = some xs := by
  unfold unpacked packed
  split_ifs
  · exact bz.decompress_compress xs
  · rfl

/-- With equal keys every body is legible. -/
theorem legible_self (k : EpAesKey) (flag : BitVec 3) (behind : ℤ → UInt8) (xs : List UInt8) :
    Legible aes bz k k flag behind xs := by
  simp only [Legible, deciphered_self, cells_copyIn_self, unpacked_packed]

/-! ## Compression -/

@[simp] theorem EpShellProto.setCompress_self (p : EpShellProto) (r : EpIoRefor) :
    p.setCompress (p.compressOf r) r = p := by cases r <;> rfl

/-- The compression step with the flag decided beforehand. -/
theorem combineCompress_eq (bz : Bz2) (fresh : ℕ → ℤ → UInt8) (ioMgr : EpIoMgr) (shell : EpShell)
    (b : EpBuffer) :
    let flag := ioMgr.frameFlag shell b.used
    let shell' := { shell with proto := shell.proto.setCompress flag ioMgr.refor }
    combineCompress bz fresh ioMgr shell b =
      if flag = compressTypeCompress then
        (epBufferCompress bz (fresh 0) b).map fun c => (shell', c)
      else some (shell', b) := by
  have hauto : compressTypeAuto ≠ compressTypeCompress := by decide
  have hnone : compressTypeNone ≠ compressTypeCompress := by decide
  have hself := shell.proto.setCompress_self ioMgr.refor
  by_cases hcompress : shell.proto.compressOf ioMgr.refor = compressTypeCompress
  · rw [hcompress] at hself
    simp [combineCompress, EpIoMgr.frameFlag, resolveCompress, hcompress, hauto.symm, hself]
  · by_cases hflag : shell.proto.compressOf ioMgr.refor = compressTypeAuto
    · by_cases hbig : b.used > ioMgr.miniCompressIf <;>
        simp [combineCompress, EpIoMgr.frameFlag, resolveCompress, hflag, hbig, hauto, hnone]
    · simp [combineCompress, EpIoMgr.frameFlag, resolveCompress, hcompress, hflag]

theorem epBufferCompress_eq {b : EpBuffer} {xs : List UInt8} (hb : b.Holds xs)
    (mem : ℤ → UInt8) :
    epBufferCompress bz mem b =
      if epAlignSize ((xs.length : ℤ) * 101 / 100 + 600) ≤ intMax then
        some ⟨copyIn mem 0 (bz.compress xs), epAlignSize ((xs.length : ℤ) * 101 / 100 + 600),
          (bz.compress xs).length⟩
      else none := by
  have hbound := bz.length_compress_le xs
  have hsrc : cells b.chunk 0 b.used.toNat = xs := hb.bytes_eq
  have hroom : ((bz.compress xs).length : ℤ) ≤
      epAlignSize ((xs.length : ℤ) * 101 / 100 + 600) := by unfold epAlignSize; omega
  have hpos : 0 < epAlignSize ((xs.length : ℤ) * 101 / 100 + 600) := by unfold epAlignSize; omega
  unfold epBufferCompress epCompress
  simp only [hsrc]
  rw [hb.used_eq]
  split_ifs with hfit
  · rw [epMalloc_of_fits mem _ hpos hfit, List.take_of_length_le (by omega), min_eq_left hroom]
  · rw [epMalloc, if_neg fun h => hfit h.2]

/-- A receiver gets `xs` exactly if that is what the flag makes of its bytes. -/
theorem recombineDecompress_iff {rcv : EpIoMgr} {shell : EpShell} {d : EpBuffer}
    {xs zs : List UInt8} (hd : d.Holds zs) (hpos : 0 < xs.length)
    (hsize : shell.packSize.toInt = xs.length)
    (hfit : shell.proto.compressOf rcv.refor.peer = compressTypeCompress →
      epAlignSize xs.length ≤ intMax) :
    (∃ o, recombineDecompress bz fresh rcv shell d = some o ∧ o.Holds xs) ↔
      unpacked bz (shell.proto.compressOf rcv.refor.peer) zs = some xs := by
  have hsrc : cells d.chunk 0 d.used.toNat = zs := hd.bytes_eq
  unfold recombineDecompress unpacked
  split_ifs with hflag
  · have hmalloc := epMalloc_of_fits (fresh 1) (epAlignSize xs.length)
      (by have := le_epAlignSize xs.length; omega) (hfit hflag)
    simp only [epBufferDecompress, epDecompress, hsize, hmalloc, hsrc]
    cases hplain : bz.decompress zs with
    | none => simp
    | some plain =>
      by_cases hlen : (xs.length : ℤ) = plain.length
      · -- the lengths agree, so the area holds the plain bytes and nothing else
        simp only [hlen, if_true, Option.some.injEq, exists_eq_left']
        constructor
        · intro ho
          have hcells := ho.cells_eq
          rw [Int.natCast_inj.mp hlen, cells_copyIn_self] at hcells
          exact hcells
        · rintro rfl
          exact ⟨rfl, cells_copyIn_self _ _ _⟩
      · simp only [hlen, if_false, reduceCtorEq, false_and, exists_false, Option.some.injEq,
          false_iff]
        rintro rfl
        exact hlen rfl
  · simp only [Option.some.injEq, exists_eq_left']
    constructor
    · intro ho
      rw [← hd.bytes_eq, ho.bytes_eq]
    · rintro rfl
      exact hd

/-! ## Frames -/

theorem EpBuffer.Holds.copyIn_chunk {b : EpBuffer} {xs : List UInt8} (h : b.Holds xs) :
    copyIn b.chunk 0 xs = b.chunk := by
  have hself := copyIn_cells b.chunk 0 xs.length
  rwa [h.cells_eq] at hself

theorem combineCompress_chunk {ioMgr : EpIoMgr} {shell shell' : EpShell} {b c : EpBuffer}
    {xs : List UInt8} {flag : BitVec 3}
    (h : combineCompress bz fresh ioMgr shell b = some (shell', c)) (hb : b.Holds xs)
    (hflag : ioMgr.frameFlag shell b.used = flag) :
    shell' = { shell with proto := shell.proto.setCompress flag ioMgr.refor } ∧
      c.used = (packed bz flag xs).length ∧
      c.chunk = copyIn (behindBody fresh flag b) 0 (packed bz flag xs) := by
  have heq := combineCompress_eq bz fresh ioMgr shell b
  simp only [hflag] at heq
  rw [heq] at h
  unfold packed behindBody
  split_ifs at h ⊢
  · rw [epBufferCompress_eq hb] at h
    split_ifs at h
    · obtain ⟨rfl, rfl⟩ := Prod.mk.inj (Option.some.inj h)
      exact ⟨rfl, rfl, rfl⟩
    · cases h
  · obtain ⟨rfl, rfl⟩ := Prod.mk.inj (Option.some.inj h)
    exact ⟨rfl, hb.used_eq, hb.copyIn_chunk.symm⟩

theorem combineCompress_isSome_iff (bz : Bz2) (fresh : ℕ → ℤ → UInt8) {ioMgr : EpIoMgr}
    {shell : EpShell} {b : EpBuffer} {xs : List UInt8} {flag : BitVec 3}
    (hflag : ioMgr.frameFlag shell b.used = flag) (hb : b.Holds xs) :
    (combineCompress bz fresh ioMgr shell b).isSome ↔
      (flag = compressTypeCompress → epAlignSize ((xs.length : ℤ) * 101 / 100 + 600) ≤ intMax) := by
  have heq := combineCompress_eq bz fresh ioMgr shell b
  simp only [hflag] at heq
  rw [heq, epBufferCompress_eq hb]
  by_cases hcompress : flag = compressTypeCompress
  · simp only [hcompress, if_true, Option.isSome_map, forall_const]
    split_ifs with hfit <;> simp [hfit]
  · simp [hcompress]

theorem combineFrame_isSome_iff (shell : EpShell) (m : ℤ → UInt8) (n : ℕ) :
    (combineFrame fresh shell m n).isSome ↔ (n : ℤ) + 34 ≤ 2 ^ 31 := by
  unfold combineFrame
  by_cases hfit : ((sizeofEpShell : ℤ) + n + 1) ≤ intMax
  · have hpos : (0 : ℤ) < sizeofEpShell + n + 1 := by omega
    simp only [epMalloc_of_fits (fresh 2) _ hpos hfit, Option.isSome_map, epBufferNew_isSome_iff]
    unfold sizeofEpShell
    omega
  · have hnone : epMalloc (fresh 2) (sizeofEpShell + n + 1) = none := by
      rw [epMalloc, if_neg fun h => hfit h.2]
    unfold intMax sizeofEpShell at hfit
    simp only [hnone, Option.isSome_none, Bool.false_eq_true, false_iff]
    omega

section Frame

variable {ioMgr : EpIoMgr} {fd : ℤ} {shell : EpShell} {b : EpBuffer} {xs : List UInt8}
  {flag crypt : BitVec 3}

theorem length_packed_pos (bz : Bz2) (flag : BitVec 3) (hpos : 0 < xs.length) :
    0 < (packed bz flag xs).length := by
  unfold packed
  split_ifs
  · exact List.length_pos_iff.mpr (bz.compress_ne_nil xs)
  · exact hpos

theorem packed_le_wireLength (bz : Bz2) (flag crypt : BitVec 3) (xs : List UInt8) :
    (packed bz flag xs).length ≤ wireLength bz flag crypt xs := by
  simp only [wireLength]
  split_ifs <;> omega

/-- The sizes that go into the header are those of the body. -/
theorem Framable.sizes (h : Framable bz flag crypt xs) :
    (xs.length : ℤ) ≤ intMax ∧ ((packed bz flag xs).length : ℤ) ≤ intMax ∧
      (flag = compressTypeCompress → epAlignSize xs.length ≤ intMax) := by
  have hle := packed_le_wireLength bz flag crypt xs
  have hfits := h.frame
  have hpacked : ((packed bz flag xs).length : ℤ) ≤ intMax := by unfold intMax; omega
  have harea : flag = compressTypeCompress → epAlignSize xs.length ≤ intMax := by
    intro hflag
    have hbig := h.area hflag
    unfold epAlignSize at hbig ⊢
    omega
  refine ⟨?_, hpacked, harea⟩
  by_cases hflag : flag = compressTypeCompress
  · exact (le_epAlignSize _).trans (harea hflag)
  · rwa [packed, if_neg hflag] at hpacked

/-- The encryption step makes a body of `wireLength` bytes, or fails. -/
theorem combineEncrypt_isSome_iff (aes : AesCipher) (fresh : ℕ → ℤ → UInt8) (ioMgr : EpIoMgr)
    (fd : ℤ) (crypt : BitVec 3) {c : EpBuffer} (hc : c.used = (packed bz flag xs).length) :
    (combineEncrypt aes fresh ioMgr fd crypt c).isSome ↔
      (crypt = cryptTypeEncrypt → (epIoGetAes ioMgr fd).isSome ∧
        (wireLength bz flag crypt xs : ℤ) ≤ intMax) := by
  unfold combineEncrypt wireLength
  split_ifs with hcrypt
  · have hlen : cryptLen c.used = (((packed bz flag xs).length / 16 + 1) * 16 : ℕ) := by
      rw [cryptLen_eq (by omega)]; omega
    cases hkey : epIoGetAes ioMgr fd with
    | none => simp [hcrypt]
    | some key =>
      have hsome := epBufferEncrypt_isSome_iff aes (b := c) (by omega) (fresh 1) key
      rw [hlen] at hsome
      simpa [hcrypt] using hsome
  · simp [hcrypt]

theorem combineEncrypt_used {c e : EpBuffer} (hc : c.used = (packed bz flag xs).length)
    (h : combineEncrypt aes fresh ioMgr fd crypt c = some e) :
    e.used = wireLength bz flag crypt xs := by
  unfold combineEncrypt at h
  simp only [wireLength]
  split_ifs at h ⊢ with hcrypt
  · cases hkey : epIoGetAes ioMgr fd with
    | none => simp [hkey] at h
    | some key =>
      rw [hkey] at h
      rw [epBufferEncrypt_used h, cryptLen_eq (by omega)]
      omega
  · cases h
    exact hc

/-- A frame can be built exactly if its sizes can be served and, for an encrypted one, the
connection is there. -/
theorem epIoCombineShell_isSome_iff (aes : AesCipher) (bz : Bz2) (fresh : ℕ → ℤ → UInt8) (fd : ℤ)
    (hb : b.Holds xs) (hflag : ioMgr.frameFlag shell b.used = flag)
    (hcrypt : shell.proto.cryptOf ioMgr.refor = crypt) :
    (epIoCombineShell aes bz fresh ioMgr fd shell (some b)).2.isSome ↔
      Framable bz flag crypt xs ∧
        (crypt = cryptTypeEncrypt → (epIoGetAes ioMgr fd).isSome) := by
  have hflag' : ioMgr.frameFlag { shell with packSize := BitVec.ofInt 32 b.used } b.used = flag :=
    hflag
  have harea := combineCompress_isSome_iff bz fresh hflag' hb
  simp only [epIoCombineShell, hcrypt]
  cases hcompress : combineCompress bz fresh ioMgr
    { shell with packSize := BitVec.ofInt 32 b.used } b with
  | none =>
    rw [hcompress] at harea
    simp only [Option.bind_eq_bind, Option.bind_none, Option.isSome_none, Bool.false_eq_true,
      false_iff] at harea ⊢
    exact fun h => harea h.1.area
  | some r =>
    obtain ⟨shell₁, c⟩ := r
    rw [hcompress] at harea
    obtain ⟨-, hc, -⟩ := combineCompress_chunk hcompress hb hflag'
    have hsome := combineEncrypt_isSome_iff aes fresh ioMgr fd crypt hc
    simp only [Option.bind_eq_bind, Option.bind_some]
    cases hencrypt : combineEncrypt aes fresh ioMgr fd crypt c with
    | none =>
      rw [hencrypt] at hsome
      simp only [Option.bind_none, Option.isSome_none, Bool.false_eq_true, false_iff] at hsome ⊢
      rintro ⟨hframable, hkey⟩
      have hfits := hframable.frame
      exact hsome fun hc => ⟨hkey hc, by unfold intMax; omega⟩
    | some e =>
      rw [hencrypt] at hsome
      rw [Option.bind_some, combineEncrypt_used hc hencrypt, combineFrame_isSome_iff]
      constructor
      · intro hfits
        exact ⟨⟨harea.mp rfl, hfits⟩, fun hc => (hsome.mp rfl hc).1⟩
      · exact fun h => h.1.frame

/-- The header of a frame says what was asked for, with the compression decided. -/
theorem epIoCombineShell_header {net : EpShell} {out : EpBuffer}
    (h : (epIoCombineShell aes bz fresh ioMgr fd shell (some b)).2 = some (net, out))
    (hb : b.Holds xs) (hflag : ioMgr.frameFlag shell b.used = flag)
    (hcrypt : shell.proto.cryptOf ioMgr.refor = crypt) :
    let hdr := (EpShell.ofBytes out.bytes).toHost
    hdr.magic = shell.magic ∧ hdr.proto = shell.proto.setCompress flag ioMgr.refor ∧
      hdr.shellSize.toInt = wireLength bz flag crypt xs ∧
      out.bytes.length = sizeofEpShell + wireLength bz flag crypt xs := by
  have hfits := ((epIoCombineShell_isSome_iff aes bz fresh fd hb hflag hcrypt).mp
    (by rw [h]; rfl)).1.frame
  simp only [epIoCombineShell, hcrypt] at h
  obtain ⟨⟨shell₁, c⟩, hcompress, h⟩ := Option.bind_eq_some_iff.mp h
  obtain ⟨e, hencrypt, h⟩ := Option.bind_eq_some_iff.mp h
  obtain ⟨rfl, hused, -⟩ := combineCompress_chunk hcompress hb hflag
  have heused := combineEncrypt_used hused hencrypt
  have hwire : cells e.chunk 0 (cells e.chunk 0 (wireLength bz flag crypt xs)).length =
      cells e.chunk 0 (wireLength bz flag crypt xs) := by rw [length_cells]
  have hwlen : e.used = (cells e.chunk 0 (wireLength bz flag crypt xs)).length := by
    rw [length_cells, heused]
  rw [hwlen] at h
  obtain ⟨hnet, hout, -⟩ := combineFrame_spec hwire h
  rw [length_cells] at hnet
  simp only
  rw [hout.bytes_eq, EpShell.ofBytes_append, List.length_append, EpShell.length_bytes, length_cells,
    hnet, EpShell.toHost_toNetwork]
  exact ⟨rfl, rfl, toInt_ofInt_of_fits (by omega) (by unfold intMax; omega), rfl⟩

/-- What the receiver has before it decompresses: the packed body, or what its own key makes of
the ciphertext. -/
theorem epIoRecombineOriginal_eq {net : EpShell} {out : EpBuffer}
    (h : (epIoCombineShell aes bz fresh ioMgr fd shell (some b)).2 = some (net, out))
    (hb : b.Holds xs) (hflag : ioMgr.frameFlag shell b.used = flag)
    (hcrypt : shell.proto.cryptOf ioMgr.refor = crypt)
    {rcv : EpIoMgr} (hrole : rcv.refor.peer = ioMgr.refor) {rfd : ℤ} {k' : EpAesKey}
    (hkey' : epIoGetAes rcv rfd = some k') {r : EpBuffer}
    (hr : r.Holds (out.bytes.drop sizeofEpShell)) (fresh' : ℕ → ℤ → UInt8) :
    ∃ hdr d zs,
      (epIoRecombineOriginal aes bz fresh' rcv rfd (EpShell.ofBytes out.bytes).toHost r).2 =
        recombineDecompress bz fresh' rcv hdr d ∧
      hdr.proto.compressOf rcv.refor.peer = flag ∧ hdr.packSize.toInt = xs.length ∧ d.Holds zs ∧
      (if crypt = cryptTypeEncrypt then ∃ k, epIoGetAes ioMgr fd = some k ∧
        zs = deciphered aes k k' (copyIn (behindBody fresh flag b) 0 (packed bz flag xs))
          (packed bz flag xs).length
      else zs = packed bz flag xs) := by
  obtain ⟨hframable, -⟩ :=
    (epIoCombineShell_isSome_iff aes bz fresh fd hb hflag hcrypt).mp (by rw [h]; rfl)
  simp only [epIoCombineShell, hcrypt] at h
  obtain ⟨⟨shell₁, c⟩, hcompress, h⟩ := Option.bind_eq_some_iff.mp h
  obtain ⟨e, hencrypt, h⟩ := Option.bind_eq_some_iff.mp h
  obtain ⟨rfl, hused, hchunk⟩ := combineCompress_chunk hcompress hb hflag
  have heused := combineEncrypt_used hused hencrypt
  have hwire : cells e.chunk 0 (cells e.chunk 0 e.used.toNat).length =
      cells e.chunk 0 e.used.toNat := by rw [length_cells]
  have hwlen : e.used = (cells e.chunk 0 e.used.toNat).length := by rw [length_cells]; omega
  rw [hwlen] at h
  obtain ⟨hnet, hout, -⟩ := combineFrame_spec hwire h
  rw [hout.bytes_eq, List.drop_left' net.length_bytes] at hr
  rw [hout.bytes_eq, EpShell.ofBytes_append, hnet, EpShell.toHost_toNetwork]
  obtain ⟨hxs, hys, -⟩ := hframable.sizes
  have hfits := hframable.frame
  generalize hhdr : EpShell.mk _ _ _ _ _ = hdr
  have hcompressOf : hdr.proto.compressOf rcv.refor.peer = flag := by rw [← hhdr, hrole]; simp
  have hcryptOf : hdr.proto.cryptOf rcv.refor.peer = crypt := by
    rw [← hhdr, hrole, ← hcrypt]; simp
  have hpackSize : hdr.packSize.toInt = xs.length := by
    rw [← hhdr, ← hb.used_eq]
    exact toInt_ofInt_of_fits (by rw [hb.used_eq]; omega) (by rw [hb.used_eq]; exact hxs)
  have hdecryptSize : hdr.decryptSize.toInt = (packed bz flag xs).length := by
    have hsize := toInt_ofInt_of_fits (n := c.used) (by omega) (by omega)
    rw [← hhdr, ← hused]
    exact hsize
  suffices hd : ∃ d zs, recombineDecrypt aes fresh' rcv rfd hdr r = some d ∧ d.Holds zs ∧
      (if crypt = cryptTypeEncrypt then ∃ k, epIoGetAes ioMgr fd = some k ∧
        zs = deciphered aes k k' (copyIn (behindBody fresh flag b) 0 (packed bz flag xs))
          (packed bz flag xs).length
      else zs = packed bz flag xs) by
    obtain ⟨d, zs, hd, hholds, hzs⟩ := hd
    refine ⟨hdr, d, zs, ?_, hcompressOf, hpackSize, hholds, hzs⟩
    simp only [epIoRecombineOriginal, hd, Option.bind_eq_bind, Option.bind_some]
  unfold recombineDecrypt
  unfold combineEncrypt at hencrypt
  rw [hcryptOf, hkey', hdecryptSize]
  split_ifs at hencrypt ⊢ with henc
  · cases hkey : epIoGetAes ioMgr fd with
    | none => simp [hkey] at hencrypt
    | some k =>
      rw [hkey] at hencrypt
      obtain ⟨d, hd, hholds⟩ := epBufferDecrypt_deciphered hused hencrypt hr
        (by unfold intMax; omega) k' (fresh' 0)
      exact ⟨d, _, hd, hholds, k, rfl, by rw [hchunk]⟩
  · cases hencrypt
    have hpacked : cells c.chunk 0 c.used.toNat = packed bz flag xs := by
      rw [hchunk, hused, Int.toNat_natCast, cells_copyIn_self]
    exact ⟨r, _, rfl, hpacked ▸ hr, rfl⟩

/-- Whatever key the receiver has, it gets the body exactly if the frame is not encrypted or
the body is legible to it. -/
theorem epIoRecombineOriginal_iff {net : EpShell} {out : EpBuffer}
    (h : (epIoCombineShell aes bz fresh ioMgr fd shell (some b)).2 = some (net, out))
    (hb : b.Holds xs) (hpos : 0 < xs.length) (hflag : ioMgr.frameFlag shell b.used = flag)
    (hcrypt : shell.proto.cryptOf ioMgr.refor = crypt)
    {rcv : EpIoMgr} (hrole : rcv.refor.peer = ioMgr.refor) {rfd : ℤ} {k' : EpAesKey}
    (hkey' : epIoGetAes rcv rfd = some k') {r : EpBuffer}
    (hr : r.Holds (out.bytes.drop sizeofEpShell)) (fresh' : ℕ → ℤ → UInt8) :
    (∃ o, (epIoRecombineOriginal aes bz fresh' rcv rfd (EpShell.ofBytes out.bytes).toHost r).2 =
        some o ∧ o.Holds xs) ↔
      (crypt = cryptTypeEncrypt → ∃ k, epIoGetAes ioMgr fd = some k ∧
        Legible aes bz k k' flag (behindBody fresh flag b) xs) := by
  obtain ⟨hframable, -⟩ :=
    (epIoCombineShell_isSome_iff aes bz fresh fd hb hflag hcrypt).mp (by rw [h]; rfl)
  obtain ⟨-, -, halign⟩ := hframable.sizes
  obtain ⟨hdr, d, zs, hrecombine, hcompressOf, hpackSize, hholds, hzs⟩ :=
    epIoRecombineOriginal_eq h hb hflag hcrypt hrole hkey' hr fresh'
  rw [hrecombine, recombineDecompress_iff hholds hpos hpackSize (by rwa [hcompressOf]),
    hcompressOf]
  by_cases henc : crypt = cryptTypeEncrypt
  · rw [if_pos henc] at hzs
    obtain ⟨k, hk, rfl⟩ := hzs
    simp [henc, hk, Legible]
  · rw [if_neg henc] at hzs
    simp [henc, hzs]

/-- A receiver of an encrypted frame that is not compressed goes on with what its key makes of
the ciphertext. -/
theorem epIoRecombineOriginal_deciphered {net : EpShell} {out : EpBuffer}
    (h : (epIoCombineShell aes bz fresh ioMgr fd shell (some b)).2 = some (net, out))
    (hb : b.Holds xs) (hflag : ioMgr.frameFlag shell b.used ≠ compressTypeCompress)
    (hcrypt : shell.proto.cryptOf ioMgr.refor = cryptTypeEncrypt)
    {rcv : EpIoMgr} (hrole : rcv.refor.peer = ioMgr.refor) {k k' : EpAesKey}
    (hkey : epIoGetAes ioMgr fd = some k) {rfd : ℤ} (hkey' : epIoGetAes rcv rfd = some k')
    {r : EpBuffer} (hr : r.Holds (out.bytes.drop sizeofEpShell)) (fresh' : ℕ → ℤ → UInt8) :
    ∃ o, (epIoRecombineOriginal aes bz fresh' rcv rfd (EpShell.ofBytes out.bytes).toHost r).2 =
      some o ∧ o.Holds (deciphered aes k k' b.chunk xs.length) := by
  obtain ⟨hdr, d, zs, hrecombine, hcompressOf, -, hholds, hzs⟩ :=
    epIoRecombineOriginal_eq h hb rfl hcrypt hrole hkey' hr fresh'
  have hpacked : packed bz (ioMgr.frameFlag shell b.used) xs = xs := if_neg hflag
  have hbehind : behindBody fresh (ioMgr.frameFlag shell b.used) b = b.chunk := if_neg hflag
  rw [if_pos rfl, hpacked, hbehind, hb.copyIn_chunk] at hzs
  obtain ⟨k₁, hk₁, rfl⟩ := hzs
  rw [hkey] at hk₁
  cases hk₁
  refine ⟨d, ?_, hholds⟩
  rw [hrecombine, recombineDecompress, hcompressOf, if_neg hflag]

end Frame

end Youmenu.Eventpack
