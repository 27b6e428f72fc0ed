import Youmenu.Lib.Cbc
import Youmenu.Lib.Circular

/-!
# Buffers, ciphering and compression

`ep_buffer_t` is a heap chunk with a used length. The cipher reads whole blocks,
so it also reads bytes behind the used part, and in general behind the
allocation: a chunk is therefore a total memory, of which only the used part is
known. The block cipher and the compressor are parameters; `AesCipher` and `Bz2`
state what their documentation promises.

## Main definitions

* `epMalloc`, `epAlignSize`, `epBufferNew` — allocation.
* `epCryptAes`, `epBufferEncrypt`, `epBufferDecrypt` — chaining over whole blocks.
* `epCompress`, `epDecompress`, `epBufferCompress`, `epBufferDecompress`.
* `EpBuffer.Holds` — the used part of a buffer is a given byte string.
-/

namespace Youmenu.Eventpack

open Circular

/-! ## Allocation -/

def intMax : ℤ := 2 ^ 31 - 1

/-- A valid size is served with unknown contents. The parameter is an `int`, so a
size above `INT_MAX` arrives as a negative one. -/
def epMalloc (fresh : ℤ → UInt8) (size : ℤ) : Option (ℤ → UInt8) :=
  if 0 < size ∧ size ≤ intMax then some fresh else none

/-- `ep_align_size(x, 16)`. -/
def epAlignSize (x : ℤ) : ℤ := (x + 15) / 16 * 16

structure EpBuffer where
  chunk : ℤ → UInt8
  capacity : ℤ
  used : ℤ

def epBufferNew (fresh ptr : ℤ → UInt8) (size : ℤ) : Option EpBuffer :=
  match epMalloc fresh (epAlignSize size) with
  | none => none
  | some chunk => some
      { chunk := copyIn chunk 0 (cells ptr 0 size.toNat)
        capacity := epAlignSize size
        used := size }

/-- The used part of the buffer is `xs`; nothing is said about the bytes behind. -/
structure EpBuffer.Holds (b : EpBuffer) (xs : List UInt8) : Prop where
  used_eq : b.used = xs.length
  cells_eq : cells b.chunk 0 xs.length = xs

theorem epMalloc_eq_some {fresh p : ℤ → UInt8} {size : ℤ} (h : epMalloc fresh size = some p) :
    p = fresh ∧ 0 < size ∧ size ≤ intMax := by
  unfold epMalloc at h
  split_ifs at h with hs
  exact ⟨(Option.some.inj h).symm, hs⟩

theorem epMalloc_of_fits (fresh : ℤ → UInt8) (size : ℤ) (h0 : 0 < size) (h : size ≤ intMax) :
    epMalloc fresh size = some fresh := by rw [epMalloc, if_pos ⟨h0, h⟩]

theorem le_epAlignSize (x : ℤ) : x ≤ epAlignSize x := by
  unfold epAlignSize; omega

/-- `ep_buffer_new` succeeds exactly on the sizes that can be aligned and served. -/
theorem epBufferNew_isSome_iff (fresh ptr : ℤ → UInt8) (size : ℤ) :
    (epBufferNew fresh ptr size).isSome ↔ 0 < size ∧ size ≤ 2 ^ 31 - 16 := by
  unfold epBufferNew epMalloc epAlignSize intMax
  split_ifs with h
  · simp only [Option.isSome_some, true_iff]; omega
  · simp only [Option.isSome_none, Bool.false_eq_true, false_iff]; omega

theorem epBufferNew_holds {fresh ptr : ℤ → UInt8} {size : ℤ} {b : EpBuffer}
    (h : epBufferNew fresh ptr size = some b) : b.Holds (cells ptr 0 size.toNat) := by
  have hpos := (epBufferNew_isSome_iff fresh ptr size).mp (by rw [h]; rfl)
  unfold epBufferNew at h
  split at h
  · cases h
  · rename_i chunk _
    cases h
    exact ⟨by simp; omega, cells_copyIn_self _ _ _⟩

/-! ## Ciphering -/

/-- One cipher block. -/
abbrev Block := Fin 16 → UInt8

/-- The block cipher of the crypto library; `decrypt` is used with the key
schedule that `AES_set_decrypt_key` derives from the same key. -/
structure AesCipher where
  encrypt : Block → Block → Block
  decrypt : Block → Block → Block
  decrypt_encrypt : ∀ key b, decrypt key (encrypt key b) = b

structure EpAesKey where
  key : Block
  vec : Block

def xorBlock (a b : Block) : Block := fun i => a i ^^^ b i

/-- The first `k` blocks of a memory. -/
def blocks (m : ℤ → UInt8) (k : ℕ) : List Block :=
  (List.range k).map fun (j : ℕ) (i : Fin 16) => m (16 * j + i)

/-- A memory whose first blocks are `bs`. -/
def storeBlocks (m : ℤ → UInt8) (bs : List Block) : ℤ → UInt8 := fun a =>
  if 0 ≤ a then
    match bs[(a / 16).toNat]? with
    | some b => b (Fin.ofNat 16 (a % 16).toNat)
    | none => m a
  else m a

/-- The number of bytes `ep_crypt_aes` feeds to the cipher. -/
def cryptLen (inSize : ℤ) : ℤ :=
  if (inSize + 1).tmod 16 = 0 then inSize + 1 else ((inSize + 1).tdiv 16 + 1) * 16

/-- `AES_cbc_encrypt` on `len` bytes; it overwrites `vec` in both directions. -/
def aesCbcEncrypt (aes : AesCipher) (input : ℤ → UInt8) (out : ℤ → UInt8) (len : ℤ)
    (key vec : Block) (enc : Bool) : (ℤ → UInt8) × Block :=
  let r := if enc then Cbc.encrypt xorBlock (aes.encrypt key) vec (blocks input (len / 16).toNat)
    else Cbc.decrypt xorBlock (aes.decrypt key) vec (blocks input (len / 16).toNat)
  (storeBlocks out r.1, r.2)

/-- Returns the output chunk with its length, and the vector it leaves behind. -/
def epCryptAes (aes : AesCipher) (fresh input : ℤ → UInt8) (inSize : ℤ) (key vec : Block)
    (enc : Bool) : Option ((ℤ → UInt8) × ℤ) × Block :=
  match epMalloc fresh (cryptLen inSize) with
  | none => (none, vec)
  | some out =>
    let r := aesCbcEncrypt aes input out (cryptLen inSize) key vec enc
    (some (r.1, cryptLen inSize), r.2)

def epBufferEncrypt (aes : AesCipher) (fresh : ℤ → UInt8) (buffer : EpBuffer) (k : EpAesKey) :
    Option EpBuffer × EpAesKey :=
  let r := epCryptAes aes fresh buffer.chunk buffer.used k.key k.vec true
  (match r.1 with
    | none => none
    | some (crypt, memSize) => some { chunk := crypt, used := memSize, capacity := memSize },
   { k with vec := r.2 })

def epBufferDecrypt (aes : AesCipher) (fresh : ℤ → UInt8) (buffer : EpBuffer) (k : EpAesKey)
    (orignalSize : ℤ) : Option EpBuffer × EpAesKey :=
  let r := epCryptAes aes fresh buffer.chunk buffer.used k.key k.vec false
  (match r.1 with
    | none => none
    | some (crypt, memSize) => some { chunk := crypt, used := orignalSize, capacity := memSize },
   { k with vec := r.2 })

theorem xorBlock_xorBlock (a b : Block) : xorBlock (xorBlock a b) b = a := by
  funext i
  rw [xorBlock, xorBlock, UInt8.xor_assoc, UInt8.xor_self, UInt8.xor_zero]

@[simp] theorem length_blocks (m : ℤ → UInt8) (k : ℕ) : (blocks m k).length = k := by
  simp [blocks]

theorem getElem_blocks (m : ℤ → UInt8) {k j : ℕ} (h : j < (blocks m k).length) :
    (blocks m k)[j] = fun i : Fin 16 => m (16 * j + i) := by
  simp [blocks]

theorem blocks_add (m : ℤ → UInt8) (k j : ℕ) :
    blocks m (k + j) = blocks m k ++ blocks (fun a => m (16 * k + a)) j := by
  simp only [blocks, List.range_add, List.map_append, List.map_map]
  congr 1
  apply List.map_congr_left
  intro i _
  funext a
  simp only [Function.comp, Nat.cast_add]
  congr 1
  omega

/-- Equal blocks are equal cells. -/
theorem blocks_eq_iff {m m' : ℤ → UInt8} {k : ℕ} :
    blocks m k = blocks m' k ↔ cells m 0 (16 * k) = cells m' 0 (16 * k) := by
  constructor
  · intro h
    apply cells_congr
    intro i hi
    have hblock := List.map_inj_left.mp h (i / 16) (List.mem_range.mpr (by omega))
    have hcell := congrFun hblock (Fin.ofNat 16 i)
    simp only [Fin.val_ofNat] at hcell
    have hi' : (16 * ((i / 16 : ℕ) : ℤ) + ((i % 16 : ℕ) : ℤ)) = 0 + i := by omega
    rwa [hi'] at hcell
  · intro h
    apply List.map_congr_left
    intro j hj
    funext i
    have hlt := List.mem_range.mp hj
    have hcell := List.map_inj_left.mp h (16 * j + i) (List.mem_range.mpr (by omega))
    simpa using hcell

theorem storeBlocks_inside (m : ℤ → UInt8) {bs : List Block} {j : ℕ} (hj : j < bs.length)
    (i : Fin 16) : storeBlocks m bs (16 * j + i) = bs[j] i := by
  have hi := i.isLt
  have hdiv : ((16 * (j : ℤ) + i) / 16).toNat = j := by omega
  have hmod : ((16 * (j : ℤ) + i) % 16).toNat = i := by omega
  have hnonneg : 0 ≤ 16 * (j : ℤ) + i := by omega
  have hfin : Fin.ofNat 16 (i : ℕ) = i := Fin.ext (Nat.mod_eq_of_lt hi)
  simp only [storeBlocks, if_pos hnonneg, hdiv, hmod, List.getElem?_eq_getElem hj, hfin]

theorem blocks_storeBlocks (m : ℤ → UInt8) {bs : List Block} {k : ℕ} (h : k ≤ bs.length) :
    blocks (storeBlocks m bs) k = bs.take k := by
  apply List.ext_getElem
  · simp [h]
  · intro j hj hj'
    funext i
    rw [length_blocks] at hj
    rw [List.getElem_take, getElem_blocks]
    exact storeBlocks_inside m (by omega) i

theorem cryptLen_eq {n : ℤ} (h : 0 ≤ n) : cryptLen n = (n + 16) / 16 * 16 := by
  unfold cryptLen
  rw [Int.tmod_eq_emod_of_nonneg (by omega), Int.tdiv_eq_ediv_of_nonneg (by omega)]
  split_ifs <;> omega

section Crypt

variable {aes : AesCipher} {fresh : ℤ → UInt8} {b e : EpBuffer} {k : EpAesKey}

/-- The ciphertext has one or more whole blocks and reaches past the used part. -/
theorem epBufferEncrypt_eq_some (h : (epBufferEncrypt aes fresh b k).1 = some e)
    (hu : 0 ≤ b.used) : ∃ n : ℕ, e.used = 16 * n ∧ 0 < n ∧ b.used < 16 * n ∧ e.used ≤ intMax ∧
      blocks e.chunk n =
        (Cbc.encrypt xorBlock (aes.encrypt k.key) k.vec (blocks b.chunk n)).1 := by
  have hlen := cryptLen_eq hu
  obtain ⟨n, hn⟩ : ∃ n : ℕ, (b.used + 16) / 16 = n := ⟨_, (Int.toNat_of_nonneg (by omega)).symm⟩
  have hdiv : (cryptLen b.used / 16).toNat = n := by omega
  unfold epBufferEncrypt epCryptAes at h
  cases hm : epMalloc fresh (cryptLen b.used) with
  | none => simp [hm] at h
  | some out =>
    obtain ⟨-, -, hfit⟩ := epMalloc_eq_some hm
    simp only [hm, Option.some.injEq] at h
    subst h
    refine ⟨n, by simp only; omega, by omega, by omega, hfit, ?_⟩
    simp only [aesCbcEncrypt, hdiv, if_true]
    rw [blocks_storeBlocks _ (by simp), List.take_of_length_le (by simp)]

/-- A chunk holding ciphertext decrypts to the plaintext, for the plaintext's own
length. The decryption reads one block more than was encrypted. -/
theorem epBufferDecrypt_encrypt {xs : List UInt8} (hb : b.Holds xs)
    (he : (epBufferEncrypt aes fresh b k).1 = some e) {r : EpBuffer}
    (hr : r.Holds (cells e.chunk 0 e.used.toNat)) (hfit : e.used + 16 ≤ intMax)
    (fresh' : ℤ → UInt8) :
    ∃ d, (epBufferDecrypt aes fresh' r k xs.length).1 = some d ∧ d.Holds xs := by
  obtain ⟨n, hused, hn, hlt, -, hblocks⟩ := epBufferEncrypt_eq_some he (by rw [hb.used_eq]; omega)
  have hn16 : e.used.toNat = 16 * n := by omega
  rw [hn16] at hr
  have hru : r.used = 16 * n := by rw [hr.used_eq]; simp
  have hcells : cells r.chunk 0 (16 * n) = cells e.chunk 0 (16 * n) := by simpa using hr.cells_eq
  have hlen : cryptLen r.used = 16 * (n + 1) := by rw [cryptLen_eq (by omega)]; omega
  have hdiv : (cryptLen r.used / 16).toNat = n + 1 := by omega
  have hmalloc := epMalloc_of_fits fresh' (cryptLen r.used) (by omega) (by omega)
  have hplain : blocks (aesCbcEncrypt aes r.chunk fresh' (cryptLen r.used) k.key k.vec false).1 n =
      blocks b.chunk n := by
    simp only [aesCbcEncrypt, hdiv, Bool.false_eq_true, if_false]
    rw [blocks_storeBlocks _ (by simp), blocks_add, blocks_eq_iff.mpr hcells, hblocks]
    have hdec := Cbc.decrypt_encrypt_append xorBlock (aes.decrypt_encrypt k.key)
      xorBlock_xorBlock k.vec (blocks b.chunk n) (blocks (fun a => r.chunk (16 * n + a)) 1)
    rwa [length_blocks] at hdec
  have hcells' := blocks_eq_iff.mp hplain
  have hxs : xs.length ≤ 16 * n := by have := hb.used_eq; omega
  refine ⟨⟨(aesCbcEncrypt aes r.chunk fresh' (cryptLen r.used) k.key k.vec false).1,
    cryptLen r.used, xs.length⟩, by simp only [epBufferDecrypt, epCryptAes, hmalloc], rfl, ?_⟩
  rw [← take_cells _ _ hxs, hcells', take_cells _ _ hxs, hb.cells_eq]

end Crypt

/-! ## Compression -/

/-- The compression library at the fixed block size and work factor of the
program. The bound is the one its manual gives for sizing the output area. -/
structure Bz2 where
  compress : List UInt8 → List UInt8
  decompress : List UInt8 → Option (List UInt8)
  decompress_compress : ∀ xs, decompress (compress xs) = some xs
  compress_ne_nil : ∀ xs, compress xs ≠ []
  length_compress_le : ∀ xs, 100 * (compress xs).length ≤ 101 * xs.length + 60000

/-- Returns the output area, `*alloc_len` and `*dest_len`. An output that does not
fit leaves `*dest_len` at the size of the area. -/
def epCompress (bz : Bz2) (fresh src : ℤ → UInt8) (srcLen : ℤ) :
    Option ((ℤ → UInt8) × ℤ × ℤ) :=
  let alloced := epAlignSize (srcLen * 101 / 100 + 600)
  match epMalloc fresh alloced with
  | none => none
  | some dest =>
    let packed := bz.compress (cells src 0 srcLen.toNat)
    some (copyIn dest 0 (packed.take alloced.toNat), alloced, min packed.length alloced)

def epDecompress (bz : Bz2) (fresh src : ℤ → UInt8) (srcLen destLen : ℤ) : Option (ℤ → UInt8) :=
  match epMalloc fresh (epAlignSize destLen) with
  | none => none
  | some dest =>
    match bz.decompress (cells src 0 srcLen.toNat) with
    | none => none
    | some plain => if destLen = plain.length then some (copyIn dest 0 plain) else none

def epBufferCompress (bz : Bz2) (fresh : ℤ → UInt8) (buffer : EpBuffer) : Option EpBuffer :=
  match epCompress bz fresh buffer.chunk buffer.used with
  | none => none
  | some (dest, capacity, size) => some { chunk := dest, capacity := capacity, used := size }

def epBufferDecompress (bz : Bz2) (fresh : ℤ → UInt8) (buffer : EpBuffer) (orignalSize : ℤ) :
    Option EpBuffer :=
  match epDecompress bz fresh buffer.chunk buffer.used orignalSize with
  | none => none
  | some dest => some { chunk := dest, used := orignalSize, capacity := orignalSize }

section Compress

variable {bz : Bz2} {fresh : ℤ → UInt8} {b c : EpBuffer} {xs : List UInt8}

/-- The area is large enough for what the library writes. -/
theorem epBufferCompress_eq_some (hb : b.Holds xs) (h : epBufferCompress bz fresh b = some c) :
    c.Holds (bz.compress xs) ∧ epAlignSize b.used ≤ intMax := by
  have hused := hb.used_eq
  have hbound := bz.length_compress_le xs
  unfold epBufferCompress epCompress at h
  cases hm : epMalloc fresh (epAlignSize (b.used * 101 / 100 + 600)) with
  | none => simp [hm] at h
  | some dest =>
    obtain ⟨-, -, hfit⟩ := epMalloc_eq_some hm
    have hsrc : cells b.chunk 0 b.used.toNat = xs := by
      rw [hused, Int.toNat_natCast, hb.cells_eq]
    have hroom : ((bz.compress xs).length : ℤ) ≤ epAlignSize (b.used * 101 / 100 + 600) := by
      unfold epAlignSize; omega
    have htake : (bz.compress xs).take (epAlignSize (b.used * 101 / 100 + 600)).toNat =
        bz.compress xs := List.take_of_length_le (by omega)
    simp only [hm, hsrc, htake, min_eq_left hroom, Option.some.injEq] at h
    subst h
    refine ⟨⟨rfl, cells_copyIn_self _ _ _⟩, ?_⟩
    unfold epAlignSize at hfit ⊢
    omega

theorem epBufferDecompress_compress (hc : c.Holds (bz.compress xs))
    (hpos : 0 < xs.length) (hfit : epAlignSize xs.length ≤ intMax) :
    ∃ d, epBufferDecompress bz fresh c xs.length = some d ∧ d.Holds xs := by
  have hsrc : cells c.chunk 0 c.used.toNat = bz.compress xs := by
    rw [hc.used_eq, Int.toNat_natCast, hc.cells_eq]
  have hmalloc := epMalloc_of_fits fresh (epAlignSize xs.length)
    (by have := le_epAlignSize xs.length; omega) hfit
  refine ⟨⟨copyIn fresh 0 xs, xs.length, xs.length⟩, ?_, rfl, cells_copyIn_self _ _ _⟩
  simp only [epBufferDecompress, epDecompress, hmalloc, hsrc, bz.decompress_compress, if_true]

end Compress

end Youmenu.Eventpack
