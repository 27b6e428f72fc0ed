import Mathlib.Tactic.IntervalCases
import Youmenu.Lib.Bytes

/-!
# The frame header of `ep_shell.h`

The header is a packed 18-byte record. Its protocol word is a record of bit
fields; the first field occupies the low bits, as on the little-endian hosts the
program runs on. The four integers and the protocol word travel in network
order, each swapped as a whole.

## Main definitions

* `EpShellProto`, `EpShell` — the two records.
* `EpShell.bytes`, `EpShell.ofBytes` — the memory image, and reading it back.
* `EpShell.toNetwork`, `EpShell.toHost` — the conversions around the wire.
-/

namespace Youmenu.Eventpack

open Bytes

def epMagicNumber : BitVec 16 := 0x9087

def reqTypeGet : BitVec 3 := 0
def reqTypePost : BitVec 3 := 1

def cryptTypeNone : BitVec 3 := 0
def cryptTypeEncrypt : BitVec 3 := 1

def compressTypeNone : BitVec 3 := 0
def compressTypeCompress : BitVec 3 := 1
def compressTypeAuto : BitVec 3 := 2

structure EpShellProto where
  category : BitVec 16
  type : BitVec 3
  cCrypt : BitVec 3
  cCompress : BitVec 3
  sCrypt : BitVec 3
  sCompress : BitVec 3
  serverd : BitVec 1
deriving DecidableEq

/-- The three sizes are `int32_t`; their value is `BitVec.toInt`. -/
structure EpShell where
  magic : BitVec 16
  proto : EpShellProto
  shellSize : BitVec 32
  decryptSize : BitVec 32
  packSize : BitVec 32
deriving DecidableEq

def sizeofEpShell : ℕ := 18

/-! ## The protocol word -/

/-- The record read as `*(uint32_t *)&shell->proto`. -/
def EpShellProto.word (p : EpShellProto) : BitVec 32 :=
  p.serverd ++ p.sCompress ++ p.sCrypt ++ p.cCompress ++ p.cCrypt ++ p.type ++ p.category

def EpShellProto.ofWord (w : BitVec 32) : EpShellProto where
  category := w.extractLsb' 0 16
  type := w.extractLsb' 16 3
  cCrypt := w.extractLsb' 19 3
  cCompress := w.extractLsb' 22 3
  sCrypt := w.extractLsb' 25 3
  sCompress := w.extractLsb' 28 3
  serverd := w.extractLsb' 31 1

@[simp] theorem EpShellProto.ofWord_word (p : EpShellProto) : ofWord p.word = p := by
  obtain ⟨category, type, cCrypt, cCompress, sCrypt, sCompress, serverd⟩ := p
  simp only [ofWord, word, EpShellProto.mk.injEq]
  refine ⟨?_, ?_, ?_, ?_, ?_, ?_, ?_⟩ <;> apply BitVec.eq_of_getLsbD_eq <;> intro i hi <;>
    simp only [BitVec.getLsbD_extractLsb', BitVec.getLsbD_append] <;> interval_cases i <;> simp

@[simp] theorem EpShellProto.word_ofWord (w : BitVec 32) : (ofWord w).word = w := by
  apply BitVec.eq_of_getLsbD_eq
  intro i hi
  simp only [word, ofWord, BitVec.getLsbD_append, BitVec.getLsbD_extractLsb']
  interval_cases i <;> simp

/-! ## Byte order -/

def htons (v : BitVec 16) : BitVec 16 := BitVec.ofNat 16 (bswap 2 v.toNat)
def htonl (v : BitVec 32) : BitVec 32 := BitVec.ofNat 32 (bswap 4 v.toNat)
def ntohs (v : BitVec 16) : BitVec 16 := htons v
def ntohl (v : BitVec 32) : BitVec 32 := htonl v

@[simp] theorem ntohs_htons (v : BitVec 16) : ntohs (htons v) = v := by
  apply BitVec.eq_of_toNat_eq
  have hlt : bswap 2 v.toNat < 2 ^ 16 := bswap_lt 2 v.toNat
  rw [ntohs, htons, htons, BitVec.toNat_ofNat, BitVec.toNat_ofNat, Nat.mod_eq_of_lt hlt,
    bswap_bswap v.isLt, Nat.mod_eq_of_lt v.isLt]

@[simp] theorem ntohl_htonl (v : BitVec 32) : ntohl (htonl v) = v := by
  apply BitVec.eq_of_toNat_eq
  have hlt : bswap 4 v.toNat < 2 ^ 32 := bswap_lt 4 v.toNat
  rw [ntohl, htonl, htonl, BitVec.toNat_ofNat, BitVec.toNat_ofNat, Nat.mod_eq_of_lt hlt,
    bswap_bswap v.isLt, Nat.mod_eq_of_lt v.isLt]

/-- Host to network order, as `ep_io_combine_shell` does it in place. -/
def EpShell.toNetwork (s : EpShell) : EpShell where
  magic := htons s.magic
  proto := .ofWord (htonl s.proto.word)
  shellSize := htonl s.shellSize
  decryptSize := htonl s.decryptSize
  packSize := htonl s.packSize

/-- Network to host order, as `ep_io_enqueue` does it in place. -/
def EpShell.toHost (s : EpShell) : EpShell where
  magic := ntohs s.magic
  proto := .ofWord (ntohl s.proto.word)
  shellSize := ntohl s.shellSize
  decryptSize := ntohl s.decryptSize
  packSize := ntohl s.packSize

@[simp] theorem EpShell.toHost_toNetwork (s : EpShell) : s.toNetwork.toHost = s := by
  simp [toHost, toNetwork]

/-! ## The memory image -/

def EpShell.bytes (s : EpShell) : List UInt8 :=
  leBytes 2 s.magic.toNat ++ (leBytes 4 s.proto.word.toNat ++ (leBytes 4 s.shellSize.toNat ++
    (leBytes 4 s.decryptSize.toNat ++ leBytes 4 s.packSize.toNat)))

def EpShell.ofBytes (bs : List UInt8) : EpShell where
  magic := BitVec.ofNat 16 (word 2 bs)
  proto := .ofWord (BitVec.ofNat 32 (word 4 (bs.drop 2)))
  shellSize := BitVec.ofNat 32 (word 4 (bs.drop 6))
  decryptSize := BitVec.ofNat 32 (word 4 (bs.drop 10))
  packSize := BitVec.ofNat 32 (word 4 (bs.drop 14))

@[simp] theorem EpShell.length_bytes (s : EpShell) : s.bytes.length = sizeofEpShell := by
  simp [bytes, sizeofEpShell]

/-- A word of the image is found at the sum of the widths before it. -/
theorem word_drop_append {n k v : ℕ} {xs rest : List UInt8} (hk : xs.length = k)
    (hv : v < 256 ^ n) : word n ((xs ++ (leBytes n v ++ rest)).drop k) = v := by
  rw [List.drop_left' hk, word_leBytes_append hv]

/-- The header is read back, whatever follows it. -/
theorem EpShell.ofBytes_append (s : EpShell) (rest : List UInt8) :
    ofBytes (s.bytes ++ rest) = s := by
  obtain ⟨magic, proto, shellSize, decryptSize, packSize⟩ := s
  simp only [bytes, List.append_assoc, ofBytes, EpShell.mk.injEq]
  refine ⟨?_, ?_, ?_, ?_, ?_⟩
  · rw [word_leBytes_append magic.isLt, BitVec.ofNat_toNat, BitVec.setWidth_eq]
  · rw [word_drop_append (by simp) proto.word.isLt, BitVec.ofNat_toNat, BitVec.setWidth_eq,
      EpShellProto.ofWord_word]
  · rw [← List.append_assoc, word_drop_append (by simp) shellSize.isLt, BitVec.ofNat_toNat,
      BitVec.setWidth_eq]
  · rw [← List.append_assoc, ← List.append_assoc, word_drop_append (by simp) decryptSize.isLt,
      BitVec.ofNat_toNat, BitVec.setWidth_eq]
  · rw [← List.append_assoc, ← List.append_assoc, ← List.append_assoc,
      word_drop_append (by simp) packSize.isLt, BitVec.ofNat_toNat, BitVec.setWidth_eq]

/-- Only the first bytes count. -/
theorem EpShell.ofBytes_take (bs : List UInt8) : ofBytes (bs.take sizeofEpShell) = ofBytes bs := by
  simp [ofBytes, word, sizeofEpShell, List.drop_take, List.take_take]

@[simp] theorem EpShell.toNetwork_toHost (s : EpShell) : s.toHost.toNetwork = s := by
  have hs : ∀ v, htons (ntohs v) = v := fun v => ntohs_htons v
  have hl : ∀ v, htonl (ntohl v) = v := fun v => ntohl_htonl v
  simp [toHost, toNetwork, hs, hl]

theorem leBytes_word {n : ℕ} {bs : List UInt8} (h : n ≤ bs.length) :
    leBytes n (word n bs) = bs.take n := by
  have hlen : (bs.take n).length = n := by simp [h]
  have := leBytes_fromLe (bs.take n)
  rwa [hlen] at this

/-- Every byte string of the right length is the image of a header. -/
theorem EpShell.bytes_ofBytes {bs : List UInt8} (h : sizeofEpShell ≤ bs.length) :
    (ofBytes bs).bytes = bs.take sizeofEpShell := by
  unfold sizeofEpShell at h
  have h2 : (BitVec.ofNat 16 (word 2 bs)).toNat = word 2 bs := Nat.mod_eq_of_lt (word_lt 2 bs)
  have h4 : ∀ xs : List UInt8, (BitVec.ofNat 32 (word 4 xs)).toNat = word 4 xs :=
    fun xs => Nat.mod_eq_of_lt (word_lt 4 xs)
  simp only [bytes, ofBytes, EpShellProto.word_ofWord, h2, h4]
  rw [leBytes_word (by omega), leBytes_word (by simp; omega), leBytes_word (by simp; omega),
    leBytes_word (by simp; omega), leBytes_word (by simp; omega)]
  have hcut : ∀ j k : ℕ, bs.take (j + k) = bs.take j ++ (bs.drop j).take k :=
    fun j k => List.take_add
  rw [show sizeofEpShell = 2 + 4 + 4 + 4 + 4 from rfl, hcut, hcut, hcut, hcut]
  simp only [List.append_assoc]

@[simp] theorem EpShell.ofBytes_bytes (s : EpShell) : ofBytes s.bytes = s := by
  simpa using s.ofBytes_append []

end Youmenu.Eventpack
