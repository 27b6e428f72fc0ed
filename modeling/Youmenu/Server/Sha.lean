import Youmenu.Lib.Blocks
import Youmenu.Server.Sql
import Mathlib.Data.List.GetD

/-!
# The hash of the passwords: `sha.c`

`SHA_update` takes in any number of bytes at a time and works off the buffer whenever it is
full, `SHA_final` pads what it was given through `SHA_update` and writes the digest over the
buffer. The standard describes the hash by what it makes of the whole message.

## Main definitions

* `ShaCtx`, `shaUpdate`, `shaFinal`, `sha` — the source.
* `sha1` — the standard: the message is padded and its blocks are compressed in turn.
* `Holds` — a context that has taken in a message.

## Main statements

* `sha_eq_sha1` — the source computes the standard, however the message is cut up.
-/

namespace Youmenu.Server.Sha

open Blocks Bytes Eventpack

/-! ## The source -/

/-- The five words of the state, and the variables `A` to `E`. -/
structure ShaState where
  a : BitVec 32
  b : BitVec 32
  c : BitVec 32
  d : BitVec 32
  e : BitVec 32
deriving DecidableEq

structure ShaCtx where
  count : BitVec 64
  buf : Vector UInt8 64
  state : ShaState

def rol (bits : ℕ) (value : BitVec 32) : BitVec 32 := value <<< bits ||| value >>> (32 - bits)

/-- Four bytes of the buffer from `4 * t` on. -/
def loadWord (buf : List UInt8) (t : ℕ) : BitVec 32 :=
  let p := fun i => (buf.getD (4 * t + i) 0).toBitVec.setWidth 32
  p 0 <<< 24 ||| p 1 <<< 16 ||| p 2 <<< 8 ||| p 3

/-- The loop that goes on with `W`, which has `W[t]` for all smaller `t`. -/
def expand : ℕ → List (BitVec 32) → List (BitVec 32)
  | 0, W => W
  | n + 1, W =>
    let t := W.length
    expand n (W ++ [rol 1 (W.getD (t - 3) 0 ^^^ W.getD (t - 8) 0 ^^^ W.getD (t - 14) 0 ^^^
      W.getD (t - 16) 0)])

/-- The array `W`. -/
def schedule (buf : List UInt8) : List (BitVec 32) := expand 64 ((List.range 16).map (loadWord buf))

/-- One round of the loop over the variables. -/
def round (W : List (BitVec 32)) (v : ShaState) (t : ℕ) : ShaState :=
  let tmp := rol 5 v.a + v.e + W.getD t 0
  let tmp :=
    if t < 20 then tmp + ((v.d ^^^ (v.b &&& (v.c ^^^ v.d))) + 0x5A827999#32)
    else if t < 40 then tmp + ((v.b ^^^ v.c ^^^ v.d) + 0x6ED9EBA1#32)
    else if t < 60 then tmp + (((v.b &&& v.c) ||| (v.d &&& (v.b ||| v.c))) + 0x8F1BBCDC#32)
    else tmp + ((v.b ^^^ v.c ^^^ v.d) + 0xCA62C1D6#32)
  ⟨tmp, v.a, rol 30 v.b, v.c, v.d⟩

def ShaState.add (s v : ShaState) : ShaState :=
  ⟨s.a + v.a, s.b + v.b, s.c + v.c, s.d + v.d, s.e + v.e⟩

/-- `SHA1_transform`. -/
def shaTransform (ctx : ShaCtx) : ShaCtx :=
  let v := (List.range 80).foldl (round (schedule ctx.buf.toList)) ctx.state
  { ctx with state := ctx.state.add v }

/-- What the buffer holds is left there. -/
def shaInit (ctx : ShaCtx) : ShaCtx :=
  { ctx with count := 0
             state := ⟨0x67452301#32, 0xEFCDAB89#32, 0x98BADCFE#32, 0x10325476#32, 0xC3D2E1F0#32⟩ }

/-- One byte of the loop, with the variable `i`. -/
def shaPut (c : ShaCtx × ℕ) (b : UInt8) : ShaCtx × ℕ :=
  let ctx := { c.1 with buf := c.1.buf.setIfInBounds c.2 b }
  if c.2 + 1 = 64 then (shaTransform ctx, 0) else (ctx, c.2 + 1)

def shaUpdate (ctx : ShaCtx) (data : List UInt8) : ShaCtx :=
  let i := (ctx.count % 64).toNat
  (data.foldl shaPut ({ ctx with count := ctx.count + BitVec.ofNat 64 data.length }, i)).1

/-- The loop that pads with zeros. -/
def shaPad : ℕ → ShaCtx → ShaCtx
  | 0, ctx => ctx
  | n + 1, ctx => if ctx.count % 64 ≠ 64 - 8 then shaPad n (shaUpdate ctx [0]) else ctx

/-- The byte at the address of `tmp`, where the low byte of a word comes first. -/
def countByte (cnt : BitVec 64) (i : ℕ) : UInt8 := UInt8.ofNat (cnt >>> ((7 - i) * 8)).toNat

/-- The four bytes of a word of the state. -/
def wordBytes (w : BitVec 32) : List UInt8 :=
  [UInt8.ofNat (w >>> 24).toNat, UInt8.ofNat (w >>> 16).toNat, UInt8.ofNat (w >>> 8).toNat,
    UInt8.ofNat w.toNat]

def shaDigest (s : ShaState) : List UInt8 := [s.a, s.b, s.c, s.d, s.e].flatMap wordBytes

/-- What the buffer holds that `SHA_final` returns. -/
def shaFinal (ctx : ShaCtx) : List UInt8 :=
  let cnt := ctx.count * 8
  let ctx := shaPad 64 (shaUpdate ctx [0x80])
  let ctx := (List.range 8).foldl (fun ctx i => shaUpdate ctx [countByte cnt i]) ctx
  shaDigest ctx.state ++ ctx.buf.toList.drop 20

/-- `SHA`, with what the stack holds where `ctx` is. -/
def sha (stack : ShaCtx) (data : List UInt8) : List UInt8 :=
  (shaFinal (shaUpdate (shaInit stack) data)).take 20

/-! ## The standard -/

/-- The functions of FIPS 180. -/
def ch (x y z : BitVec 32) : BitVec 32 := (x &&& y) ^^^ (~~~x &&& z)

def parity (x y z : BitVec 32) : BitVec 32 := x ^^^ y ^^^ z

def maj (x y z : BitVec 32) : BitVec 32 := (x &&& y) ^^^ (x &&& z) ^^^ (y &&& z)

def roundFunction (t : ℕ) : BitVec 32 → BitVec 32 → BitVec 32 → BitVec 32 :=
  if t < 20 then ch else if t < 40 then parity else if t < 60 then maj else parity

def roundConstant (t : ℕ) : BitVec 32 :=
  if t < 20 then 0x5A827999#32 else if t < 40 then 0x6ED9EBA1#32
  else if t < 60 then 0x8F1BBCDC#32 else 0xCA62C1D6#32

/-- A word of a block, its first byte on top. -/
def blockWord (block : List UInt8) (t : ℕ) : BitVec 32 :=
  let p := fun i => (block.getD (4 * t + i) 0).toBitVec
  p 0 ++ p 1 ++ p 2 ++ p 3

/-- The message schedule. -/
def scheduleWord (block : List UInt8) (t : ℕ) : BitVec 32 :=
  if t < 16 then blockWord block t
  else (scheduleWord block (t - 3) ^^^ scheduleWord block (t - 8) ^^^
    scheduleWord block (t - 14) ^^^ scheduleWord block (t - 16)).rotateLeft 1

def standardRound (block : List UInt8) (v : ShaState) (t : ℕ) : ShaState :=
  ⟨v.a.rotateLeft 5 + roundFunction t v.b v.c v.d + v.e + roundConstant t + scheduleWord block t,
    v.a, v.b.rotateLeft 30, v.c, v.d⟩

def compress (h : ShaState) (block : List UInt8) : ShaState :=
  h.add ((List.range 80).foldl (standardRound block) h)

def initialHash : ShaState :=
  ⟨0x67452301#32, 0xEFCDAB89#32, 0x98BADCFE#32, 0x10325476#32, 0xC3D2E1F0#32⟩

/-- The message, a bit, zeros, and the number of its bits in the last eight bytes. -/
def pad (m : List UInt8) : List UInt8 :=
  m ++ 0x80 :: (List.replicate ((119 - m.length % 64) % 64) 0 ++ (leBytes 8 (8 * m.length)).reverse)

/-- SHA-1. -/
def sha1 (m : List UInt8) : List UInt8 :=
  let h := (blocks 64 (pad m)).foldl compress initialHash
  [h.a, h.b, h.c, h.d, h.e].flatMap fun w => (leBytes 4 w.toNat).reverse

/-! ## One block -/

theorem rol_eq {n : ℕ} (hn : n < 32) (v : BitVec 32) : rol n v = v.rotateLeft n := by
  rw [rol, BitVec.rotateLeft_def, Nat.mod_eq_of_lt hn]

theorem ch_eq (x y z : BitVec 32) : z ^^^ (x &&& (y ^^^ z)) = ch x y z := by
  unfold ch
  ext i hi
  simp only [BitVec.getElem_xor, BitVec.getElem_and, BitVec.getElem_not]
  cases x[i] <;> cases y[i] <;> cases z[i] <;> rfl

theorem maj_eq (x y z : BitVec 32) : (x &&& y) ||| (z &&& (x ||| y)) = maj x y z := by
  unfold maj
  ext i hi
  simp only [BitVec.getElem_xor, BitVec.getElem_and, BitVec.getElem_or]
  cases x[i] <;> cases y[i] <;> cases z[i] <;> rfl

/-- Bytes that are shifted into their places. -/
theorem shifted_eq_append (p q r s : BitVec 8) : p.setWidth 32 <<< 24 ||| q.setWidth 32 <<< 16 |||
    r.setWidth 32 <<< 8 ||| s.setWidth 32 = p ++ q ++ r ++ s := by
  grind

theorem loadWord_eq (block : List UInt8) (t : ℕ) : loadWord block t = blockWord block t :=
  shifted_eq_append _ _ _ _

/-- The loop goes on with the words of the schedule. -/
theorem expand_eq (block : List UInt8) (n t : ℕ) (ht : 16 ≤ t) :
    expand n ((List.range t).map (scheduleWord block)) =
      (List.range (t + n)).map (scheduleWord block) := by
  induction n generalizing t with
  | zero => rfl
  | succ n ih =>
    have hget : ∀ k, 0 < k → k ≤ 16 →
        ((List.range t).map (scheduleWord block)).getD (t - k) 0 = scheduleWord block (t - k) := by
      intro k hk hle
      have hlt : t - k < ((List.range t).map (scheduleWord block)).length := by
        rw [List.length_map, List.length_range]
        omega
      rw [List.getD_eq_getElem _ _ hlt, List.getElem_map, List.getElem_range]
    have hword : rol 1 (scheduleWord block (t - 3) ^^^ scheduleWord block (t - 8) ^^^
        scheduleWord block (t - 14) ^^^ scheduleWord block (t - 16)) = scheduleWord block t := by
      rw [rol_eq (by decide), scheduleWord.eq_def block t, if_neg (by omega)]
    rw [expand]
    simp only [List.length_map, List.length_range]
    rw [hget 3 (by decide) (by decide), hget 8 (by decide) (by decide),
      hget 14 (by decide) (by decide), hget 16 (by decide) (by decide), hword]
    have hsnoc : (List.range t).map (scheduleWord block) ++ [scheduleWord block t] =
        (List.range (t + 1)).map (scheduleWord block) := by
      rw [List.range_succ, List.map_append, List.map_singleton]
    rw [hsnoc, ih (t + 1) (by omega)]
    congr 2
    omega

theorem schedule_getD (block : List UInt8) {t : ℕ} (ht : t < 80) :
    (schedule block).getD t 0 = scheduleWord block t := by
  have hload : (List.range 16).map (loadWord block) =
      (List.range 16).map (scheduleWord block) := by
    refine List.map_congr_left fun k hk => ?_
    rw [scheduleWord, if_pos (List.mem_range.mp hk), loadWord_eq]
  have hlt : t < ((List.range 80).map (scheduleWord block)).length := by simpa using ht
  rw [schedule, hload, expand_eq block 64 16 le_rfl, List.getD_eq_getElem _ _ hlt,
    List.getElem_map, List.getElem_range]

theorem add_swap (r e w f k : BitVec 32) : r + e + w + (f + k) = r + f + e + k + w := by
  ac_rfl

theorem round_eq (block : List UInt8) (v : ShaState) {t : ℕ} (ht : t < 80) :
    round (schedule block) v t = standardRound block v t := by
  simp only [round, standardRound, roundFunction, roundConstant]
  rw [schedule_getD block ht, rol_eq (by decide), rol_eq (by decide)]
  split_ifs
  · rw [ch_eq, add_swap]
  · rw [parity, add_swap]
  · rw [maj_eq, add_swap]
  · rw [parity, add_swap]

theorem shaTransform_state (ctx : ShaCtx) :
    (shaTransform ctx).state = compress ctx.state ctx.buf.toList := by
  have hrounds : (List.range 80).foldl (round (schedule ctx.buf.toList)) ctx.state =
      (List.range 80).foldl (standardRound ctx.buf.toList) ctx.state :=
    List.foldl_ext _ _ _ fun v t ht => round_eq _ v (List.mem_range.mp ht)
  rw [shaTransform, hrounds, compress]

/-! ## The whole message -/

/-- The loop of `SHA_update` has taken in the bytes: the blocks that they fill are worked
off, and the buffer begins with the others. -/
structure Loaded (c : ShaCtx × ℕ) (xs : List UInt8) : Prop where
  index : c.2 = xs.length % 64
  taken : xs.foldl (absorb 64 compress) (initialHash, []) = (c.1.state, c.1.buf.toList.take c.2)

theorem Loaded.put {c : ShaCtx × ℕ} {xs : List UInt8} (h : Loaded c xs) (b : UInt8) :
    Loaded (shaPut c b) (xs ++ [b]) := by
  obtain ⟨ctx, i⟩ := c
  obtain ⟨hindex, htaken⟩ := h
  have hi : i < 64 := by
    have hlt := Nat.mod_lt xs.length (show 64 > 0 by decide)
    omega
  have hlength : (ctx.buf.toList.take i).length = i := by
    rw [List.length_take, Vector.length_toList]
    omega
  have hbuf : (ctx.buf.toList.set i b).take (i + 1) = ctx.buf.toList.take i ++ [b] := by
    rw [List.take_add_one, List.take_set_of_le le_rfl, List.getElem?_set_self]
    · rfl
    · rw [Vector.length_toList]
      exact hi
  have habsorb : (xs ++ [b]).foldl (absorb 64 compress) (initialHash, []) =
      if i + 1 = 64 then (compress ctx.state (ctx.buf.toList.take i ++ [b]), [])
      else (ctx.state, ctx.buf.toList.take i ++ [b]) := by
    rw [List.foldl_append, htaken, List.foldl_cons, List.foldl_nil, absorb]
    dsimp only
    rw [hlength]
  rw [shaPut]
  dsimp only
  split
  · next hfull =>
    refine ⟨?_, ?_⟩
    · rw [List.length_append, List.length_singleton]
      dsimp only
      omega
    · -- the block is the whole buffer
      have hwhole : (ctx.buf.toList.set i b).take (i + 1) = ctx.buf.toList.set i b := by
        rw [List.take_of_length_le]
        rw [List.length_set, Vector.length_toList]
        omega
      rw [habsorb, if_pos hfull, ← hbuf, hwhole, shaTransform_state, List.take_zero]
      dsimp only
      rw [Vector.toList_setIfInBounds]
  · next hpart =>
    refine ⟨?_, ?_⟩
    · rw [List.length_append, List.length_singleton]
      dsimp only
      omega
    · rw [habsorb, if_neg hpart, ← hbuf]
      dsimp only
      rw [Vector.toList_setIfInBounds]

theorem Loaded.puts {c : ShaCtx × ℕ} {xs : List UInt8} (h : Loaded c xs) (data : List UInt8) :
    Loaded (data.foldl shaPut c) (xs ++ data) := by
  induction data generalizing c xs with
  | nil => simpa using h
  | cons b data ih =>
    rw [← List.singleton_append, ← List.append_assoc]
    exact ih (h.put b)

/-- The loop does not write the count. -/
theorem count_puts (c : ShaCtx × ℕ) (data : List UInt8) :
    (data.foldl shaPut c).1.count = c.1.count := by
  have hput : ∀ (c : ShaCtx × ℕ) b, (shaPut c b).1.count = c.1.count := by
    intro c b
    rw [shaPut]
    dsimp only
    split
    · rfl
    · rfl
  induction data generalizing c with
  | nil => rfl
  | cons b data ih => rw [List.foldl_cons, ih, hput]

/-- Between two calls the context has taken in the bytes. -/
structure Holds (ctx : ShaCtx) (xs : List UInt8) : Prop where
  count : ctx.count = BitVec.ofNat 64 xs.length
  loaded : Loaded (ctx, xs.length % 64) xs

theorem count_mod {ctx : ShaCtx} {n : ℕ} (h : ctx.count = BitVec.ofNat 64 n) :
    (ctx.count % 64).toNat = n % 64 := by
  rw [h, BitVec.toNat_umod, BitVec.toNat_ofNat]
  show n % 2 ^ 64 % 64 = n % 64
  omega

theorem holds_init (ctx : ShaCtx) : Holds (shaInit ctx) [] := ⟨rfl, rfl, by simp; rfl⟩

theorem Holds.update {ctx : ShaCtx} {xs : List UInt8} (h : Holds ctx xs) (data : List UInt8) :
    Holds (shaUpdate ctx data) (xs ++ data) := by
  have hloaded : Loaded ({ ctx with count := ctx.count + BitVec.ofNat 64 data.length },
      (ctx.count % 64).toNat) xs := by
    rw [count_mod h.count]
    exact ⟨rfl, h.loaded.taken⟩
  have hputs := hloaded.puts data
  refine ⟨?_, rfl, ?_⟩
  · rw [shaUpdate, count_puts, h.count, List.length_append, BitVec.ofNat_add]
  · rw [shaUpdate, hputs.taken, ← hputs.index]

/-- A message that comes in any number of parts. -/
theorem Holds.updates {ctx : ShaCtx} {xs : List UInt8} (h : Holds ctx xs)
    (parts : List (List UInt8)) : Holds (parts.foldl shaUpdate ctx) (xs ++ parts.flatten) := by
  induction parts generalizing ctx xs with
  | nil => simpa using h
  | cons data parts ih =>
    rw [List.foldl_cons, List.flatten_cons, ← List.append_assoc]
    exact ih (h.update data)

theorem Holds.full_iff {ctx : ShaCtx} {xs : List UInt8} (h : Holds ctx xs) :
    ctx.count % 64 = 64 - 8 ↔ xs.length % 64 = 56 := by
  rw [← count_mod h.count, ← BitVec.toNat_inj]
  rfl

/-- The loop with the zeros ends when eight bytes are left. -/
theorem Holds.pad {ctx : ShaCtx} {xs : List UInt8} (h : Holds ctx xs) {n k : ℕ} (hk : k ≤ n)
    (hlt : k < 64) (hend : (xs.length + k) % 64 = 56) :
    Holds (shaPad n ctx) (xs ++ List.replicate k 0) := by
  induction n generalizing ctx xs k with
  | zero =>
    obtain rfl : k = 0 := by omega
    rw [List.replicate_zero, List.append_nil]
    exact h
  | succ n ih =>
    rw [shaPad]
    cases k with
    | zero =>
      rw [if_neg (not_not.mpr (h.full_iff.mpr hend)), List.replicate_zero, List.append_nil]
      exact h
    | succ k =>
      have hmore : ¬ ctx.count % 64 = 64 - 8 := fun hdone => by
        have hlast := h.full_iff.mp hdone
        omega
      have hsplit : xs ++ List.replicate (k + 1) 0 = xs ++ [0] ++ List.replicate k 0 := by
        rw [List.replicate_succ, List.append_assoc, List.singleton_append]
      rw [if_pos hmore, hsplit]
      refine ih (h.update [0]) (by omega) (by omega) ?_
      rw [List.length_append, List.length_singleton]
      omega

/-- The eight bytes of the number of bits. -/
theorem countBytes_eq (n : ℕ) :
    (List.range 8).map (countByte (BitVec.ofNat 64 n * 8)) = (leBytes 8 (8 * n)).reverse := by
  have hbyte : ∀ k ∈ List.range 8,
      countByte (BitVec.ofNat 64 n * 8) (7 - k) = UInt8.ofNat (8 * n / 256 ^ k) := by
    intro k hk
    have hlt : k < 8 := List.mem_range.mp hk
    apply UInt8.toNat_inj.mp
    rw [countByte, UInt8.toNat_ofNat', UInt8.toNat_ofNat', BitVec.toNat_ushiftRight,
      BitVec.toNat_mul, BitVec.toNat_ofNat, Nat.shiftRight_eq_div_pow]
    show n % 2 ^ 64 * 8 % 2 ^ 64 / 2 ^ ((7 - (7 - k)) * 8) % 2 ^ 8 = 8 * n / 256 ^ k % 2 ^ 8
    interval_cases k <;> omega
  have hle : leBytes 8 (8 * n) = (List.range 8).map fun k => UInt8.ofNat (8 * n / 256 ^ k) := by
    simp [leBytes, List.range_succ, Nat.div_div_eq_div_mul]
  rw [hle, ← List.map_congr_left hbyte]
  rfl

theorem wordBytes_eq (w : BitVec 32) : wordBytes w = (leBytes 4 w.toNat).reverse := by
  have hlt := w.isLt
  simp only [wordBytes, leBytes, List.reverse_cons, List.reverse_nil, List.nil_append,
    List.cons_append, BitVec.toNat_ushiftRight, Nat.shiftRight_eq_div_pow]
  simp [Nat.div_div_eq_div_mul]

theorem shaDigest_eq (s : ShaState) : shaDigest s =
    [s.a, s.b, s.c, s.d, s.e].flatMap fun w => (leBytes 4 w.toNat).reverse := by
  rw [shaDigest, show wordBytes = fun w => (leBytes 4 w.toNat).reverse from funext wordBytes_eq]

theorem length_shaDigest (s : ShaState) : (shaDigest s).length = 20 := rfl

/-- `SHA_final` pads the message and works off its last blocks. -/
theorem Holds.final {ctx : ShaCtx} {m : List UInt8} (h : Holds ctx m) :
    (shaFinal ctx).take 20 = sha1 m := by
  have hone := h.update [0x80]
  have hmod := Nat.mod_lt m.length (show 64 > 0 by decide)
  have hzeros := hone.pad (n := 64) (k := (119 - m.length % 64) % 64) (by omega) (by omega) (by
    rw [List.length_append, List.length_singleton]
    omega)
  have hcount : ctx.count * 8 = BitVec.ofNat 64 m.length * 8 := by rw [h.count]
  have hlast := hzeros.updates ((List.range 8).map fun i => [countByte (ctx.count * 8) i])
  have hbytes : ((List.range 8).map fun i => [countByte (ctx.count * 8) i]).flatten =
      (leBytes 8 (8 * m.length)).reverse := by
    rw [← countBytes_eq, hcount]
    rfl
  have hpad : m ++ [0x80] ++ List.replicate ((119 - m.length % 64) % 64) 0 ++
      (leBytes 8 (8 * m.length)).reverse = Sha.pad m := by
    simp [Sha.pad]
  rw [hbytes, hpad, List.foldl_map] at hlast
  have hstate := hlast.loaded.taken
  rw [foldl_absorb (by decide)] at hstate
  have hfinal := (Prod.mk.inj hstate).1
  rw [shaFinal, List.take_left' (length_shaDigest _), ← hfinal, shaDigest_eq, sha1]

/-- Whatever the buffer held, and however the message was cut up for `SHA_update`, the
digest is that of the standard, with the number of bits modulo 2⁶⁴. -/
theorem sha_eq_sha1 (ctx : ShaCtx) (parts : List (List UInt8)) :
    (shaFinal (parts.foldl shaUpdate (shaInit ctx))).take 20 = sha1 parts.flatten := by
  have h := (holds_init ctx).updates parts
  rw [List.nil_append] at h
  exact h.final

/-- A context on a stack of zeros. -/
def zeroCtx : ShaCtx := ⟨0, Vector.replicate 64 0, ⟨0, 0, 0, 0, 0⟩⟩

/-- The message `abc`. -/
example : sha zeroCtx [0x61, 0x62, 0x63] = [0xA9, 0x99, 0x3E, 0x36, 0x47, 0x06, 0x81, 0x6A, 0xBA,
    0x3E, 0x25, 0x71, 0x78, 0x50, 0xC2, 0x6C, 0x9C, 0xD0, 0xD8, 0x9D] := by
  decide +kernel

/-! ## Passwords -/

theorem sha_eq (stack : ShaCtx) (data : List UInt8) : sha stack data = sha1 data :=
  ((holds_init stack).update data).final

theorem length_sha (stack : ShaCtx) (data : List UInt8) : (sha stack data).length = 20 := by
  rw [sha, shaFinal, List.take_left' (length_shaDigest _), length_shaDigest]

/-- What the two calls of `SHA` leave in `tmp_sha`: the second writes its digest over the
one that it reads. -/
def tmpSha (stack stack' : ShaCtx) (pwd : CString) : Vector UInt8 20 :=
  ⟨(sha stack' (sha stack pwd.bytes)).toArray, length_sha stack' _⟩

/-- A password is stored as the digest of its digest, in hexadecimal digits from the last
byte on. -/
theorem dbEncryptPwd_sha1 (stack stack' : ShaCtx) (pwd : CString) :
    (dbEncryptPwd (.release (tmpSha stack stack')) pwd).bytes =
      (sha1 (sha1 pwd.bytes)).reverse.flatMap hexByte := by
  rw [← sha_eq stack pwd.bytes, ← sha_eq stack']
  rfl

end Youmenu.Server.Sha
