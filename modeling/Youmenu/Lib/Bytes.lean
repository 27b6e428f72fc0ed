import Mathlib.Data.List.Basic
import Mathlib.Algebra.Order.Ring.Nat

/-!
# Little-endian byte strings

`leBytes` and `fromLe` convert between naturals and byte strings of a given
width, `bswap` reverses the byte order, and `word` reads a machine word off the
front of a byte string.
-/

namespace Bytes

/-- The `n` low bytes of `v`, least significant first. -/
def leBytes : ℕ → ℕ → List UInt8
  | 0, _ => []
  | n + 1, v => UInt8.ofNat v :: leBytes n (v / 256)

/-- The natural that a byte string denotes, least significant byte first. -/
def fromLe : List UInt8 → ℕ
  | [] => 0
  | b :: bs => b.toNat + 256 * fromLe bs

/-- Reverse the byte order of an `n`-byte number. -/
def bswap (n v : ℕ) : ℕ := fromLe (leBytes n v).reverse

@[simp] theorem length_leBytes (n v : ℕ) : (leBytes n v).length = n := by
  induction n generalizing v with
  | zero => rfl
  | succ n ih => simp [leBytes, ih]

theorem fromLe_leBytes (n v : ℕ) : fromLe (leBytes n v) = v % 256 ^ n := by
  induction n generalizing v with
  | zero => simp [leBytes, fromLe, Nat.mod_one]
  | succ n ih =>
    rw [leBytes, fromLe, ih, pow_succ', Nat.mod_mul]
    simp

theorem fromLe_leBytes_of_lt {n v : ℕ} (h : v < 256 ^ n) : fromLe (leBytes n v) = v := by
  rw [fromLe_leBytes, Nat.mod_eq_of_lt h]

theorem fromLe_lt (bs : List UInt8) : fromLe bs < 256 ^ bs.length := by
  induction bs with
  | nil => simp [fromLe]
  | cons b bs ih =>
    have := b.toNat_lt
    rw [fromLe, List.length_cons, pow_succ']
    omega

theorem leBytes_fromLe (bs : List UInt8) : leBytes bs.length (fromLe bs) = bs := by
  induction bs with
  | nil => rfl
  | cons b bs ih =>
    have hb := b.toNat_lt
    have hdiv : (b.toNat + 256 * fromLe bs) / 256 = fromLe bs := by omega
    have hlow : UInt8.ofNat (b.toNat + 256 * fromLe bs) = b := by
      apply UInt8.toNat_inj.mp
      simp
    rw [List.length_cons, leBytes, fromLe, hdiv, hlow, ih]

theorem leBytes_bswap (n v : ℕ) : leBytes n (bswap n v) = (leBytes n v).reverse := by
  have h := leBytes_fromLe (leBytes n v).reverse
  rwa [List.length_reverse, length_leBytes] at h

theorem bswap_lt (n v : ℕ) : bswap n v < 256 ^ n := by
  simpa [bswap] using fromLe_lt (leBytes n v).reverse

/-- Swapping twice restores every number of the given width. -/
theorem bswap_bswap {n v : ℕ} (h : v < 256 ^ n) : bswap n (bswap n v) = v := by
  rw [bswap, leBytes_bswap, List.reverse_reverse, fromLe_leBytes_of_lt h]

/-- The word of `n` bytes at the front of a byte string. -/
def word (n : ℕ) (bs : List UInt8) : ℕ := fromLe (bs.take n)

theorem word_lt (n : ℕ) (bs : List UInt8) : word n bs < 256 ^ n :=
  (fromLe_lt _).trans_le (Nat.pow_le_pow_right (by decide) (by simp))

theorem word_leBytes_append {n v : ℕ} (h : v < 256 ^ n) (rest : List UInt8) :
    word n (leBytes n v ++ rest) = v := by
  rw [word, List.take_left' (length_leBytes n v), fromLe_leBytes_of_lt h]

end Bytes
