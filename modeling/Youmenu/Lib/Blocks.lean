import Mathlib.Data.List.Induction

/-!
# Blocks of a stream

A list is read one value at a time and handed on in blocks of a fixed length. However the
list comes in, the blocks are its sections of that length from the front, and what is left
over waits for more.

## Main definitions

* `blocks`, `rest` — the full sections of a list, and what is left over.
* `absorb` — one value more: it waits, or it fills a block that is taken in.

## Main statements

* `foldl_absorb` — values taken in one by one are taken in by blocks.
-/

namespace Blocks

variable {α σ : Type*} (n : ℕ)

/-- The sections of length `n` from the front of the list. -/
def blocks (xs : List α) : List (List α) :=
  (List.range (xs.length / n)).map fun k => (xs.drop (k * n)).take n

/-- What the sections leave over. -/
def rest (xs : List α) : List α := xs.drop (xs.length / n * n)

@[simp] theorem blocks_nil : blocks n ([] : List α) = [] := by simp [blocks]

@[simp] theorem rest_nil : rest n ([] : List α) = [] := by simp [rest]

theorem length_rest (xs : List α) : (rest n xs).length = xs.length % n := by
  have hdiv := Nat.div_add_mod' xs.length n
  rw [rest, List.length_drop]
  omega

theorem end_le {xs : List α} {k : ℕ} (hk : k ∈ List.range (xs.length / n)) :
    k * n + n ≤ xs.length := by
  have hle : (k + 1) * n ≤ xs.length / n * n := Nat.mul_le_mul_right n (List.mem_range.mp hk)
  have hdiv := Nat.div_mul_le_self xs.length n
  rw [Nat.succ_mul] at hle
  omega

/-- A section is not changed by what comes behind it. -/
theorem section_append {xs : List α} {k : ℕ} (hk : k ∈ List.range (xs.length / n))
    (ys : List α) : ((xs ++ ys).drop (k * n)).take n = (xs.drop (k * n)).take n := by
  have hle := end_le n hk
  rw [List.drop_append_of_le_length (by omega), List.take_append_of_le_length]
  rw [List.length_drop]
  omega

variable {n}

/-- A value that does not fill a block. -/
theorem snoc_of_lt {xs : List α} {a : α} (h : xs.length % n + 1 < n) :
    blocks n (xs ++ [a]) = blocks n xs ∧ rest n (xs ++ [a]) = rest n xs ++ [a] := by
  have hmod := Nat.div_add_mod' xs.length n
  have hdiv : (xs ++ [a]).length / n = xs.length / n := by
    rw [List.length_append, List.length_singleton, Nat.div_eq_iff (by omega)]
    rw [Nat.mul_comm] at hmod ⊢
    omega
  constructor
  · rw [blocks, hdiv]
    exact List.map_congr_left fun k hk => section_append n hk [a]
  · rw [rest, hdiv, List.drop_append_of_le_length (by omega), rest]

/-- The value that fills a block. -/
theorem snoc_of_eq {xs : List α} {a : α} (h : xs.length % n + 1 = n) :
    blocks n (xs ++ [a]) = blocks n xs ++ [rest n xs ++ [a]] ∧ rest n (xs ++ [a]) = [] := by
  have hmod := Nat.div_add_mod' xs.length n
  have hlength : (xs ++ [a]).length = (xs.length / n + 1) * n := by
    rw [List.length_append, List.length_singleton, Nat.succ_mul]
    omega
  have hdiv : (xs ++ [a]).length / n = xs.length / n + 1 := by
    rw [hlength, Nat.mul_div_cancel _ (by omega)]
  constructor
  · have hlast : ((xs ++ [a]).drop (xs.length / n * n)).take n = rest n xs ++ [a] := by
      rw [List.drop_append_of_le_length (by omega), rest, List.take_of_length_le]
      rw [List.length_append, List.length_drop, List.length_singleton]
      omega
    rw [blocks, hdiv, List.range_succ, List.map_append, List.map_singleton, hlast,
      List.map_congr_left fun k hk => section_append n hk [a], blocks]
  · rw [rest, hdiv, ← hlength, List.drop_length]

/-- Take in a value: `f` takes in the block that it fills. -/
def absorb (n : ℕ) (f : σ → List α → σ) (s : σ × List α) (a : α) : σ × List α :=
  if s.2.length + 1 = n then (f s.1 (s.2 ++ [a]), []) else (s.1, s.2 ++ [a])

/-- Values that are taken in one by one are taken in by blocks. -/
theorem foldl_absorb (hn : 0 < n) (f : σ → List α → σ) (s : σ) (xs : List α) :
    xs.foldl (absorb n f) (s, []) = ((blocks n xs).foldl f s, rest n xs) := by
  induction xs using List.reverseRecOn with
  | nil => simp
  | append_singleton xs a ih =>
    have hlt := Nat.mod_lt xs.length hn
    rw [List.foldl_append, ih, List.foldl_cons, List.foldl_nil, absorb]
    dsimp only
    rw [length_rest]
    split
    · next hfull =>
      obtain ⟨hblocks, hrest⟩ := snoc_of_eq (a := a) hfull
      rw [hblocks, hrest, List.foldl_append]
      rfl
    · next hpart =>
      obtain ⟨hblocks, hrest⟩ := snoc_of_lt (a := a) (show xs.length % n + 1 < n by omega)
      rw [hblocks, hrest]

end Blocks
