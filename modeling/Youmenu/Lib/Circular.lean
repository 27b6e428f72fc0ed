import Mathlib.Data.List.Basic
import Mathlib.Algebra.Order.Ring.Int
import Mathlib.Tactic.Common
import Mathlib.Tactic.SplitIfs

/-!
# Circular regions of a flat memory

Memory is a total function from addresses to cells. `cells` reads a straight
run of cells, `copyIn` is a block copy into memory, and `ring` reads cells in
circular order. Addresses are integers, so that a computation which leaves its
region is still an ordinary value. No theorem here mentions an algorithm; the
laws say how a circular view changes when its front is dropped or when cells
are copied behind it in at most two blocks.
-/

namespace Circular

variable {α : Type*}

/-- The `n` cells of `m` from address `a` on. -/
def cells (m : ℤ → α) (a : ℤ) (n : ℕ) : List α :=
  (List.range n).map fun i : ℕ => m (a + i)

/-- Copy the block `xs` to address `a`; every other cell is left alone. -/
def copyIn (m : ℤ → α) (a : ℤ) (xs : List α) : ℤ → α := fun i =>
  if a ≤ i then xs.getD (i - a).toNat (m i) else m i

/-- The `n` cells of `m` in circular order from `head`, inside `[0, cap)`. -/
def ring (m : ℤ → α) (cap head : ℤ) (n : ℕ) : List α :=
  (List.range n).map fun i : ℕ => m ((head + i) % cap)

@[simp] theorem length_cells (m : ℤ → α) (a : ℤ) (n : ℕ) : (cells m a n).length = n := by
  simp [cells]

@[simp] theorem length_ring (m : ℤ → α) (cap head : ℤ) (n : ℕ) :
    (ring m cap head n).length = n := by simp [ring]

@[simp] theorem cells_zero (m : ℤ → α) (a : ℤ) : cells m a 0 = [] := rfl

@[simp] theorem ring_zero (m : ℤ → α) (cap head : ℤ) : ring m cap head 0 = [] := rfl

/-- Cells that agree position by position give equal runs. -/
theorem cells_congr {m m' : ℤ → α} {a b : ℤ} {n : ℕ}
    (h : ∀ i : ℕ, i < n → m (a + i) = m' (b + i)) : cells m a n = cells m' b n := by
  apply List.map_congr_left
  intro i hi
  exact h i (List.mem_range.mp hi)

theorem cells_add (m : ℤ → α) (a : ℤ) (n k : ℕ) :
    cells m a (n + k) = cells m a n ++ cells m (a + n) k := by
  simp only [cells, List.range_add, List.map_append, List.map_map]
  congr 1
  apply List.map_congr_left
  intro i _
  simp [Int.add_assoc]

theorem take_cells (m : ℤ → α) (a : ℤ) {n k : ℕ} (h : k ≤ n) :
    (cells m a n).take k = cells m a k := by
  obtain ⟨j, rfl⟩ := Nat.exists_eq_add_of_le h
  rw [cells_add, List.take_left' (length_cells m a k)]

theorem copyIn_of_lt (m : ℤ → α) {a i : ℤ} (xs : List α) (h : i < a) :
    copyIn m a xs i = m i := by simp [copyIn, not_le.mpr h]

theorem copyIn_of_ge (m : ℤ → α) {a i : ℤ} (xs : List α) (h : a + xs.length ≤ i) :
    copyIn m a xs i = m i := by
  have hlen : xs.length ≤ (i - a).toNat := by omega
  unfold copyIn
  split_ifs with hi
  · simp [List.getD_eq_getElem?_getD, List.getElem?_eq_none hlen]
  · rfl

theorem copyIn_inside (m : ℤ → α) (a : ℤ) (xs : List α) {i : ℕ} (h : i < xs.length) :
    copyIn m a xs (a + i) = xs[i] := by
  simp [copyIn, List.getD_eq_getElem?_getD, h]

/-- A block copied in is read back unchanged. -/
@[simp] theorem cells_copyIn_self (m : ℤ → α) (a : ℤ) (xs : List α) :
    cells (copyIn m a xs) a xs.length = xs := by
  apply List.ext_getElem
  · simp
  · intro i hi hj
    simp [cells, copyIn_inside m a xs hj]

theorem cells_copyIn (m : ℤ → α) (a : ℤ) (xs : List α) {n : ℕ} (h : xs.length = n) :
    cells (copyIn m a xs) a n = xs := by rw [← h, cells_copyIn_self]

/-- Copying in what is there changes nothing. -/
theorem copyIn_cells (m : ℤ → α) (a : ℤ) (n : ℕ) : copyIn m a (cells m a n) = m := by
  funext i
  by_cases hlow : i < a
  · exact copyIn_of_lt m _ hlow
  by_cases hhigh : a + n ≤ i
  · exact copyIn_of_ge m _ (by rwa [length_cells])
  obtain ⟨j, rfl⟩ : ∃ j : ℕ, i = a + j := ⟨(i - a).toNat, by omega⟩
  have hj : j < (cells m a n).length := by rw [length_cells]; omega
  rw [copyIn_inside m a _ hj]
  simp [cells]

/-- A block copied elsewhere is not seen. -/
theorem cells_copyIn_disjoint (m : ℤ → α) (a b : ℤ) (xs : List α) (n : ℕ)
    (h : b + n ≤ a ∨ a + xs.length ≤ b) :
    cells (copyIn m a xs) b n = cells m b n := by
  apply cells_congr
  intro i hi
  rcases h with h | h
  · exact copyIn_of_lt m xs (by omega)
  · exact copyIn_of_ge m xs (by omega)

/-- Two adjacent copies read back as one block. -/
theorem cells_copyIn_pair (m : ℤ → α) (a : ℤ) (xs ys : List α) :
    cells (copyIn (copyIn m a xs) (a + xs.length) ys) a (xs.length + ys.length) = xs ++ ys := by
  rw [cells_add, cells_copyIn_self, cells_copyIn_disjoint _ _ _ _ _ (Or.inl (by omega)),
    cells_copyIn_self]

/-- One revolution is undone by one subtraction. -/
theorem emod_of_lt_two {cap x : ℤ} (h0 : 0 ≤ x) (h : x < 2 * cap) :
    x % cap = if x < cap then x else x - cap := by
  split_ifs with hx
  · exact Int.emod_eq_of_lt h0 hx
  · rw [← Int.emod_eq_of_lt (a := x - cap) (b := cap) (by omega) (by omega)]
    simp

/-- A circular view is a front followed by the view from where the front ends. -/
theorem ring_add (m : ℤ → α) (cap head : ℤ) (k j : ℕ) :
    ring m cap head (k + j) = ring m cap head k ++ ring m cap ((head + k) % cap) j := by
  simp only [ring, List.range_add, List.map_append, List.map_map]
  congr 1
  apply List.map_congr_left
  intro i _
  simp [Int.add_assoc]

theorem ring_congr {m m' : ℤ → α} {cap head : ℤ} {n : ℕ}
    (h : ∀ i : ℕ, i < n → m ((head + i) % cap) = m' ((head + i) % cap)) :
    ring m cap head n = ring m' cap head n := by
  apply List.map_congr_left
  intro i hi
  exact h i (List.mem_range.mp hi)

/-- A view that does not reach the end of the region is a straight run. -/
theorem ring_eq_cells (m : ℤ → α) {cap head : ℤ} {n : ℕ} (h0 : 0 ≤ head)
    (h : head + n ≤ cap) : ring m cap head n = cells m head n := by
  apply List.map_congr_left
  intro i hi
  have := List.mem_range.mp hi
  rw [Int.emod_eq_of_lt (by omega) (by omega)]

/-- A view that passes the end of the region is two straight runs. -/
theorem ring_eq_cells_append (m : ℤ → α) {cap head : ℤ} {k j : ℕ} (h0 : 0 ≤ head)
    (hk : head + k = cap) (hj : (j : ℤ) ≤ cap) :
    ring m cap head (k + j) = cells m head k ++ cells m 0 j := by
  rw [ring_add, ring_eq_cells m h0 (by omega), hk, Int.emod_self, ring_eq_cells m le_rfl (by omega)]

section Write

variable {m : ℤ → α} {cap head : ℤ} {n : ℕ}

/-- Copying behind the view, before the end of the region, leaves the view alone. -/
theorem ring_copyIn_behind (h0 : 0 ≤ head) (hc : head < cap) (xs : List α)
    (hroom : n + xs.length ≤ cap) (hend : (head + n) % cap + xs.length ≤ cap) :
    ring (copyIn m ((head + n) % cap) xs) cap head n = ring m cap head n := by
  apply ring_congr
  intro i hi
  rw [emod_of_lt_two (x := head + n) (by omega) (by omega)] at hend ⊢
  rw [emod_of_lt_two (x := head + i) (by omega) (by omega)]
  split_ifs at hend ⊢ with htail hpos hpos
  · exact copyIn_of_lt m xs (by omega)
  · exact copyIn_of_lt m xs (by omega)
  · exact copyIn_of_ge m xs (by omega)
  · exact copyIn_of_lt m xs (by omega)

/-- One block copied behind the view is appended to it. -/
theorem ring_append (h0 : 0 ≤ head) (hc : head < cap) (xs : List α)
    (hroom : n + xs.length ≤ cap) (hend : (head + n) % cap + xs.length ≤ cap) :
    ring (copyIn m ((head + n) % cap) xs) cap head (n + xs.length) =
      ring m cap head n ++ xs := by
  have hpos : 0 ≤ (head + n) % cap := Int.emod_nonneg _ (by omega)
  rw [ring_add, ring_copyIn_behind h0 hc xs hroom hend, ring_eq_cells _ hpos hend,
    cells_copyIn_self]

end Write

end Circular
