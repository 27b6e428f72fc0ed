import Youmenu.Lib.Circular
import Mathlib.Tactic.Ring

/-!
# Records in a flat memory

An array of records of one size. A record is filled by a list of writes, each a block
of cells and its offset in the record. As long as the writes stay inside their records,
what a record holds depends on its own writes only.

## Main definitions

* `fill` — the writes to one record.
* `fillAll` — the writes to the records of an array, one after the other.
* `Confined` — writes that stay inside a record.
* `Apart` — writes that do not meet.
-/

namespace Records

open Circular

variable {α : Type*}

/-- Do the writes to the record at address `base`. -/
def fill (m : ℤ → α) (base : ℤ) (ws : List (ℕ × List α)) : ℤ → α :=
  ws.foldl (fun m w => copyIn m (base + w.1) w.2) m

/-- Fill the records from number `k` on. -/
def fillAll (size : ℕ) (m : ℤ → α) (k : ℕ) : List (List (ℕ × List α)) → ℤ → α
  | [] => m
  | ws :: recs => fillAll size (fill m (k * size) ws) (k + 1) recs

/-- The writes stay inside a record of that size. -/
def Confined (size : ℕ) (ws : List (ℕ × List α)) : Prop := ∀ w ∈ ws, w.1 + w.2.length ≤ size

/-- The writes do not meet. -/
def Apart (w w' : ℕ × List α) : Prop := w.1 + w.2.length ≤ w'.1 ∨ w'.1 + w'.2.length ≤ w.1

@[simp] theorem fill_nil (m : ℤ → α) (base : ℤ) : fill m base [] = m := rfl

@[simp] theorem fill_cons (m : ℤ → α) (base : ℤ) (w : ℕ × List α) (ws : List (ℕ × List α)) :
    fill m base (w :: ws) = fill (copyIn m (base + w.1) w.2) base ws := rfl

theorem fill_append (m : ℤ → α) (base : ℤ) (ws ws' : List (ℕ × List α)) :
    fill m base (ws ++ ws') = fill (fill m base ws) base ws' := List.foldl_append

/-- A cell after the writes depends on that cell before them. -/
theorem fill_congr {m m' : ℤ → α} {i : ℤ} (h : m i = m' i) (base : ℤ) (ws : List (ℕ × List α)) :
    fill m base ws i = fill m' base ws i := by
  induction ws generalizing m m' with
  | nil => exact h
  | cons w ws ih =>
    refine ih ?_
    simp only [copyIn, h]

/-- Cells that no write meets stay as they were. -/
theorem cells_fill_outside (m : ℤ → α) (base : ℤ) {ws : List (ℕ × List α)} {a : ℤ} {n : ℕ}
    (h : ∀ w ∈ ws, a + n ≤ base + w.1 ∨ base + w.1 + w.2.length ≤ a) :
    cells (fill m base ws) a n = cells m a n := by
  induction ws generalizing m with
  | nil => rfl
  | cons w ws ih =>
    rw [fill_cons, ih _ fun w' hw' => h w' (.tail _ hw')]
    exact cells_copyIn_disjoint m _ _ _ _ (h w (.head _))

/-- A block is read back if no later write meets it. -/
theorem cells_fill_at (m : ℤ → α) (base : ℤ) (ws : List (ℕ × List α)) (w : ℕ × List α)
    {ws' : List (ℕ × List α)}
    (h : ∀ w' ∈ ws', Apart w w') :
    cells (fill m base (ws ++ w :: ws')) (base + w.1) w.2.length = w.2 := by
  rw [fill_append, fill_cons, cells_fill_outside]
  · exact cells_copyIn_self _ _ _
  · intro w' hw'
    have := h w' hw'
    unfold Apart at this
    omega

/-- The front of a block is read back if no later write meets the block. -/
theorem cells_fill_front (m : ℤ → α) (base : ℤ) (ws : List (ℕ × List α)) (off : ℕ)
    (xs ys : List α) {ws' : List (ℕ × List α)} (h : ∀ w' ∈ ws', Apart (off, xs ++ ys) w') :
    cells (fill m base (ws ++ (off, xs ++ ys) :: ws')) (base + off) xs.length = xs := by
  have hblock := cells_fill_at m base ws (off, xs ++ ys) h
  have hle : xs.length ≤ (xs ++ ys).length := by simp
  rw [← take_cells _ _ hle, hblock, List.take_left]

/-- The front of a block is read back if no two writes meet. -/
theorem cells_fill_of_mem (m : ℤ → α) (base : ℤ) {ws : List (ℕ × List α)} (h : ws.Pairwise Apart)
    {off : ℕ} {xs ys : List α} (hmem : (off, xs ++ ys) ∈ ws) :
    cells (fill m base ws) (base + off) xs.length = xs := by
  obtain ⟨ws₁, ws₂, rfl⟩ := List.append_of_mem hmem
  have hlater := (List.pairwise_cons.mp (List.pairwise_append.mp h).2.1).1
  exact cells_fill_front m base ws₁ off xs ys hlater

/-- Equal memories around two records are filled alike. -/
theorem fill_shift {m m' : ℤ → α} (base base' : ℤ) (h : ∀ j, m (base + j) = m' (base' + j))
    (ws : List (ℕ × List α)) (j : ℤ) : fill m base ws (base + j) = fill m' base' ws (base' + j) := by
  induction ws generalizing m m' with
  | nil => exact h j
  | cons w ws ih =>
    refine ih fun j => ?_
    simp only [copyIn, add_le_add_iff_left, add_sub_add_left_eq_sub, h j]

/-- Cells before or behind the records stay as they were. -/
theorem cells_fillAll_outside {size : ℕ} (m : ℤ → α) (k : ℕ) {recs : List (List (ℕ × List α))}
    (hrecs : ∀ ws ∈ recs, Confined size ws) {a : ℤ} {n : ℕ}
    (h : a + n ≤ k * size ∨ ((k + recs.length : ℕ) : ℤ) * size ≤ a) :
    cells (fillAll size m k recs) a n = cells m a n := by
  induction recs generalizing m k with
  | nil => rfl
  | cons ws recs ih =>
    have hsucc : ((k + 1 : ℕ) : ℤ) * size = k * size + size := by push_cast; ring
    have hend : (k * size + size : ℤ) ≤ ((k + (recs.length + 1) : ℕ) : ℤ) * size := by
      rw [← hsucc]
      exact mul_le_mul_of_nonneg_right (by omega) (by omega)
    rw [List.length_cons] at h
    rw [fillAll, ih _ _ fun ws' hws' => hrecs ws' (.tail _ hws')]
    · refine cells_fill_outside m _ fun w hw => ?_
      have := hrecs ws (.head _) w hw
      omega
    · rw [hsucc, Nat.add_right_comm, Nat.add_assoc]
      omega

/-- What a record holds depends on its own writes only. -/
theorem cells_fillAll {size : ℕ} (m : ℤ → α) (k : ℕ) {recs : List (List (ℕ × List α))}
    (hrecs : ∀ ws ∈ recs, Confined size ws) {i off n : ℕ} {ws : List (ℕ × List α)}
    (hi : recs[i]? = some ws) (hoff : off + n ≤ size) :
    cells (fillAll size m k recs) (((k + i : ℕ) : ℤ) * size + off) n =
      cells (fill m (((k + i : ℕ) : ℤ) * size) ws) (((k + i : ℕ) : ℤ) * size + off) n := by
  induction recs generalizing m k i with
  | nil => simp at hi
  | cons ws₀ recs ih =>
    have hsucc : ((k + 1 : ℕ) : ℤ) * size = k * size + size := by push_cast; ring
    have hrest : ∀ ws ∈ recs, Confined size ws := fun ws' hws' => hrecs ws' (.tail _ hws')
    cases i with
    | zero =>
      obtain rfl : ws₀ = ws := by simpa using hi
      simp only [fillAll, Nat.add_zero]
      refine cells_fillAll_outside _ _ hrest (.inl ?_)
      rw [hsucc]
      omega
    | succ i =>
      have hshift : k + (i + 1) = k + 1 + i := by omega
      rw [fillAll, hshift, ih _ _ hrest (by simpa using hi)]
      -- the writes to record `k` end before record `k + 1 + i` begins
      have hbefore : (k * size + size : ℤ) ≤ ((k + 1 + i : ℕ) : ℤ) * size := by
        rw [← hsucc]
        exact mul_le_mul_of_nonneg_right (by omega) (by omega)
      refine cells_congr fun j hj => fill_congr ?_ _ _
      have hone : cells (fill m (k * size) ws₀) (((k + 1 + i : ℕ) : ℤ) * size + off + j) 1 =
          cells m (((k + 1 + i : ℕ) : ℤ) * size + off + j) 1 := by
        refine cells_fill_outside m _ fun w hw => ?_
        have := hrecs ws₀ (.head _) w hw
        omega
      simpa [cells] using hone

end Records
