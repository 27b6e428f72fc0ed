import Mathlib.Data.List.Nodup
import Mathlib.Data.List.Basic
import Mathlib.Logic.Function.Basic
import Mathlib.Tactic.Common

/-!
# Rings of linked cells

Every cell names a next and a previous one. A ring is a cell together with the
cells that lie behind it, each of which names its two neighbours. Rings are
symmetric in their cells, so that a change at the front of a ring is one at any
place of it.

## Main definitions

* `Links` — the two neighbours of every cell.
* `Links.Path` — cells that lie one behind the other, both ways.
* `Links.Ring` — a path that comes back to where it started.
-/

structure Links (α : Type*) where
  next : α → α
  prev : α → α

namespace Links

variable {α : Type*} {m m' : Links α} {a b c h x y : α} {xs ys : List α}

section Writes

variable [DecidableEq α]

def setNext (m : Links α) (a b : α) : Links α := { m with next := Function.update m.next a b }

def setPrev (m : Links α) (a b : α) : Links α := { m with prev := Function.update m.prev a b }

/-- Make two cells neighbours. -/
def link (m : Links α) (a b : α) : Links α := (m.setPrev b a).setNext a b

@[simp, grind =] theorem next_setNext (m : Links α) (a b c : α) :
    (m.setNext a b).next c = if c = a then b else m.next c := by
  simp [setNext, Function.update_apply]

@[simp, grind =] theorem prev_setNext (m : Links α) (a b : α) : (m.setNext a b).prev = m.prev :=
  rfl

@[simp, grind =] theorem prev_setPrev (m : Links α) (a b c : α) :
    (m.setPrev a b).prev c = if c = a then b else m.prev c := by
  simp [setPrev, Function.update_apply]

@[simp, grind =] theorem next_setPrev (m : Links α) (a b : α) : (m.setPrev a b).next = m.next :=
  rfl

@[simp, grind =] theorem next_link (m : Links α) (a b c : α) :
    (m.link a b).next c = if c = a then b else m.next c := by
  simp [link]

@[simp, grind =] theorem prev_link (m : Links α) (a b c : α) :
    (m.link a b).prev c = if c = b then a else m.prev c := by
  simp [link]

end Writes

/-! ## Paths -/

/-- From `a` through `xs` to `b`, and back. -/
def Path (m : Links α) : α → List α → α → Prop
  | a, [], b => m.next a = b ∧ m.prev b = a
  | a, x :: xs, b => m.next a = x ∧ m.prev x = a ∧ Path m x xs b

theorem path_append : m.Path a (xs ++ x :: ys) b ↔ m.Path a xs x ∧ m.Path x ys b := by
  induction xs generalizing a with
  | nil => simp [Path, and_assoc]
  | cons y xs ih => simp [Path, ih, and_assoc]

/-- Only the next cells on the way and the previous cells on the way back are read. -/
theorem Path.congr (h : m.Path a xs b) (hnext : ∀ c ∈ a :: xs, m'.next c = m.next c)
    (hprev : ∀ c ∈ b :: xs, m'.prev c = m.prev c) : m'.Path a xs b := by
  induction xs generalizing a with
  | nil =>
    obtain ⟨hab, hba⟩ := h
    exact ⟨(hnext a (by simp)).trans hab, (hprev b (by simp)).trans hba⟩
  | cons x xs ih =>
    obtain ⟨hax, hxa, hrest⟩ := h
    refine ⟨(hnext a (by simp)).trans hax, (hprev x (by simp)).trans hxa, ih hrest ?_ ?_⟩
    · intro c hc
      exact hnext c (List.mem_cons_of_mem _ hc)
    · intro c hc
      refine hprev c ?_
      grind

theorem Path.next_mem (p : m.Path a xs b) : m.next a ∈ b :: xs := by
  cases xs with
  | nil => simp [p.1]
  | cons x xs => simp [p.1]

theorem Path.prev_mem (p : m.Path a xs b) : m.prev b ∈ a :: xs := by
  induction xs generalizing a with
  | nil => simp [p.2]
  | cons x xs ih => exact List.mem_cons_of_mem _ (ih p.2.2)

theorem Path.link [DecidableEq α] (p : m.Path a xs b) (hx : x ∉ a :: xs) (hy : y ∉ b :: xs) :
    (m.link x y).Path a xs b := by
  apply p.congr <;> grind

/-- Both ends of a path are moved. -/
theorem Path.redirect [DecidableEq α] (p : m.Path a (x :: xs) b) (hnodup : (x :: xs).Nodup)
    (hh : h ∉ x :: xs) (hc : c ∉ x :: xs) :
    ((m.link h (m.next a)).link (m.prev b) c).Path h (x :: xs) c := by
  obtain ⟨hnext, -, hrest⟩ := p
  rw [hnext]
  rcases List.eq_nil_or_concat xs with rfl | ⟨ys, y, rfl⟩
  · have hprev : m.prev b = x := hrest.2
    refine ⟨by grind, by grind, by grind, by grind⟩
  · rw [List.concat_eq_append] at *
    obtain ⟨hpath, -, hprev⟩ := path_append.mp hrest
    refine ⟨by grind, by grind, path_append.mpr ⟨?_, by grind, by grind⟩⟩
    apply Path.link (Path.link hpath _ _) <;> grind

/-- The links the other way round. -/
def flip (m : Links α) : Links α := ⟨m.prev, m.next⟩

theorem Path.flip (p : m.Path a xs b) : m.flip.Path b xs.reverse a := by
  induction xs generalizing a with
  | nil => exact ⟨p.2, p.1⟩
  | cons x xs ih =>
    rw [List.reverse_cons]
    exact path_append.mpr ⟨ih p.2.2, p.2.1, p.1⟩

/-! ## Rings -/

/-- The cells of `xs` lie behind `h`, and `h` behind the last of them. -/
structure Ring (m : Links α) (h : α) (xs : List α) : Prop where
  nodup : (h :: xs).Nodup
  path : m.Path h xs h

/-- A ring starts at any of its cells. -/
theorem ring_rotate : m.Ring h (xs ++ x :: ys) ↔ m.Ring x (ys ++ h :: xs) := by
  have hperm : (h :: (xs ++ x :: ys)).Perm (x :: (ys ++ h :: xs)) := by
    have happend : ((h :: xs) ++ x :: ys).Perm ((x :: ys) ++ h :: xs) := List.perm_append_comm
    simpa using happend
  constructor
  · rintro ⟨hnodup, hpath⟩
    exact ⟨hperm.nodup_iff.mp hnodup, path_append.mpr (path_append.mp hpath).symm⟩
  · rintro ⟨hnodup, hpath⟩
    exact ⟨hperm.nodup_iff.mpr hnodup, path_append.mpr (path_append.mp hpath).symm⟩

namespace Ring

theorem congr (r : m.Ring h xs) (hnext : ∀ c ∈ h :: xs, m'.next c = m.next c)
    (hprev : ∀ c ∈ h :: xs, m'.prev c = m.prev c) : m'.Ring h xs :=
  ⟨r.nodup, r.path.congr hnext hprev⟩

theorem flip (r : m.Ring h xs) : m.flip.Ring h xs.reverse :=
  ⟨by simpa using r.nodup, r.path.flip⟩

theorem singleton [DecidableEq α] (m : Links α) (h : α) : ((m.setNext h h).setPrev h h).Ring h [] :=
  ⟨List.nodup_singleton h, by simp [Path]⟩

theorem next_mem (r : m.Ring h xs) (hx : x ∈ h :: xs) : m.next x ∈ h :: xs := by
  rcases List.mem_cons.mp hx with rfl | hx
  · exact r.path.next_mem
  · obtain ⟨ys, zs, rfl⟩ := List.append_of_mem hx
    have hmem := (ring_rotate.mp r).path.next_mem
    grind

theorem prev_mem (r : m.Ring h xs) (hx : x ∈ h :: xs) : m.prev x ∈ h :: xs := by
  rcases List.mem_cons.mp hx with rfl | hx
  · exact r.path.prev_mem
  · obtain ⟨ys, zs, rfl⟩ := List.append_of_mem hx
    have hmem := (ring_rotate.mp r).path.prev_mem
    grind

theorem next_eq_self_iff (r : m.Ring h xs) : m.next h = h ↔ xs = [] := by
  cases xs with
  | nil => simpa using r.path.1
  | cons x xs =>
    have hne : x ≠ h := by grind [r.nodup]
    simpa [r.path.1] using hne

section Writes

variable [DecidableEq α]

/-- A new cell behind the first one. -/
theorem push (r : m.Ring h xs) (hx : x ∉ h :: xs) :
    ((m.link x (m.next h)).link h x).Ring h (x :: xs) := by
  have hnodup := r.nodup
  refine ⟨by grind, by grind, by grind, ?_⟩
  cases xs with
  | nil =>
    have hnext := r.path.1
    simp only [Path]
    grind
  | cons y ys =>
    obtain ⟨hnext, -, hrest⟩ := r.path
    refine ⟨by grind, by grind, ?_⟩
    rw [hnext]
    apply Path.link <;> grind [Path.link]

/-- A new cell before the first one. -/
theorem pushBack (r : m.Ring h xs) (hx : x ∉ h :: xs) :
    ((m.link x h).link (m.prev h) x).Ring h (xs ++ [x]) := by
  rcases List.eq_nil_or_concat xs with rfl | ⟨ys, y, rfl⟩
  · have hpush := r.push hx
    have hnext := r.path.1
    have hprev := r.path.2
    rw [hnext] at hpush
    rwa [hprev]
  · rw [List.concat_eq_append] at r hx ⊢
    have r' : m.Ring y ([] ++ h :: ys) := ring_rotate.mp r
    have hpush := r'.push (x := x) (by grind)
    have hnext : m.next y = h := r'.path.1
    have hprev : m.prev h = y := r'.path.2.1
    rw [hnext] at hpush
    rw [hprev, List.append_assoc]
    exact ring_rotate.mpr hpush

/-- The cell that was first is left out. -/
theorem pop (r : m.Ring h (x :: xs)) : (m.link (m.prev h) (m.next h)).Ring x xs := by
  have hnodup := r.nodup
  obtain ⟨hnext, -, hrest⟩ := r.path
  rw [hnext]
  refine ⟨by grind, ?_⟩
  rcases List.eq_nil_or_concat xs with rfl | ⟨ys, y, rfl⟩
  · have hprev : m.prev h = x := hrest.2
    rw [hprev]
    simp [Path]
  · rw [List.concat_eq_append] at r hnodup hrest ⊢
    obtain ⟨hpath, -, hprev⟩ := path_append.mp hrest
    rw [hprev]
    refine path_append.mpr ⟨?_, by simp [Path]⟩
    apply hpath.link <;> grind

/-- A cell behind the first one is left out. -/
theorem remove (r : m.Ring h (xs ++ x :: ys)) :
    (m.link (m.prev x) (m.next x)).Ring h (xs ++ ys) := by
  have r' := ring_rotate.mp r
  cases ys with
  | nil => simpa using r'.pop
  | cons y ys => exact ring_rotate.mpr r'.pop

/-- The cells behind `a` are put behind `h`, before those that were there. -/
theorem splice (r : m.Ring h ys) (r' : m.Ring a xs) (hne : xs ≠ [])
    (hdisj : (h :: ys).Disjoint (a :: xs)) :
    ((m.link h (m.next a)).link (m.prev a) (m.next h)).Ring h (xs ++ ys) := by
  have hxs := List.nodup_cons.mp r'.nodup
  have hys := List.nodup_cons.mp r.nodup
  obtain ⟨x, xs, rfl⟩ := List.exists_cons_of_ne_nil hne
  refine ⟨by grind [List.Disjoint], ?_⟩
  cases ys with
  | nil =>
    have hnext := r.path.1
    rw [hnext, List.append_nil]
    apply r'.path.redirect hxs.2 <;> grind [List.Disjoint]
  | cons y ys =>
    obtain ⟨hnext, -, hrest⟩ := r.path
    have hlast : m.prev a ∈ x :: xs := r'.path.2.2.prev_mem
    rw [hnext]
    refine path_append.mpr ⟨?_, ?_⟩
    · apply r'.path.redirect hxs.2 <;> grind [List.Disjoint]
    · have hfirst := r'.path.1
      apply Path.link (Path.link hrest _ _) <;> grind [List.Disjoint]

end Writes

end Ring

end Links
