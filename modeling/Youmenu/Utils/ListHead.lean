import Youmenu.Lib.Ring
import Mathlib.Data.List.Lattice

/-!
# Linked lists: `list.h`

The lists of the program are rings of `struct list_head`, on which the functions of
`list.h` write by pointer. A cell that is not allocated must not be touched. Each call
does to the lists what it says, and leaves all others alone.

## Main definitions

* `Heap` — the cells.
* `listAdd`, `listDel`, `listSplice`, … — the functions of `list.h`.
* `listForEach`, `listForEachSafe` — the loops.
* `ListCall`, `Contents` — the calls, and what they mean.
* `Represents` — the lists that are in the cells.
-/

namespace Youmenu.Utils

/-! ## The source -/

/-- All `struct list_head`s by their addresses. -/
structure Heap (α : Type) where
  links : Links α
  live : α → Bool

section Source

variable {α : Type} [DecidableEq α]

namespace Heap

/-- `none`: a cell is read that is not allocated. -/
def next (m : Heap α) (a : α) : Option α := if m.live a then some (m.links.next a) else none

def prev (m : Heap α) (a : α) : Option α := if m.live a then some (m.links.prev a) else none

def setNext (a b : α) (m : Heap α) : Option (Heap α) :=
  if m.live a then some { m with links := m.links.setNext a b } else none

def setPrev (a b : α) (m : Heap α) : Option (Heap α) :=
  if m.live a then some { m with links := m.links.setPrev a b } else none

/-- The allocator hands out a cell that is not in use, with anything in it. -/
def malloc (ptr next prev : α) (m : Heap α) : Option (Heap α) :=
  if m.live ptr then none
  else some ⟨(m.links.setNext ptr next).setPrev ptr prev, Function.update m.live ptr true⟩

/-- `none`: the cell was given back before. -/
def free (ptr : α) (m : Heap α) : Option (Heap α) :=
  if m.live ptr then some { m with live := Function.update m.live ptr false } else none

/-- The rest of the program writes to a cell of its own. -/
def store (ptr next prev : α) (m : Heap α) : Option (Heap α) := do
  let m ← m.setNext ptr next
  m.setPrev ptr prev

end Heap

def initListHead (ptr : α) (m : Heap α) : Option (Heap α) := do
  let m ← m.setNext ptr ptr
  m.setPrev ptr ptr

/-- `__list_add`. -/
def listAddBetween (new prev next : α) (m : Heap α) : Option (Heap α) := do
  let m ← m.setPrev next new
  let m ← m.setNext new next
  let m ← m.setPrev new prev
  m.setNext prev new

def listAdd (new head : α) (m : Heap α) : Option (Heap α) := do
  listAddBetween new head (← m.next head) m

def listAddTail (new head : α) (m : Heap α) : Option (Heap α) := do
  listAddBetween new (← m.prev head) head m

/-- `__list_del`. -/
def listDelBetween (prev next : α) (m : Heap α) : Option (Heap α) := do
  let m ← m.setPrev next prev
  m.setNext prev next

/-- The entry's own pointers are set to the null pointer, `0` here. -/
def listDel [Zero α] (entry : α) (m : Heap α) : Option (Heap α) := do
  let m ← listDelBetween (← m.prev entry) (← m.next entry) m
  let m ← m.setNext entry 0
  m.setPrev entry 0

def listDelInit (entry : α) (m : Heap α) : Option (Heap α) := do
  let m ← listDelBetween (← m.prev entry) (← m.next entry) m
  initListHead entry m

def listMove (list head : α) (m : Heap α) : Option (Heap α) := do
  let m ← listDelBetween (← m.prev list) (← m.next list) m
  listAdd list head m

def listMoveTail (list head : α) (m : Heap α) : Option (Heap α) := do
  let m ← listDelBetween (← m.prev list) (← m.next list) m
  listAddTail list head m

def listEmpty (head : α) (m : Heap α) : Option Bool := do
  return decide ((← m.next head) = head)

/-- `__list_splice`. -/
def listSpliceBetween (list head : α) (m : Heap α) : Option (Heap α) := do
  let first ← m.next list
  let last ← m.prev list
  let at' ← m.next head
  let m ← m.setPrev first head
  let m ← m.setNext head first
  let m ← m.setNext last at'
  m.setPrev at' last

def listSplice (list head : α) (m : Heap α) : Option (Heap α) := do
  if ← listEmpty list m then return m else listSpliceBetween list head m

def listSpliceInit (list head : α) (m : Heap α) : Option (Heap α) := do
  if ← listEmpty list m then return m
  else
    let m ← listSpliceBetween list head m
    initListHead list m

/-! ### Loops

The body of a loop reads and writes a state that has the heap in it, and may leave the
loop. Every round takes one unit of fuel. -/

section Loops

variable {σ : Type} (heap : σ → Heap α) (head : α) (body : α → σ → Option (ForInStep σ))

/-- The loops of `list_for_each` and `list_for_each_prev` from the element `pos` on. -/
def listWalkFrom (next : Heap α → α → Option α) : ℕ → α → σ → Option σ
  | 0, _, _ => none
  | fuel + 1, pos, s =>
    if pos = head then some s
    else do
      match ← body pos s with
      | .done s => return s
      | .yield s => listWalkFrom next fuel (← next (heap s) pos) s

def listWalk (next : Heap α → α → Option α) (fuel : ℕ) (s : σ) : Option σ := do
  listWalkFrom heap head body next fuel (← next (heap s) head) s

def listForEach : ℕ → σ → Option σ := listWalk heap head body Heap.next

def listForEachPrev : ℕ → σ → Option σ := listWalk heap head body Heap.prev

/-- `list_for_each_safe` from the element `pos` on: `q` was read before the body runs. -/
def listForEachSafeFrom : ℕ → α → α → σ → Option σ
  | 0, _, _, _ => none
  | fuel + 1, pos, q, s =>
    if pos = head then some s
    else do
      match ← body pos s with
      | .done s => return s
      | .yield s => listForEachSafeFrom fuel q (← (heap s).next q) s

def listForEachSafe (fuel : ℕ) (s : σ) : Option σ := do
  let pos ← (heap s).next head
  listForEachSafeFrom heap head body fuel pos (← (heap s).next pos) s

end Loops

end Source

/-! ## What the calls mean -/

section Meaning

variable {α : Type} [DecidableEq α]

/-- The elements of every list, by its head; `none` where no list has its head. -/
abbrev Contents (α : Type) := α → Option (List α)

namespace Contents

/-- A cell of one of the lists, the heads among them. -/
def In (l : Contents α) (a : α) : Prop := ∃ h xs, l h = some xs ∧ a ∈ h :: xs

/-- An element of one of the lists. -/
def Has (l : Contents α) (a : α) : Prop := ∃ h xs, l h = some xs ∧ a ∈ xs

def change (l : Contents α) (h : α) (f : List α → List α) : Contents α :=
  Function.update l h ((l h).map f)

def erase (l : Contents α) (a : α) : Contents α := fun h => (l h).map (·.erase a)

end Contents

inductive ListCall (α : Type) where
  | init (ptr : α)
  | add (new head : α)
  | addTail (new head : α)
  | del (entry : α)
  | delInit (entry : α)
  | move (list head : α)
  | moveTail (list head : α)
  | splice (list head : α)
  | spliceInit (list head : α)
  /-- The rest of the program gets a cell, writes to one, or gives one back. -/
  | malloc (ptr next prev : α)
  | store (ptr next prev : α)
  | free (ptr : α)

namespace ListCall

def exec [Zero α] : ListCall α → Heap α → Option (Heap α)
  | init ptr, m => initListHead ptr m
  | add new head, m => listAdd new head m
  | addTail new head, m => listAddTail new head m
  | del entry, m => listDel entry m
  | delInit entry, m => listDelInit entry m
  | move list head, m => listMove list head m
  | moveTail list head, m => listMoveTail list head m
  | splice list head, m => listSplice list head m
  | spliceInit list head, m => listSpliceInit list head m
  | malloc ptr next prev, m => m.malloc ptr next prev
  | store ptr next prev, m => m.store ptr next prev
  | free ptr, m => m.free ptr

def meaning : ListCall α → Contents α → Contents α
  | init ptr, l => Function.update l ptr (some [])
  | add new head, l => l.change head (new :: ·)
  | addTail new head, l => l.change head (· ++ [new])
  | del entry, l => l.erase entry
  | delInit entry, l => Function.update (l.erase entry) entry (some [])
  | move list head, l => (l.erase list).change head (list :: ·)
  | moveTail list head, l => (l.erase list).change head (· ++ [list])
  -- the head of the list that was taken over is left as it is
  | splice list head, l =>
    match l list with
    | some (x :: xs) => Function.update (l.change head ((x :: xs) ++ ·)) list none
    | _ => l
  | spliceInit list head, l =>
    Function.update (l.change head ((l list).getD [] ++ ·)) list (some [])
  | malloc _ _ _, l | store _ _ _, l | free _, l => l

/-- What `list.h` asks of its callers: only elements of lists are taken out, only other
cells are added, given back or written to. -/
def Allowed (m : Heap α) (l : Contents α) : ListCall α → Prop
  | init ptr => m.live ptr ∧ ¬ l.Has ptr
  | add new head | addTail new head => m.live new ∧ ¬ l.In new ∧ (l head).isSome
  | del entry | delInit entry => l.Has entry
  | move list head | moveTail list head => l.Has list ∧ (l head).isSome
  | splice list head | spliceInit list head => list ≠ head ∧ (l list).isSome ∧ (l head).isSome
  | malloc ptr _ _ => ¬ m.live ptr
  | store ptr _ _ | free ptr => m.live ptr ∧ ¬ l.In ptr

/-- The calls on the heap beside what they mean. -/
def step [Zero α] (s : Heap α × Contents α) (c : ListCall α) : Option (Heap α × Contents α) :=
  (c.exec s.1).map fun m => (m, c.meaning s.2)

end ListCall

/-- Every list is a ring of allocated cells, and no cell is in two of them. -/
structure Represents (m : Heap α) (l : Contents α) : Prop where
  ring : ∀ {h xs}, l h = some xs → m.links.Ring h xs
  live : ∀ {h xs}, l h = some xs → ∀ a ∈ h :: xs, m.live a
  apart : ∀ {h h' xs ys}, l h = some xs → l h' = some ys → h ≠ h' →
    (h :: xs).Disjoint (h' :: ys)

namespace Represents

variable {m m' : Heap α} {l : Contents α} {h a e : α} {xs ys : List α}

/-- One list is written to, or made. -/
theorem change (r : Represents m l) (cells : List α)
    (hsame : ∀ c, c ∉ cells → m'.links.next c = m.links.next c ∧
      m'.links.prev c = m.links.prev c ∧ m'.live c = m.live c)
    (hcells : ∀ h' ys, h' ≠ h → l h' = some ys → (h' :: ys).Disjoint cells)
    (hring : m'.links.Ring h xs) (hlive : ∀ c ∈ h :: xs, m'.live c) (hsub : h :: xs ⊆ cells) :
    Represents m' (Function.update l h (some xs)) where
  ring {h' ys} heq := by
    by_cases hh : h' = h
    · subst hh
      obtain rfl : xs = ys := by simpa using heq
      exact hring
    · rw [Function.update_of_ne hh] at heq
      have hout : ∀ c ∈ h' :: ys, c ∉ cells := fun c hc => hcells h' ys hh heq hc
      apply (r.ring heq).congr <;> grind
  live {h' ys} heq := by
    by_cases hh : h' = h
    · subst hh
      obtain rfl : xs = ys := by simpa using heq
      exact hlive
    · rw [Function.update_of_ne hh] at heq
      intro c hc
      rw [(hsame c (hcells h' ys hh heq hc)).2.2]
      exact r.live heq c hc
  apart {h₁ h₂ xs₁ xs₂} heq₁ heq₂ hne := by
    by_cases hh₁ : h₁ = h
    · subst hh₁
      obtain rfl : xs = xs₁ := by simpa using heq₁
      rw [Function.update_of_ne hne.symm] at heq₂
      intro c hc hc'
      exact hcells h₂ xs₂ hne.symm heq₂ hc' (hsub hc)
    · rw [Function.update_of_ne hh₁] at heq₁
      by_cases hh₂ : h₂ = h
      · subst hh₂
        obtain rfl : xs = xs₂ := by simpa using heq₂
        intro c hc hc'
        exact hcells h₁ xs₁ hh₁ heq₁ hc (hsub hc')
      · rw [Function.update_of_ne hh₂] at heq₂
        exact r.apart heq₁ heq₂ hne

/-- A list is not looked at any more. -/
theorem drop (r : Represents m l) (h : α) : Represents m (Function.update l h none) := by
  have hold : ∀ {h' xs}, Function.update l h none h' = some xs → l h' = some xs := by
    intro h' xs heq
    by_cases hh : h' = h
    · simp [hh] at heq
    · rwa [Function.update_of_ne hh] at heq
  exact ⟨fun heq => r.ring (hold heq), fun heq => r.live (hold heq),
    fun heq heq' => r.apart (hold heq) (hold heq')⟩

omit [DecidableEq α] in
/-- Only a cell that is in no list is written to. -/
theorem frame (r : Represents m l) (hout : ¬ l.In a)
    (hsame : ∀ c, c ≠ a → m'.links.next c = m.links.next c ∧
      m'.links.prev c = m.links.prev c ∧ m'.live c = m.live c) : Represents m' l where
  ring {h xs} heq := by
    have hne : ∀ c ∈ h :: xs, c ≠ a := fun c hc hca => hout ⟨h, xs, heq, hca ▸ hc⟩
    apply (r.ring heq).congr <;> grind
  live {h xs} heq := by
    intro c hc
    have hne : c ≠ a := fun hca => hout ⟨h, xs, heq, hca ▸ hc⟩
    rw [(hsame c hne).2.2]
    exact r.live heq c hc
  apart heq heq' := r.apart heq heq'

/-! ### One call on its lists -/

omit [DecidableEq α] in
theorem next_eq (r : Represents m l) (heq : l h = some xs) (ha : a ∈ h :: xs) :
    m.next a = some (m.links.next a) := by simp [Heap.next, r.live heq a ha]

omit [DecidableEq α] in
theorem prev_eq (r : Represents m l) (heq : l h = some xs) (ha : a ∈ h :: xs) :
    m.prev a = some (m.links.prev a) := by simp [Heap.prev, r.live heq a ha]

theorem initListHead (r : Represents m l) (hlive : m.live a) (hout : ¬ l.Has a) :
    ∃ m', initListHead a m = some m' ∧ Represents m' (Function.update l a (some [])) ∧
      m'.live = m.live := by
  refine ⟨⟨(m.links.setNext a a).setPrev a a, m.live⟩, ?_, ?_, rfl⟩
  · simp [Utils.initListHead, Heap.setNext, Heap.setPrev, hlive]
  · refine r.change [a] (fun c hc => ?_) (fun h' ys hne heq => ?_)
      (.singleton m.links a) (by simpa using hlive) (by simp)
    · have hca : c ≠ a := by simpa using hc
      simp [hca]
    · have hout' : a ∉ ys := fun ha => hout ⟨h', ys, heq, ha⟩
      grind [List.Disjoint]

theorem listAddBetween_eq {new prev next : α} (hnew : m.live new) (hprev : m.live prev)
    (hnext : m.live next) : listAddBetween new prev next m =
      some ⟨(m.links.link new next).link prev new, m.live⟩ := by
  simp only [listAddBetween, Heap.setNext, Heap.setPrev, hnew, hprev, hnext, if_true,
    Option.bind_eq_bind, Option.bind_some]
  rfl

theorem listDelBetween_eq {prev next : α} (hprev : m.live prev) (hnext : m.live next) :
    listDelBetween prev next m = some ⟨m.links.link prev next, m.live⟩ := by
  simp only [listDelBetween, Heap.setNext, Heap.setPrev, hprev, hnext, if_true,
    Option.bind_eq_bind, Option.bind_some]
  rfl

theorem listAdd (r : Represents m l) (hlive : m.live a) (hout : ¬ l.In a) (heq : l h = some xs) :
    ∃ m', listAdd a h m = some m' ∧ Represents m' (l.change h (a :: ·)) := by
  have hring := r.ring heq
  have hnext := hring.next_mem List.mem_cons_self
  have hfree : a ∉ h :: xs := fun ha => hout ⟨h, xs, heq, ha⟩
  refine ⟨⟨(m.links.link a (m.links.next h)).link h a, m.live⟩, ?_, ?_⟩
  · simp only [Utils.listAdd, r.next_eq heq List.mem_cons_self, Option.bind_eq_bind,
      Option.bind_some]
    exact listAddBetween_eq hlive (r.live heq h List.mem_cons_self) (r.live heq _ hnext)
  · simp only [Contents.change, heq, Option.map_some]
    refine r.change (a :: h :: xs) (fun c hc => ?_) (fun h' ys hne heq' => ?_)
      (hring.push hfree) ?_ (by grind)
    · grind
    · have hapart := r.apart heq' heq hne
      have hfree' : a ∉ h' :: ys := fun ha => hout ⟨h', ys, heq', ha⟩
      grind [List.Disjoint]
    · have hlives := r.live heq
      grind

theorem listAddTail (r : Represents m l) (hlive : m.live a) (hout : ¬ l.In a)
    (heq : l h = some xs) :
    ∃ m', listAddTail a h m = some m' ∧ Represents m' (l.change h (· ++ [a])) ∧
      m'.live = m.live := by
  have hring := r.ring heq
  have hprev := hring.prev_mem List.mem_cons_self
  have hfree : a ∉ h :: xs := fun ha => hout ⟨h, xs, heq, ha⟩
  refine ⟨⟨(m.links.link a h).link (m.links.prev h) a, m.live⟩, ?_, ?_, rfl⟩
  · simp only [Utils.listAddTail, r.prev_eq heq List.mem_cons_self, Option.bind_eq_bind,
      Option.bind_some]
    exact listAddBetween_eq hlive (r.live heq _ hprev) (r.live heq h List.mem_cons_self)
  · simp only [Contents.change, heq, Option.map_some]
    refine r.change (a :: h :: xs) (fun c hc => ?_) (fun h' ys hne heq' => ?_)
      (hring.pushBack hfree) ?_ (by grind)
    · grind
    · have hapart := r.apart heq' heq hne
      have hfree' : a ∉ h' :: ys := fun ha => hout ⟨h', ys, heq', ha⟩
      grind [List.Disjoint]
    · have hlives := r.live heq
      grind

/-- An element is in one list only. -/
theorem erase_eq (r : Represents m l) (heq : l h = some (xs ++ e :: ys)) :
    l.erase e = Function.update l h (some (xs ++ ys)) := by
  funext h'
  by_cases hh : h' = h
  · subst hh
    have hnodup := (r.ring heq).nodup
    have he : e ∉ xs := by grind
    simp [Contents.erase, heq, List.erase_append_right _ he]
  · rw [Function.update_of_ne hh, Contents.erase]
    cases heq' : l h' with
    | none => rfl
    | some zs =>
      have hapart := r.apart heq' heq hh
      have he : e ∉ zs := by grind [List.Disjoint]
      simp [List.erase_of_not_mem he]

/-- What `list_del`, `list_del_init` and both moves begin with. -/
theorem unlink (r : Represents m l) (hhas : l.Has e) :
    ∃ m', m.prev e = some (m.links.prev e) ∧ m.next e = some (m.links.next e) ∧
      listDelBetween (m.links.prev e) (m.links.next e) m = some m' ∧
      Represents m' (l.erase e) ∧ m'.live = m.live ∧ m'.live e ∧ ¬ (l.erase e).In e := by
  obtain ⟨h, zs, heq, he⟩ := hhas
  obtain ⟨xs, ys, rfl⟩ := List.append_of_mem he
  have he' : e ∈ h :: (xs ++ e :: ys) := List.mem_cons_of_mem _ he
  have hring := r.ring heq
  have hprev := hring.prev_mem he'
  have hnext := hring.next_mem he'
  refine ⟨⟨m.links.link (m.links.prev e) (m.links.next e), m.live⟩, r.prev_eq heq he',
    r.next_eq heq he', listDelBetween_eq (r.live heq _ hprev) (r.live heq _ hnext), ?_, rfl,
    r.live heq e he', ?_⟩
  · rw [r.erase_eq heq]
    refine r.change (h :: (xs ++ e :: ys)) (fun c hc => ?_)
      (fun h' ys hne heq' => r.apart heq' heq hne) hring.remove ?_ (by grind)
    · grind
    · have hlives := r.live heq
      grind
  · rw [r.erase_eq heq]
    rintro ⟨h', zs, heq', he''⟩
    by_cases hh : h' = h
    · subst hh
      have hnodup := hring.nodup
      obtain rfl : xs ++ ys = zs := by simpa using heq'
      grind
    · rw [Function.update_of_ne hh] at heq'
      exact r.apart heq' heq hh he'' he'

theorem store (r : Represents m l) (hlive : m.live a) (hout : ¬ l.In a) (next prev : α) :
    ∃ m', m.store a next prev = some m' ∧ Represents m' l := by
  refine ⟨⟨(m.links.setNext a next).setPrev a prev, m.live⟩, ?_, r.frame hout fun c hc => ?_⟩
  · simp [Heap.store, Heap.setNext, Heap.setPrev, hlive]
  · simp [hc]

theorem malloc (r : Represents m l) (hdead : ¬ m.live a) (next prev : α) :
    ∃ m', m.malloc a next prev = some m' ∧ Represents m' l ∧
      m'.live = Function.update m.live a true := by
  have hout : ¬ l.In a := by
    rintro ⟨h, xs, heq, ha⟩
    exact hdead (r.live heq a ha)
  refine ⟨⟨(m.links.setNext a next).setPrev a prev, Function.update m.live a true⟩, ?_,
    r.frame hout fun c hc => ?_, rfl⟩
  · simp [Heap.malloc, hdead]
  · simp [hc]

theorem free (r : Represents m l) (hlive : m.live a) (hout : ¬ l.In a) :
    ∃ m', m.free a = some m' ∧ Represents m' l := by
  refine ⟨{ m with live := Function.update m.live a false }, ?_, r.frame hout fun c hc => ?_⟩
  · simp [Heap.free, hlive]
  · simp [hc]

theorem listDel [Zero α] (r : Represents m l) (hhas : l.Has e) :
    ∃ m', listDel e m = some m' ∧ Represents m' (l.erase e) ∧ m'.live = m.live ∧
      ¬ (l.erase e).In e := by
  obtain ⟨m₁, hprev, hnext, hdel, r₁, hsame, hlive, hout⟩ := r.unlink hhas
  refine ⟨⟨(m₁.links.setNext e 0).setPrev e 0, m₁.live⟩, ?_, r₁.frame hout fun c hc => ?_,
    hsame, hout⟩
  · simp [Utils.listDel, hprev, hnext, hdel, Heap.setNext, Heap.setPrev, hlive]
  · simp [hc]

theorem listDelInit (r : Represents m l) (hhas : l.Has e) :
    ∃ m', listDelInit e m = some m' ∧
      Represents m' (Function.update (l.erase e) e (some [])) := by
  obtain ⟨m₁, hprev, hnext, hdel, r₁, -, hlive, hout⟩ := r.unlink hhas
  have hnot : ¬ (l.erase e).Has e := by
    rintro ⟨h, xs, heq, he⟩
    exact hout ⟨h, xs, heq, List.mem_cons_of_mem _ he⟩
  obtain ⟨m₂, hinit, r₂, -⟩ := r₁.initListHead hlive hnot
  exact ⟨m₂, by simp [Utils.listDelInit, hprev, hnext, hdel, hinit], r₂⟩

theorem listEmpty_eq (r : Represents m l) (heq : l h = some xs) :
    listEmpty h m = some (decide (xs = [])) := by
  simp [listEmpty, r.next_eq heq List.mem_cons_self, (r.ring heq).next_eq_self_iff]

theorem listMove (r : Represents m l) (hhas : l.Has e) (hsome : (l h).isSome) :
    ∃ m', listMove e h m = some m' ∧ Represents m' ((l.erase e).change h (e :: ·)) := by
  obtain ⟨m₁, hprev, hnext, hdel, r₁, -, hlive, hout⟩ := r.unlink hhas
  obtain ⟨xs, heq⟩ := Option.isSome_iff_exists.mp hsome
  have heq' : l.erase e h = some (xs.erase e) := by simp [Contents.erase, heq]
  obtain ⟨m₂, hadd, r₂⟩ := r₁.listAdd hlive hout heq'
  exact ⟨m₂, by simp [Utils.listMove, hprev, hnext, hdel, hadd], r₂⟩

theorem listMoveTail (r : Represents m l) (hhas : l.Has e) (hsome : (l h).isSome) :
    ∃ m', listMoveTail e h m = some m' ∧ Represents m' ((l.erase e).change h (· ++ [e])) := by
  obtain ⟨m₁, hprev, hnext, hdel, r₁, -, hlive, hout⟩ := r.unlink hhas
  obtain ⟨xs, heq⟩ := Option.isSome_iff_exists.mp hsome
  have heq' : l.erase e h = some (xs.erase e) := by simp [Contents.erase, heq]
  obtain ⟨m₂, hadd, r₂, -⟩ := r₁.listAddTail hlive hout heq'
  exact ⟨m₂, by simp [Utils.listMoveTail, hprev, hnext, hdel, hadd], r₂⟩

/-- The elements of the list at `a` are taken over; its head is left as it was. -/
theorem splice (r : Represents m l) (hne : a ≠ h) (heq : l a = some xs) (hxs : xs ≠ [])
    (heq' : l h = some ys) :
    ∃ m', listSpliceBetween a h m = some m' ∧
      Represents m' (Function.update (l.change h (xs ++ ·)) a none) ∧ m'.live a := by
  have hring := r.ring heq
  have hring' := r.ring heq'
  have hfirst := r.live heq _ (hring.next_mem List.mem_cons_self)
  have hlast := r.live heq _ (hring.prev_mem List.mem_cons_self)
  have hat := r.live heq' _ (hring'.next_mem List.mem_cons_self)
  have hhead := r.live heq' h List.mem_cons_self
  refine ⟨⟨(m.links.link h (m.links.next a)).link (m.links.prev a) (m.links.next h), m.live⟩,
    ?_, ?_, r.live heq a List.mem_cons_self⟩
  · simp only [listSpliceBetween, r.next_eq heq List.mem_cons_self,
      r.prev_eq heq List.mem_cons_self, r.next_eq heq' List.mem_cons_self, Heap.setNext,
      Heap.setPrev, hfirst, hlast, hat, hhead, if_true, Option.bind_eq_bind, Option.bind_some]
    rfl
  · have hapart := r.apart heq' heq hne.symm
    have hdrop : Function.update (l.change h (xs ++ ·)) a none =
        Function.update (Function.update l a none) h (some (xs ++ ys)) := by
      rw [Contents.change, heq', Option.map_some, Function.update_comm hne.symm]
    rw [hdrop]
    refine (r.drop a).change ((h :: ys) ++ (a :: xs)) (fun c hc => ?_)
      (fun h' zs hh hzs => ?_) (hring'.splice hring hxs hapart) ?_ (by grind)
    · have hmem := hring.next_mem List.mem_cons_self
      have hmem' := hring.prev_mem List.mem_cons_self
      have hmem'' := hring'.next_mem List.mem_cons_self
      grind
    · have hha : h' ≠ a := by
        rintro rfl
        simp at hzs
      rw [Function.update_of_ne hha] at hzs
      have hdisj := r.apart hzs heq' hh
      have hdisj' := r.apart hzs heq hha
      grind [List.Disjoint]
    · have hlives := r.live heq
      have hlives' := r.live heq'
      grind

theorem listSplice (r : Represents m l) (hne : a ≠ h) (heq : l a = some xs)
    (heq' : l h = some ys) :
    ∃ m', listSplice a h m = some m' ∧
      Represents m' ((ListCall.splice a h).meaning l) := by
  cases xs with
  | nil => exact ⟨m, by simp [Utils.listSplice, r.listEmpty_eq heq],
      by simpa [ListCall.meaning, heq] using r⟩
  | cons x xs =>
    obtain ⟨m₁, hsplice, r₁, -⟩ := r.splice hne heq (List.cons_ne_nil x xs) heq'
    exact ⟨m₁, by simp [Utils.listSplice, r.listEmpty_eq heq, hsplice],
      by simpa [ListCall.meaning, heq] using r₁⟩

theorem listSpliceInit (r : Represents m l) (hne : a ≠ h) (heq : l a = some xs)
    (heq' : l h = some ys) :
    ∃ m', listSpliceInit a h m = some m' ∧
      Represents m' ((ListCall.spliceInit a h).meaning l) := by
  cases xs with
  | nil =>
    refine ⟨m, by simp [Utils.listSpliceInit, r.listEmpty_eq heq], ?_⟩
    have hsame : (ListCall.spliceInit a h).meaning l = l := by
      simp only [ListCall.meaning, Contents.change, heq, heq', Option.getD_some, Option.map_some,
        List.nil_append]
      rw [← heq', Function.update_eq_self, ← heq, Function.update_eq_self]
    rwa [hsame]
  | cons x xs =>
    obtain ⟨m₁, hsplice, r₁, hlive⟩ := r.splice hne heq (List.cons_ne_nil x xs) heq'
    have hnot : ¬ Contents.Has (Function.update (l.change h ((x :: xs) ++ ·)) a none) a := by
      rintro ⟨h', zs, hzs, ha⟩
      have hha : h' ≠ a := by
        rintro rfl
        simp at hzs
      rw [Function.update_of_ne hha] at hzs
      by_cases hh : h' = h
      · subst hh
        obtain rfl : x :: (xs ++ ys) = zs := by simpa [Contents.change, heq'] using hzs
        have hnodup := (r.ring heq).nodup
        have hapart := r.apart heq heq' hne
        grind [List.Disjoint]
      · rw [Contents.change, Function.update_of_ne hh] at hzs
        have hapart := r.apart heq hzs hha.symm
        grind [List.Disjoint]
    obtain ⟨m₂, hinit, r₂, -⟩ := r₁.initListHead hlive hnot
    refine ⟨m₂, by simp [Utils.listSpliceInit, r.listEmpty_eq heq, hsplice, hinit], ?_⟩
    simpa [ListCall.meaning, heq] using r₂

/-- One call returns, and does to the lists what it says. -/
theorem exec [Zero α] (r : Represents m l) {c : ListCall α} (hc : c.Allowed m l) :
    ∃ m', c.exec m = some m' ∧ Represents m' (c.meaning l) := by
  cases c with
  | init ptr =>
    obtain ⟨m', hinit, r', -⟩ := r.initListHead hc.1 hc.2
    exact ⟨m', hinit, r'⟩
  | add new head =>
    obtain ⟨xs, heq⟩ := Option.isSome_iff_exists.mp hc.2.2
    exact r.listAdd hc.1 hc.2.1 heq
  | addTail new head =>
    obtain ⟨xs, heq⟩ := Option.isSome_iff_exists.mp hc.2.2
    obtain ⟨m', hadd, r', -⟩ := r.listAddTail hc.1 hc.2.1 heq
    exact ⟨m', hadd, r'⟩
  | del entry =>
    obtain ⟨m', hdel, r', -⟩ := r.listDel hc
    exact ⟨m', hdel, r'⟩
  | delInit entry => exact r.listDelInit hc
  | move list head => exact r.listMove hc.1 hc.2
  | moveTail list head => exact r.listMoveTail hc.1 hc.2
  | splice list head =>
    obtain ⟨xs, heq⟩ := Option.isSome_iff_exists.mp hc.2.1
    obtain ⟨ys, heq'⟩ := Option.isSome_iff_exists.mp hc.2.2
    exact r.listSplice hc.1 heq heq'
  | spliceInit list head =>
    obtain ⟨xs, heq⟩ := Option.isSome_iff_exists.mp hc.2.1
    obtain ⟨ys, heq'⟩ := Option.isSome_iff_exists.mp hc.2.2
    exact r.listSpliceInit hc.1 heq heq'
  | malloc ptr next prev =>
    obtain ⟨m', hmalloc, r', -⟩ := r.malloc hc next prev
    exact ⟨m', hmalloc, r'⟩
  | store ptr next prev => exact r.store hc.1 hc.2 next prev
  | free ptr => exact r.free hc.1 hc.2

end Represents

end Meaning

end Youmenu.Utils
