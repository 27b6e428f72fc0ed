import Youmenu.Lib.Transition
import Youmenu.Utils.ListHead
import Mathlib.Algebra.Order.Ring.Nat

/-!
# Loops over linked lists: `list.h`

The loops of `list.h` follow pointers. Over a list that is as the calls left it, they are
loops over its elements; `list_for_each_safe` is one even if its body takes out and gives
back the element it stands at.

## Main definitions

* `Leads` — the way that a loop takes through the cells.
* `Removes` — a round that gives back its element.
-/

namespace Youmenu.Utils

open Transition

variable {α : Type} [DecidableEq α]

/-! ## Loops -/

section Loops

variable {σ : Type} {heap : σ → Heap α} {head : α} {body : α → σ → Option (ForInStep σ)}

omit [DecidableEq α] in
/-- Elements on which a loop does nothing. -/
theorem forIn_skip {xs : List α} {s : σ} (h : ∀ x ∈ xs, body x s = some (.yield s))
    (ys : List α) :
    forIn (xs ++ ys) s body = forIn ys s body := by
  induction xs with
  | nil => rfl
  | cons x xs ih =>
    rw [List.cons_append, List.forIn_cons, h x List.mem_cons_self]
    exact ih fun y hy => h y (List.mem_cons_of_mem _ hy)

omit [DecidableEq α] in
theorem forIn_idle {xs : List α} {s : σ} (h : ∀ x ∈ xs, body x s = some (.yield s)) :
    forIn xs s body = some s := by
  simpa using forIn_skip h []

omit [DecidableEq α] in
/-- A loop that looks for an element leaves at the first one. -/
theorem forIn_find {hit : α → Bool} {found : α → σ} {xs : List α} {s : σ}
    (h : ∀ x ∈ xs, body x s = some (if hit x then .done (found x) else .yield s)) :
    forIn xs s body = some ((xs.find? hit).elim s found) := by
  induction xs with
  | nil => rfl
  | cons x xs ih =>
    rw [List.forIn_cons, h x List.mem_cons_self]
    cases hx : hit x with
    | true => simp [hx]
    | false =>
      simp only [List.find?_cons_of_neg, hx, Bool.false_eq_true, if_false, not_false_eq_true]
      exact ih fun y hy => h y (List.mem_cons_of_mem _ hy)

/-- From `pos` on, one comes through the elements of the list to its allocated head. -/
def Leads (next : α → Option α) (head : α) : α → List α → Prop
  | pos, [] => pos = head ∧ (next head).isSome
  | pos, x :: xs => pos = x ∧ x ≠ head ∧ ∃ q, next x = some q ∧ Leads next head q xs

/-- A loop whose body leaves the heap alone takes the elements one after the other. -/
theorem listWalkFrom_eq {next : Heap α → α → Option α} {xs : List α} {pos : α} {s : σ}
    {fuel : ℕ} (hkeep : ∀ {a s s'}, body a s = some (.yield s') → heap s' = heap s)
    (hleads : Leads (next (heap s)) head pos xs) (hfuel : xs.length < fuel) :
    listWalkFrom heap head body next fuel pos s = forIn xs s body := by
  induction xs generalizing pos s fuel with
  | nil =>
    obtain ⟨n, rfl⟩ := Nat.exists_eq_add_of_lt hfuel
    simp [listWalkFrom, hleads.1]
  | cons x xs ih =>
    obtain ⟨n, rfl⟩ := Nat.exists_eq_add_of_lt hfuel
    obtain ⟨rfl, hne, q, hq, hrest⟩ := hleads
    rw [List.forIn_cons, listWalkFrom, if_neg hne]
    cases hbody : body pos s with
    | none => rfl
    | some r =>
      cases r with
      | done s' => rfl
      | yield s' =>
        have hsame := hkeep hbody
        simp only [Option.bind_eq_bind, Option.bind_some, hsame, hq]
        exact ih (by rwa [hsame]) (by simp at hfuel ⊢; omega)

/-- `list_for_each_safe` goes on where it would have gone before the body ran: `K`
says so for the elements that are left, whatever the body does to the others. -/
theorem listForEachSafeFrom_eq {K : List α → σ → Prop}
    (hleads : ∀ {xs s}, K xs s → Leads (heap s).next head (xs.head?.getD head) xs)
    (hbody : ∀ {x xs s s'}, K (x :: xs) s → body x s = some (.yield s') → K xs s')
    {xs : List α} {q : α} {s : σ} {fuel : ℕ} (hK : K xs s)
    (hq : (heap s).next (xs.head?.getD head) = some q) (hfuel : xs.length < fuel) :
    listForEachSafeFrom heap head body fuel (xs.head?.getD head) q s = forIn xs s body := by
  induction xs generalizing s q fuel with
  | nil =>
    obtain ⟨n, rfl⟩ := Nat.exists_eq_add_of_lt hfuel
    simp [listForEachSafeFrom]
  | cons x xs ih =>
    obtain ⟨n, rfl⟩ := Nat.exists_eq_add_of_lt hfuel
    obtain ⟨-, hne, q', hq', hrest⟩ := hleads hK
    obtain rfl : q' = q := Option.some.inj (hq'.symm.trans hq)
    have hfirst : q' = xs.head?.getD head := by
      cases xs with
      | nil => exact hrest.1
      | cons y ys => exact hrest.1
    rw [List.forIn_cons, List.head?_cons, Option.getD_some, listForEachSafeFrom, if_neg hne]
    cases hrun : body x s with
    | none => rfl
    | some r =>
      cases r with
      | done s' => rfl
      | yield s' =>
        have hK' := hbody hK hrun
        have hsome : ((heap s').next (xs.head?.getD head)).isSome := by
          have hleads' := hleads hK'
          cases xs with
          | nil => exact hleads'.2
          | cons y ys =>
            obtain ⟨-, -, q'', hq'', -⟩ := hleads'
            simp [hq'']
        obtain ⟨q'', hq''⟩ := Option.isSome_iff_exists.mp hsome
        simp only [Option.bind_eq_bind, Option.bind_some, hfirst, hq'']
        exact ih hK' hq'' (by simp at hfuel ⊢; omega)

end Loops

/-! ### Loops over the lists -/

section Sweep

variable {m m' : Heap α} {l : Contents α} {head : α} {xs : List α}

omit [DecidableEq α] in
theorem leads_of_path {a : α} (p : m.links.Path a xs head) (hlive : ∀ c ∈ head :: xs, m.live c)
    (hhead : head ∉ xs) : Leads m.next head (m.links.next a) xs := by
  induction xs generalizing a with
  | nil => exact ⟨p.1, by simp [Heap.next, hlive head List.mem_cons_self]⟩
  | cons x xs ih =>
    refine ⟨p.1, by grind, m.links.next x, by simp [Heap.next, hlive x], ih p.2.2 ?_ ?_⟩ <;> grind

omit [DecidableEq α] in
theorem Represents.leads (r : Represents m l) (heq : l head = some xs) :
    Leads m.next head (m.links.next head) xs :=
  leads_of_path (r.ring heq).path (r.live heq) (List.nodup_cons.mp (r.ring heq).nodup).1

omit [DecidableEq α] in
theorem Represents.leads_prev (r : Represents m l) (heq : l head = some xs) :
    Leads m.prev head (m.links.prev head) xs.reverse := by
  have hflip := (r.ring heq).flip
  have hlive := r.live heq
  refine leads_of_path (m := ⟨m.links.flip, m.live⟩) hflip.path ?_ ?_
  · simpa using hlive
  · exact (List.nodup_cons.mp hflip.nodup).1

variable {σ : Type} {heap : σ → Heap α} {body : α → σ → Option (ForInStep σ)} {s : σ} {fuel : ℕ}

/-- `list_for_each` takes the elements in their order. -/
theorem Represents.listForEach_eq (r : Represents m l) (hs : heap s = m)
    (heq : l head = some xs)
    (hkeep : ∀ {a s s'}, body a s = some (.yield s') → heap s' = heap s)
    (hfuel : xs.length < fuel) : listForEach heap head body fuel s = forIn xs s body := by
  subst hs
  simp only [listForEach, listWalk, r.next_eq heq List.mem_cons_self, Option.bind_eq_bind,
    Option.bind_some]
  exact listWalkFrom_eq hkeep (r.leads heq) hfuel

/-- `list_for_each_prev` takes them from the last one to the first. -/
theorem Represents.listForEachPrev_eq (r : Represents m l) (hs : heap s = m)
    (heq : l head = some xs)
    (hkeep : ∀ {a s s'}, body a s = some (.yield s') → heap s' = heap s)
    (hfuel : xs.length < fuel) :
    listForEachPrev heap head body fuel s = forIn xs.reverse s body := by
  subst hs
  simp only [listForEachPrev, listWalk, r.prev_eq heq List.mem_cons_self, Option.bind_eq_bind,
    Option.bind_some]
  exact listWalkFrom_eq hkeep (r.leads_prev heq) (by simpa using hfuel)

variable [Zero α]

/-- A round of the loop takes the element out of its list and gives it back. -/
def Removes (x : α) (m m' : Heap α) : Prop :=
  ∃ m₁, listDel x m = some m₁ ∧ m₁.free x = some m'

theorem Represents.removes (r : Represents m l) {x : α} {ys zs : List α}
    (heq : l head = some (ys ++ x :: zs)) :
    ∃ m', Removes x m m' ∧ Represents m' (Function.update l head (some (ys ++ zs))) ∧
      m'.live = Function.update m.live x false := by
  have hmem : x ∈ ys ++ x :: zs := by simp
  obtain ⟨m₁, hdel, r₁, hlive, hout⟩ := r.listDel ⟨head, _, heq, hmem⟩
  have hx : m₁.live x := by
    rw [hlive]
    exact r.live heq x (List.mem_cons_of_mem _ hmem)
  obtain ⟨m₂, hfree, r₂⟩ := r₁.free hx hout
  rw [r.erase_eq heq] at r₂
  refine ⟨m₂, ⟨m₁, hdel, hfree⟩, r₂, ?_⟩
  simp only [Heap.free, hx, if_true] at hfree
  rw [← Option.some.inj hfree, hlive]

theorem Removes.unique {x : α} {m₁ m₂ : Heap α} (h₁ : Removes x m m₁) (h₂ : Removes x m m₂) :
    m₁ = m₂ := by
  obtain ⟨n₁, hdel₁, hfree₁⟩ := h₁
  obtain ⟨n₂, hdel₂, hfree₂⟩ := h₂
  obtain rfl := Option.some.inj (hdel₁.symm.trans hdel₂)
  exact Option.some.inj (hfree₁.symm.trans hfree₂)

/-- `list_for_each_safe` takes the elements in their order, even if its body gives
some of them back. -/
theorem Represents.listForEachSafe_eq (r : Represents m l) (hs : heap s = m)
    (heq : l head = some xs)
    (hbody : ∀ {a s s'}, body a s = some (.yield s') →
      heap s' = heap s ∨ Removes a (heap s) (heap s'))
    (hfuel : xs.length < fuel) : listForEachSafe heap head body fuel s = forIn xs s body := by
  subst hs
  let K : List α → σ → Prop := fun rest s =>
    ∃ l kept, Represents (heap s) l ∧ l head = some (kept ++ rest)
  have hleads : ∀ {rest s}, K rest s →
      Leads (heap s).next head (rest.head?.getD head) rest := by
    rintro rest s ⟨l, kept, r, heq⟩
    have hlive := r.live heq
    cases rest with
    | nil => exact ⟨rfl, by simp [Heap.next, hlive head List.mem_cons_self]⟩
    | cons x rest =>
      have hnodup := (r.ring heq).nodup
      have hpath := (Links.path_append.mp (r.ring heq).path).2
      refine ⟨rfl, by grind, _, r.next_eq heq (by simp), leads_of_path hpath ?_ ?_⟩ <;> grind
  have hstep : ∀ {x rest s s'}, K (x :: rest) s → body x s = some (.yield s') → K rest s' := by
    rintro x rest s s' ⟨l, kept, r, heq⟩ hrun
    rcases hbody hrun with hsame | hremoves
    · exact ⟨l, kept ++ [x], hsame ▸ r, by simp [heq]⟩
    · obtain ⟨m', hremoves', r', -⟩ := r.removes heq
      obtain rfl := hremoves.unique hremoves'
      exact ⟨_, kept, r', Function.update_self ..⟩
  have hK : K xs s := ⟨l, [], r, heq⟩
  have hfirst : (heap s).next head = some (xs.head?.getD head) := by
    rw [r.next_eq heq List.mem_cons_self]
    have hlead := r.leads heq
    cases xs with
    | nil => exact congrArg some hlead.1
    | cons x xs => exact congrArg some hlead.1
  obtain ⟨q, hq⟩ : ∃ q, (heap s).next (xs.head?.getD head) = some q := by
    have hlead := hleads hK
    cases xs with
    | nil => exact Option.isSome_iff_exists.mp hlead.2
    | cons x xs =>
      obtain ⟨-, -, q, hq, -⟩ := hlead
      exact ⟨q, hq⟩
  simp only [listForEachSafe, hfirst, hq, Option.bind_eq_bind, Option.bind_some]
  exact listForEachSafeFrom_eq (K := K) hleads hstep hK hq hfuel

end Sweep

/-! ## Runs -/

section Runs

variable [Zero α] {m₀ m : Heap α} {l : Contents α}

theorem represents_of_reaches {s : Heap α × Contents α}
    (h : Reaches ListCall.step (fun s c => c.Allowed s.1 s.2) (m₀, fun _ => none) s) :
    Represents s.1 s.2 := by
  refine h.invariant (P := fun s => Represents s.1 s.2) ?_ ?_
  · exact ⟨by simp, by simp, by simp⟩
  · rintro ⟨m, l⟩ c s' r hc hstep
    obtain ⟨m', hexec, r'⟩ := r.exec hc
    simp only [ListCall.step, hexec, Option.map_some] at hstep
    obtain rfl := Option.some.inj hstep
    exact r'

/-- After any calls in any order on any number of lists, and whatever the rest of the
program does with cells of its own: the next call touches allocated cells only, and a list
holds what the calls so far say. `list_empty` tells whether this is nothing, and the
loops take it in order, or backwards. -/
theorem lists_represented
    (h : Reaches ListCall.step (fun s c => c.Allowed s.1 s.2) (m₀, fun _ => none) (m, l)) :
    (∀ c : ListCall α, c.Allowed m l → ∃ m', ListCall.step (m, l) c = some (m', c.meaning l)) ∧
      ∀ head xs, l head = some xs → listEmpty head m = some (decide (xs = [])) ∧
        ∀ {σ : Type} (body : α → σ → Option (ForInStep σ)) (s : σ) (fuel : ℕ),
          xs.length < fuel →
          listForEach (fun _ => m) head body fuel s = forIn xs s body ∧
          listForEachPrev (fun _ => m) head body fuel s = forIn xs.reverse s body := by
  have r : Represents m l := represents_of_reaches h
  constructor
  · intro c hc
    obtain ⟨m', hexec, -⟩ := r.exec hc
    exact ⟨m', by simp [ListCall.step, hexec]⟩
  · intro head xs heq
    refine ⟨r.listEmpty_eq heq, fun body s fuel hfuel => ⟨?_, ?_⟩⟩
    · exact r.listForEach_eq rfl heq (fun _ => rfl) hfuel
    · exact r.listForEachPrev_eq rfl heq (fun _ => rfl) hfuel

/-- Cell 2 is put into the list with its head in cell 1. -/
theorem lists_represented_one :
    ∃ (m₀ m : Heap ℕ) (l : Contents ℕ),
      Reaches ListCall.step (fun s c => c.Allowed s.1 s.2) (m₀, fun _ => none) (m, l) ∧
        l 1 = some [2] ∧ listEmpty 1 m = some false := by
  let m₀ : Heap ℕ := ⟨⟨fun _ => 0, fun _ => 0⟩, fun _ => true⟩
  have hnew : ¬ Contents.Has (fun _ : ℕ => (none : Option (List ℕ))) 1 := by
    rintro ⟨h, xs, heq, -⟩
    cases heq
  have hfree : ¬ Contents.In (Function.update (fun _ : ℕ => (none : Option (List ℕ))) 1 (some []))
      2 := by
    rintro ⟨h, xs, heq, hmem⟩
    by_cases hh : h = 1
    · subst hh
      obtain rfl : [] = xs := by simpa using heq
      simp at hmem
    · simp [Function.update_of_ne hh] at heq
  have hinit : Reaches ListCall.step (fun s c => c.Allowed s.1 s.2) (m₀, fun _ => none) _ :=
    .tail (e := .init 1) .refl ⟨rfl, hnew⟩ rfl
  have hadd : Reaches ListCall.step (fun s c => c.Allowed s.1 s.2) (m₀, fun _ => none) _ :=
    .tail (e := .addTail 2 1) hinit ⟨rfl, hfree, rfl⟩ rfl
  exact ⟨m₀, _, Contents.change (Function.update (fun _ => none) 1 (some [])) 1 (· ++ [2]), hadd,
    rfl, ((lists_represented hadd).2 1 [2] rfl).1⟩

end Runs

end Youmenu.Utils
