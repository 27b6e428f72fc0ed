import Youmenu.Lib.Program
import Youmenu.Lib.Transition
import Mathlib.Data.List.Nodup
import Mathlib.Logic.Function.Basic

/-!
# Programs that share a lock

Several programs run side by side over one shared state. Some of their operations take
the lock, some give it back, some are only made while it is held, and some touch nothing
but what belongs to the program itself. Programs that use the lock in brackets behave as
if each of their critical sections was run in one piece.

## Main definitions

* `Interface` — operations, and what each of them has to do with the lock.
* `Sys.step` — one operation of one of the programs.
* `Bracketed` — programs that use the lock in brackets.
* `Sys.atomicStep` — a whole critical section at once.
* `Sys.Noted` — a part of what belongs to a program tells what its calls have returned.

## Main statements

* `Sys.atomic_of_reaches` — every run of operations is one of whole sections.
* `Sys.WellBracketed.exists_step`, `Sys.WellBracketed.exists_finished` — no program waits for
  ever.
-/

namespace Youmenu.Critical

open Transition

/-- What an operation has to do with the lock. -/
inductive Access where
  /-- Nothing: it neither sees nor changes what is shared. -/
  | aside
  /-- It takes the lock and gives it back. -/
  | whole
  | enter
  | inside
  | leave
deriving DecidableEq

/-- Who has the lock after an operation of the thread `i`. -/
def Access.owner {ι : Type*} (i : ι) (owner : Option ι) : Access → Option ι
  | aside | inside => owner
  | whole | leave => none
  | enter => some i

/-- Operations on what belongs to a program and on what is shared. -/
structure Interface (E : Type) (R : E → Type) (Λ σ : Type*) where
  access : E → Access
  run : (e : E) → Λ → σ → R e × Λ × σ
  runAside : (e : E) → Λ → R e × Λ
  aside_eq : ∀ e l s, access e = .aside → run e l s = ((runAside e l).1, (runAside e l).2, s)

variable {E : Type} {R : E → Type} {α : Type} {Λ σ ι : Type*} (I : Interface E R Λ σ)

/-- A program that has begun, and what belongs to it. -/
structure Thread (E : Type) (R : E → Type) (α : Type) (Λ : Type*) where
  rest : Program E R α
  own : Λ

structure Sys (E : Type) (R : E → Type) (α : Type) (Λ σ ι : Type*) where
  shared : σ
  owner : Option ι
  thread : ι → Thread E R α Λ

/-! ## Brackets -/

/-- From a state of the lock to a state of the lock, the program asks for the lock only
while it does not have it, and for what the lock protects only while it has it. -/
def Bracketed : Bool → Bool → Program E R α → Prop
  | held, held', .ret _ => held = held'
  | held, held', .call e k =>
    match I.access e with
    | .aside => ∀ r, Bracketed held held' (k r)
    | .whole => held = false ∧ ∀ r, Bracketed false held' (k r)
    | .enter => held = false ∧ ∀ r, Bracketed true held' (k r)
    | .inside => held = true ∧ ∀ r, Bracketed true held' (k r)
    | .leave => held = true ∧ ∀ r, Bracketed false held' (k r)

section Brackets

variable {I} {held held' held'' : Bool} {e : E}

theorem bracketed_aside {k : R e → Program E R α} (he : I.access e = .aside)
    (hk : ∀ r, Bracketed I held held' (k r)) : Bracketed I held held' (.call e k) := by
  simp only [Bracketed, he]
  exact hk

theorem bracketed_whole {k : R e → Program E R α} (he : I.access e = .whole)
    (hk : ∀ r, Bracketed I false held' (k r)) : Bracketed I false held' (.call e k) := by
  simp only [Bracketed, he]
  exact ⟨trivial, hk⟩

theorem bracketed_enter {k : R e → Program E R α} (he : I.access e = .enter)
    (hk : ∀ r, Bracketed I true held' (k r)) : Bracketed I false held' (.call e k) := by
  simp only [Bracketed, he]
  exact ⟨trivial, hk⟩

theorem bracketed_inside {k : R e → Program E R α} (he : I.access e = .inside)
    (hk : ∀ r, Bracketed I true held' (k r)) : Bracketed I true held' (.call e k) := by
  simp only [Bracketed, he]
  exact ⟨trivial, hk⟩

theorem bracketed_leave {k : R e → Program E R α} (he : I.access e = .leave)
    (hk : ∀ r, Bracketed I false held' (k r)) : Bracketed I true held' (.call e k) := by
  simp only [Bracketed, he]
  exact ⟨trivial, hk⟩

theorem Bracketed.bind {β : Type} {p : Program E R α} {f : α → Program E R β}
    (hp : Bracketed I held held' p) (hf : ∀ a, Bracketed I held' held'' (f a)) :
    Bracketed I held held'' (p >>= f) := by
  induction p generalizing held with
  | ret a =>
    obtain rfl : held = held' := hp
    exact hf a
  | call e k ih =>
    rw [Program.call_bind]
    simp only [Bracketed] at hp ⊢
    split at hp
    · exact fun r => ih r (hp r)
    · exact ⟨hp.1, fun r => ih r (hp.2 r)⟩
    · exact ⟨hp.1, fun r => ih r (hp.2 r)⟩
    · exact ⟨hp.1, fun r => ih r (hp.2 r)⟩
    · exact ⟨hp.1, fun r => ih r (hp.2 r)⟩

end Brackets

/-! ## One operation at a time -/

namespace Sys

variable [DecidableEq ι]

/-- The thread `i` has gone on. -/
def put (s : Sys E R α Λ σ ι) (i : ι) (t : Thread E R α Λ) (shared : σ) (owner : Option ι) :
    Sys E R α Λ σ ι :=
  ⟨shared, owner, Function.update s.thread i t⟩

/-- The next operation of a thread; `none` if it waits for the lock or has finished. -/
def step (s : Sys E R α Λ σ ι) (i : ι) : Option (Sys E R α Λ σ ι) :=
  match (s.thread i).rest with
  | .ret _ => none
  | .call e k =>
    let r := I.run e (s.thread i).own s.shared
    let next := s.put i ⟨k r.1, r.2.1⟩ r.2.2
    match I.access e with
    | .aside | .inside => some (next s.owner)
    | .whole => if s.owner = none then some (next none) else none
    | .enter => if s.owner = none then some (next (some i)) else none
    | .leave => some (next none)

variable {I} in
/-- What one step is: an operation of the thread, which takes the lock only if it is free. -/
theorem step_cases {s s' : Sys E R α Λ σ ι} {i : ι} (hstep : s.step I i = some s') :
    ∃ e k, (s.thread i).rest = .call e k ∧
      (I.access e = .whole ∨ I.access e = .enter → s.owner = none) ∧
      s' = s.put i ⟨k (I.run e (s.thread i).own s.shared).1,
        (I.run e (s.thread i).own s.shared).2.1⟩ (I.run e (s.thread i).own s.shared).2.2
          ((I.access e).owner i s.owner) := by
  cases hrest : (s.thread i).rest with
  | ret a => simp [step, hrest] at hstep
  | call e k =>
    simp only [step, hrest] at hstep
    refine ⟨e, k, rfl, ?_⟩
    cases haccess : I.access e with
    | aside | inside | leave =>
      rw [haccess] at hstep
      exact ⟨by simp, (Option.some.inj hstep).symm⟩
    | whole | enter =>
      rw [haccess] at hstep
      split_ifs at hstep with hfree
      exact ⟨fun _ => hfree, (Option.some.inj hstep).symm⟩

/-- Every thread uses the lock in brackets, and has it exactly if it is the owner. -/
def WellBracketed (s : Sys E R α Λ σ ι) : Prop :=
  ∀ i, Bracketed I (decide (s.owner = some i)) false (s.thread i).rest

variable {I} {s s' s₀ : Sys E R α Λ σ ι} {i j : ι}

@[simp] theorem put_owner (s : Sys E R α Λ σ ι) (t : Thread E R α Λ) (shared : σ)
    (owner : Option ι) : (s.put i t shared owner).owner = owner := rfl

@[simp] theorem put_shared (s : Sys E R α Λ σ ι) (t : Thread E R α Λ) (shared : σ)
    (owner : Option ι) : (s.put i t shared owner).shared = shared := rfl

@[simp] theorem put_thread_self (s : Sys E R α Λ σ ι) (t : Thread E R α Λ) (shared : σ)
    (owner : Option ι) : (s.put i t shared owner).thread i = t := by
  simp [put]

theorem put_thread_ne (s : Sys E R α Λ σ ι) (t : Thread E R α Λ) (shared : σ)
    (owner : Option ι) (h : j ≠ i) : (s.put i t shared owner).thread j = s.thread j := by
  simp [put, h]

/-- The thread that has gone on is bracketed, and the others see no difference in the lock. -/
theorem WellBracketed.put (hs : s.WellBracketed I) {t : Thread E R α Λ} {shared : σ}
    {owner : Option ι} (ht : Bracketed I (decide (owner = some i)) false t.rest)
    (hothers : ∀ j, j ≠ i → (owner = some j ↔ s.owner = some j)) :
    (s.put i t shared owner).WellBracketed I := by
  intro j
  by_cases hj : j = i
  · subst hj
    rw [put_thread_self]
    exact ht
  · rw [put_thread_ne _ _ _ _ hj, put_owner, decide_eq_decide.mpr (hothers j hj)]
    exact hs j

theorem WellBracketed.step (hs : s.WellBracketed I) (hstep : s.step I i = some s') :
    s'.WellBracketed I := by
  obtain ⟨e, k, hrest, hfree, rfl⟩ := step_cases hstep
  have hi := hs i
  rw [hrest] at hi
  simp only [Bracketed] at hi
  cases haccess : I.access e with
  | aside =>
    rw [haccess] at hi
    exact hs.put (hi _) fun j _ => Iff.rfl
  | inside =>
    rw [haccess] at hi
    refine hs.put ?_ fun j _ => Iff.rfl
    rw [Access.owner, hi.1]
    exact hi.2 _
  | whole =>
    rw [haccess] at hi
    have hnone := hfree (.inl haccess)
    exact hs.put (by simpa [Access.owner] using hi.2 _) fun j _ => by simp [Access.owner, hnone]
  | enter =>
    rw [haccess] at hi
    have hnone := hfree (.inr haccess)
    refine hs.put (by simpa [Access.owner] using hi.2 _) fun j hj => ?_
    simp [Access.owner, hnone, Ne.symm hj]
  | leave =>
    rw [haccess] at hi
    have howner : s.owner = some i := by simpa using hi.1
    refine hs.put (by simpa [Access.owner] using hi.2 _) fun j hj => ?_
    simp [Access.owner, howner, Ne.symm hj]

theorem WellBracketed.reaches (h : Reaches (Sys.step I) anyStep s s') (hs : s.WellBracketed I) :
    s'.WellBracketed I :=
  h.invariant (P := fun s => s.WellBracketed I) hs fun hs _ hstep => hs.step hstep

/-- Between the operations of a section no other thread is in one: a thread whose next
operation needs the lock is the owner. -/
theorem WellBracketed.owner_of_access (hs : s.WellBracketed I) {e : E}
    {k : R e → Program E R α} (hrest : (s.thread i).rest = .call e k)
    (haccess : I.access e = .inside ∨ I.access e = .leave) : s.owner = some i := by
  have hi := hs i
  rw [hrest] at hi
  simp only [Bracketed] at hi
  rcases haccess with haccess | haccess
  · rw [haccess] at hi
    simpa using hi.1
  · rw [haccess] at hi
    simpa using hi.1

/-! ## Whole sections -/

variable (I) in
/-- Go on until the lock has been given back. -/
def runHeld : Program E R α → Λ → σ → Thread E R α Λ × σ
  | .ret a, l, s => (⟨.ret a, l⟩, s)
  | .call e k, l, s =>
    let r := I.run e l s
    if I.access e = .leave then (⟨k r.1, r.2.1⟩, r.2.2) else runHeld (k r.1) r.2.1 r.2.2

variable (I) in
/-- The next critical section of a thread in one piece, or its next operation outside of
one. -/
def atomicStep (s : Sys E R α Λ σ ι) (i : ι) : Option (Sys E R α Λ σ ι) :=
  match (s.thread i).rest with
  | .ret _ => none
  | .call e k =>
    let r := I.run e (s.thread i).own s.shared
    if I.access e = .enter then
      let r' := runHeld I (k r.1) r.2.1 r.2.2
      some (s.put i r'.1 r'.2 none)
    else some (s.put i ⟨k r.1, r.2.1⟩ r.2.2 none)

variable (I) in
/-- The section that has been begun is run to its end. -/
def finish (s : Sys E R α Λ σ ι) : Sys E R α Λ σ ι :=
  match s.owner with
  | none => s
  | some i =>
    let r := runHeld I (s.thread i).rest (s.thread i).own s.shared
    s.put i r.1 r.2 none

theorem finish_of_free (h : s.owner = none) : s.finish I = s := by
  simp only [finish, h]

theorem finish_of_owner (h : s.owner = some i) :
    s.finish I = s.put i (runHeld I (s.thread i).rest (s.thread i).own s.shared).1
      (runHeld I (s.thread i).rest (s.thread i).own s.shared).2 none := by
  simp only [finish, h]

theorem put_put (s : Sys E R α Λ σ ι) (t t' : Thread E R α Λ) (x x' : σ) (o o' : Option ι) :
    (s.put i t x o).put i t' x' o' = s.put i t' x' o' := by
  simp [put]

theorem put_comm (s : Sys E R α Λ σ ι) (h : i ≠ j) (t t' : Thread E R α Λ) (x x' y : σ)
    (o o' p : Option ι) : (s.put i t x o).put j t' y p = (s.put j t' x' o').put i t y p := by
  simp only [put, Function.update_comm h.symm]

/-- One operation in the section that has been begun does not change how the section ends,
and any other operation is a step of the finished system. The section as a whole takes
place when the lock is taken. -/
theorem WellBracketed.finish_step (hs : s.WellBracketed I) (hstep : s.step I i = some s') :
    s'.finish I = s.finish I ∨ (s.finish I).atomicStep I i = some (s'.finish I) := by
  obtain ⟨e, k, hrest, hfree, rfl⟩ := step_cases hstep
  have hi := hs i
  rw [hrest] at hi
  simp only [Bracketed] at hi
  -- an operation of the owner that keeps the lock
  have hsame : ∀ {owner}, owner = some i → s.owner = some i → I.access e ≠ .leave →
      (s.put i ⟨k (I.run e (s.thread i).own s.shared).1,
        (I.run e (s.thread i).own s.shared).2.1⟩ (I.run e (s.thread i).own s.shared).2.2
          owner).finish I = s.finish I := by
    rintro owner rfl howner hne
    rw [finish_of_owner (i := i) rfl, finish_of_owner howner, put_put, put_thread_self, put_shared,
      hrest, runHeld, if_neg hne]
  cases haccess : I.access e with
  | aside =>
    cases howner : s.owner with
    | none =>
      right
      rw [finish_of_free howner, finish_of_free rfl, atomicStep, hrest]
      simp only [haccess, reduceCtorEq, if_false, Access.owner]
    | some j =>
      by_cases hj : j = i
      · subst hj
        exact .inl (hsame rfl howner (by simp [haccess]))
      · right
        -- the two threads do not meet
        have haside := I.aside_eq e (s.thread i).own
        rw [Access.owner, finish_of_owner howner, finish_of_owner (i := j) rfl,
          put_thread_ne _ _ _ _ hj, put_shared, atomicStep, put_thread_ne _ _ _ _ (Ne.symm hj),
          hrest]
        simp only [haccess, reduceCtorEq, if_false, haside _ haccess, put_shared]
        rw [put_comm s hj _ _ _ s.shared _ _ (some j) none]
  | whole =>
    have hnone := hfree (.inl haccess)
    right
    rw [finish_of_free hnone, finish_of_free rfl, atomicStep, hrest]
    simp only [haccess, reduceCtorEq, if_false, Access.owner]
  | enter =>
    have hnone := hfree (.inr haccess)
    right
    rw [finish_of_free hnone, finish_of_owner (i := i) rfl, atomicStep, hrest, put_put,
      put_thread_self, put_shared]
    simp only [haccess, if_true]
  | inside =>
    rw [haccess] at hi
    have howner : s.owner = some i := by simpa using hi.1
    exact .inl (hsame howner howner (by simp [haccess]))
  | leave =>
    rw [haccess] at hi
    have howner : s.owner = some i := by simpa using hi.1
    left
    rw [finish_of_free rfl, finish_of_owner howner, hrest, runHeld, if_pos haccess]
    rfl

/-- What is reached by single operations, in any order of the threads, is reached by whole
sections, once the section that has been begun is run to its end. -/
theorem atomic_of_reaches (hs : s₀.WellBracketed I) (hfree : s₀.owner = none)
    (h : Reaches (Sys.step I) anyStep s₀ s) :
    Reaches (atomicStep I) anyStep s₀ (s.finish I) := by
  induction h with
  | refl =>
    rw [finish_of_free hfree]
    exact .refl
  | tail h _ hstep ih =>
    rcases (hs.reaches h).finish_step hstep with hsame | hatomic
    · rw [hsame]
      exact ih
    · exact .tail ih trivial hatomic

/-! ## Nobody waits for ever -/

/-- The thread has nothing left to do. -/
def Finished (s : Sys E R α Λ σ ι) (i : ι) : Prop := ∃ a, (s.thread i).rest = .ret a

/-- As long as a thread has something left to do, some thread can go on. -/
theorem WellBracketed.exists_step (hs : s.WellBracketed I) (hi : ¬ s.Finished i) :
    ∃ j s', s.step I j = some s' := by
  -- a thread goes on if the lock is free or its own
  have hgo : ∀ j, ¬ s.Finished j → (s.owner = none ∨ s.owner = some j) →
      ∃ s', s.step I j = some s' := by
    intro j hj howner
    have hbracketed := hs j
    cases hrest : (s.thread j).rest with
    | ret a => exact (hj ⟨a, hrest⟩).elim
    | call e k =>
      rw [hrest] at hbracketed
      simp only [Bracketed] at hbracketed
      have hfree : I.access e = .whole ∨ I.access e = .enter → s.owner = none := by
        intro haccess
        refine howner.resolve_right fun hown => ?_
        rcases haccess with haccess | haccess
        · simp [haccess, hown] at hbracketed
        · simp [haccess, hown] at hbracketed
      simp only [Sys.step, hrest]
      cases haccess : I.access e with
      | aside | inside | leave => exact ⟨_, rfl⟩
      | whole => exact ⟨_, if_pos (hfree (.inl haccess))⟩
      | enter => exact ⟨_, if_pos (hfree (.inr haccess))⟩
  cases howner : s.owner with
  | none =>
    obtain ⟨s', hstep⟩ := hgo i hi (.inl howner)
    exact ⟨i, s', hstep⟩
  | some j =>
    have hj : ¬ s.Finished j := by
      rintro ⟨a, hrest⟩
      have hbracketed := hs j
      rw [hrest] at hbracketed
      simp [Bracketed, howner] at hbracketed
    obtain ⟨s', hstep⟩ := hgo j hj (.inr howner)
    exact ⟨j, s', hstep⟩

/-- A thread that finds the lock free or has it can be run to its end. The others stay where
they are. -/
theorem WellBracketed.exists_run (hs : s.WellBracketed I)
    (howner : s.owner = none ∨ s.owner = some i) :
    ∃ s', Reaches (Sys.step I) anyStep s s' ∧ s'.owner = none ∧ s'.Finished i ∧
      ∀ j, j ≠ i → s'.thread j = s.thread j := by
  generalize hp : (s.thread i).rest = p
  induction p generalizing s with
  | ret a =>
    have hi := hs i
    rw [hp] at hi
    have hfree : s.owner = none := by
      refine howner.resolve_right fun hown => ?_
      simp [Bracketed, hown] at hi
    exact ⟨s, .refl, hfree, ⟨a, hp⟩, fun _ _ => rfl⟩
  | call e k ih =>
    have hi := hs i
    rw [hp] at hi
    simp only [Bracketed] at hi
    obtain ⟨s₁, hstep, howner₁, hrest₁, hothers₁⟩ : ∃ s₁, s.step I i = some s₁ ∧
        (s₁.owner = none ∨ s₁.owner = some i) ∧
        (s₁.thread i).rest = k (I.run e (s.thread i).own s.shared).1 ∧
        ∀ j, j ≠ i → s₁.thread j = s.thread j := by
      unfold Sys.step
      simp only [hp]
      cases haccess : I.access e with
      | aside | inside =>
        exact ⟨_, rfl, howner, by simp, fun j hj => put_thread_ne _ _ _ _ hj⟩
      | leave => exact ⟨_, rfl, .inl rfl, by simp, fun j hj => put_thread_ne _ _ _ _ hj⟩
      | whole =>
        rw [haccess] at hi
        have hfree : s.owner = none := howner.resolve_right (by simpa using hi.1)
        exact ⟨_, if_pos hfree, .inl rfl, by simp, fun j hj => put_thread_ne _ _ _ _ hj⟩
      | enter =>
        rw [haccess] at hi
        have hfree : s.owner = none := howner.resolve_right (by simpa using hi.1)
        exact ⟨_, if_pos hfree, .inr rfl, by simp, fun j hj => put_thread_ne _ _ _ _ hj⟩
    obtain ⟨s₂, hreach, hfree, hfinished, hothers⟩ := ih _ (hs.step hstep) howner₁ hrest₁
    refine ⟨s₂, hreach.head trivial hstep, hfree, hfinished, fun j hj => ?_⟩
    rw [hothers j hj, hothers₁ j hj]

/-- From every state the threads of a list can all be run to their ends. -/
theorem WellBracketed.exists_finished (hs : s.WellBracketed I) (threads : List ι) :
    ∃ s', Reaches (Sys.step I) anyStep s s' ∧ s'.owner = none ∧ ∀ i ∈ threads, s'.Finished i := by
  -- the owner first
  obtain ⟨s₁, hreach₁, hfree₁⟩ : ∃ s₁, Reaches (Sys.step I) anyStep s s₁ ∧ s₁.owner = none := by
    cases howner : s.owner with
    | none => exact ⟨s, .refl, howner⟩
    | some i =>
      obtain ⟨s₁, hreach, hfree, -, -⟩ := hs.exists_run (.inr howner)
      exact ⟨s₁, hreach, hfree⟩
  induction threads with
  | nil => exact ⟨s₁, hreach₁, hfree₁, fun _ h => by cases h⟩
  | cons i threads ih =>
    obtain ⟨s₂, hreach₂, hfree₂, hdone⟩ := ih
    obtain ⟨s₃, hreach₃, hfree₃, hi, hothers⟩ := (hs.reaches hreach₂).exists_run (.inl hfree₂)
    refine ⟨s₃, hreach₂.trans hreach₃, hfree₃, fun j hj => ?_⟩
    by_cases hji : j = i
    · exact hji ▸ hi
    · obtain ⟨a, ha⟩ := hdone j ((List.mem_cons.mp hj).resolve_left hji)
      exact ⟨a, by rw [hothers j hji, ha]⟩

/-! ## What belongs to a thread as its notes -/

section Noted

variable {γ : Type*} (view : Λ → γ) (note : (e : E) → R e → γ → γ) (A : γ → Prop)
  (N : α → γ → Prop)

/-- The part `view` of what belongs to a thread is what is noted of its calls. -/
def Noted (s : Sys E R α Λ σ ι) : Prop :=
  ∀ i, (s.thread i).rest.Noting note A N (view (s.thread i).own)

variable {view note A N}

/-- One operation, if its result is noted. -/
theorem Noted.step (hs : s.Noted view note A N) (hstep : s.step I i = some s')
    (hnote : ∀ e k, (s.thread i).rest = .call e k →
      view (I.run e (s.thread i).own s.shared).2.1 =
        note e (I.run e (s.thread i).own s.shared).1 (view (s.thread i).own))
    (hA : A (view (s'.thread i).own)) : s'.Noted view note A N := by
  obtain ⟨e, k, hrest, -, rfl⟩ := step_cases hstep
  rw [put_thread_self, hnote e k hrest] at hA
  intro j
  by_cases hj : j = i
  · subst hj
    have hi := hs j
    rw [hrest] at hi
    rw [put_thread_self, hnote e k hrest]
    exact hi _ hA
  · rw [put_thread_ne _ _ _ _ hj]
    exact hs j

end Noted

end Sys

end Youmenu.Critical
