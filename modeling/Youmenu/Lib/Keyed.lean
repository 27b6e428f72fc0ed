import Mathlib.Data.List.Basic
import Mathlib.Logic.Function.Basic

/-!
# Families of independent components

Copies of one machine, each under a key. An event is for one key: it changes that
component alone, and answers from that component alone. What happens under a key is
then what the component does on its own with the events for that key.

## Main definitions

* `run` — one component.
* `runAll` — the family.
* `callsOf` — the part of a history that is for one key.
* `Always`, `AlwaysAll` — every event comes in a state that suits it.
-/

namespace Keyed

variable {κ σ ε ω α : Type*} [DecidableEq κ]

/-- The entries for a key. -/
def callsOf (k : κ) (es : List (κ × α)) : List α := (es.filter fun e => e.1 = k).map Prod.snd

@[simp] theorem callsOf_cons_self (k : κ) (a : α) (es : List (κ × α)) :
    callsOf k ((k, a) :: es) = a :: callsOf k es := by
  simp [callsOf]

theorem callsOf_cons_of_ne {k k' : κ} (h : k' ≠ k) (a : α) (es : List (κ × α)) :
    callsOf k ((k', a) :: es) = callsOf k es := by
  simp [callsOf, h]

theorem mem_callsOf {k : κ} {a : α} {es : List (κ × α)} : a ∈ callsOf k es ↔ (k, a) ∈ es := by
  simp [callsOf]

section Machine

variable (step : σ → ε → σ × ω)

def run : σ → List ε → σ × List ω
  | s, [] => (s, [])
  | s, e :: es => ((run (step s e).1 es).1, (step s e).2 :: (run (step s e).1 es).2)

def runAll : (κ → σ) → List (κ × ε) → (κ → σ) × List (κ × ω)
  | f, [] => (f, [])
  | f, (k, e) :: es =>
    let rest := runAll (Function.update f k (step (f k) e).1) es
    (rest.1, (k, (step (f k) e).2) :: rest.2)

/-- The component under `k` runs as if it were alone. -/
theorem runAll_at (f : κ → σ) (k : κ) (es : List (κ × ε)) :
    (runAll step f es).1 k = (run step (f k) (callsOf k es)).1 ∧
      callsOf k (runAll step f es).2 = (run step (f k) (callsOf k es)).2 := by
  induction es generalizing f with
  | nil => exact ⟨rfl, rfl⟩
  | cons e es ih =>
    obtain ⟨k', e⟩ := e
    obtain ⟨hstate, houts⟩ := ih (Function.update f k' (step (f k') e).1)
    by_cases hk : k' = k
    · subst hk
      rw [Function.update_self] at hstate houts
      simp only [runAll, callsOf_cons_self, run]
      exact ⟨hstate, by rw [houts]⟩
    · rw [Function.update_of_ne (Ne.symm hk)] at hstate houts
      simp only [runAll, callsOf_cons_of_ne hk]
      exact ⟨hstate, houts⟩

variable (P : σ → ε → Prop)

def Always : σ → List ε → Prop
  | _, [] => True
  | s, e :: es => P s e ∧ Always (step s e).1 es

def AlwaysAll : (κ → σ) → List (κ × ε) → Prop
  | _, [] => True
  | f, (k, e) :: es => P (f k) e ∧ AlwaysAll (Function.update f k (step (f k) e).1) es

/-- What holds at every event of each component holds at every event of the family. -/
theorem alwaysAll_of_always {f : κ → σ} {es : List (κ × ε)}
    (h : ∀ k, Always step P (f k) (callsOf k es)) : AlwaysAll step P f es := by
  induction es generalizing f with
  | nil => trivial
  | cons e es ih =>
    obtain ⟨k, e⟩ := e
    have hk := h k
    rw [callsOf_cons_self] at hk
    refine ⟨hk.1, ih fun k' => ?_⟩
    by_cases hne : k = k'
    · subst hne
      rw [Function.update_self]
      exact hk.2
    · rw [Function.update_of_ne (Ne.symm hne), ← callsOf_cons_of_ne hne]
      exact h k'

end Machine

end Keyed
