import Mathlib.Tactic.SplitIfs

/-!
# Transition systems with conditions on steps

A system is a step function `σ → ε → Option σ`: `none` says that the event cannot
happen in that state. A run is cut down by a condition on each state and the event
that is taken there.

## Main definitions

* `Reaches` — the states of all runs whose steps meet a condition.
* `exec` — one run, computed.
* `traced` — a system that also reports what it does, with the reports kept.
-/

namespace Youmenu.Transition

variable {σ ε : Type*} {step : σ → ε → Option σ} {ok ok' : σ → ε → Prop} {s s' s'' : σ}

/-- The states that are reached from `s` by steps that all meet `ok`. -/
inductive Reaches (step : σ → ε → Option σ) (ok : σ → ε → Prop) (s : σ) : σ → Prop
  | refl : Reaches step ok s s
  | tail {s' s'' : σ} {e : ε} (h : Reaches step ok s s') (hok : ok s' e)
      (hstep : step s' e = some s'') : Reaches step ok s s''

/-- No condition on the steps. -/
def anyStep : σ → ε → Prop := fun _ _ => True

instance (s : σ) (e : ε) : Decidable (anyStep s e) := inferInstanceAs (Decidable True)

/-- What holds at the start and is kept by every step that meets the condition
holds in every state of every such run. -/
theorem Reaches.invariant {P : σ → Prop} (h : Reaches step ok s s') (hinit : P s)
    (hkeep : ∀ {s e s'}, P s → ok s e → step s e = some s' → P s') : P s' := by
  induction h with
  | refl => exact hinit
  | tail _ hok hstep ih => exact hkeep ih hok hstep

theorem Reaches.mono (h : Reaches step ok s s') (himp : ∀ s e, ok s e → ok' s e) :
    Reaches step ok' s s' := by
  induction h with
  | refl => exact .refl
  | tail _ hok hstep ih => exact .tail ih (himp _ _ hok) hstep

theorem Reaches.head {e : ε} (hok : ok s e) (hstep : step s e = some s')
    (h : Reaches step ok s' s'') : Reaches step ok s s'' := by
  induction h with
  | refl => exact .tail .refl hok hstep
  | tail _ hok' hstep' ih => exact .tail ih hok' hstep'

theorem Reaches.trans (h : Reaches step ok s s') (h' : Reaches step ok s' s'') :
    Reaches step ok s s'' := by
  induction h' with
  | refl => exact h
  | tail _ hok hstep ih => exact .tail ih hok hstep

/-- Take the events one after the other, as long as the steps meet `ok`. -/
def exec (step : σ → ε → Option σ) (ok : σ → ε → Prop) [∀ s e, Decidable (ok s e)] :
    σ → List ε → Option σ
  | s, [] => some s
  | s, e :: es => if ok s e then (step s e).bind fun s => exec step ok s es else none

theorem reaches_of_exec [∀ s e, Decidable (ok s e)] (es : List ε)
    (h : exec step ok s es = some s') : Reaches step ok s s' := by
  induction es generalizing s with
  | nil =>
    obtain rfl : s = s' := Option.some.inj h
    exact .refl
  | cons e es ih =>
    rw [exec] at h
    split_ifs at h with hok
    obtain ⟨s₁, hstep, hrest⟩ := Option.bind_eq_some_iff.mp h
    exact (ih hrest).head hok hstep

/-! ## Systems that report -/

section Traced

variable {ω : Type*} {report : σ → ε → Option (σ × List ω)}

/-- Every step adds what it reports to the history. -/
def traced (report : σ → ε → Option (σ × List ω)) (s : σ × List ω) (e : ε) :
    Option (σ × List ω) :=
  (report s.1 e).map fun r => (r.1, s.2 ++ r.2)

theorem traced_eq_some {s s' : σ} {w w' : List ω} {e : ε} :
    traced report (s, w) e = some (s', w') ↔
      ∃ new, report s e = some (s', new) ∧ w' = w ++ new := by
  simp only [traced, Option.map_eq_some_iff, Prod.exists, Prod.mk.injEq]
  constructor
  · rintro ⟨t, new, hreport, rfl, rfl⟩
    exact ⟨new, hreport, rfl⟩
  · rintro ⟨new, hreport, rfl⟩
    exact ⟨s', new, hreport, rfl, rfl⟩

theorem exec_traced_cons {s s' : σ} {w new : List ω} {e : ε} (es : List ε)
    (h : report s e = some (s', new)) :
    exec (traced report) anyStep (s, w) (e :: es) =
      exec (traced report) anyStep (s', w ++ new) es := by
  simp only [exec, anyStep, if_true, traced_eq_some.mpr ⟨new, h, rfl⟩, Option.bind_some]

end Traced

end Youmenu.Transition
