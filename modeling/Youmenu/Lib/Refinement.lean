import Youmenu.Lib.Program
import Youmenu.Lib.Transition

/-!
# One interface on two levels

The same program runs on two handlers, and a view takes the states of the lower one to those of
the upper one. If single operations agree as long as they are called in the right way, so do
programs that call them in this way, and so do runs of such programs.

## Main definitions

* `Program.Respects` — all calls that a program makes meet a condition.
* `Agrees` — an operation gives the same on both levels.

## Main statements

* `Program.Respects.agrees` — so does a program that meets the condition.
* `Transition.reaches_view_iff` — two systems whose steps agree have the same runs.
-/

namespace Youmenu

variable {σ τ : Type*}

/-- From a state and from its view the same result comes, and states that belong together. -/
def Agrees {α : Type*} (view : σ → τ) (lower : σ → Option (α × σ)) (upper : τ → Option (α × τ))
    (s : σ) : Prop :=
  upper (view s) = (lower s).map (Prod.map id view)

namespace Program

variable {E : Type} {R : E → Type} {α β : Type} {h : (e : E) → σ → Option (R e × σ)}
  {P : E → σ → Prop} {p : Program E R α} {Q Q' : α → σ → Prop} {s : σ}

/-- Every call that the program makes from `s` is made in a state in which it meets `P`, and
where the program returns, `Q` holds. -/
def Respects (h : (e : E) → σ → Option (R e × σ)) (P : E → σ → Prop) :
    Program E R α → (α → σ → Prop) → σ → Prop
  | ret a, Q, s => Q a s
  | call e k, Q, s => P e s ∧ ∀ r s', h e s = some (r, s') → (k r).Respects h P Q s'

theorem respects_perform {e : E} {f : R e → Program E R β} {Q : β → σ → Prop} (he : P e s)
    (hf : ∀ r s', h e s = some (r, s') → (f r).Respects h P Q s') :
    (perform e >>= f).Respects h P Q s :=
  ⟨he, hf⟩

theorem Respects.bind {f : α → Program E R β} {Q : β → σ → Prop}
    (hp : p.Respects h P (fun a s => (f a).Respects h P Q s) s) :
    (p >>= f).Respects h P Q s := by
  induction p generalizing s with
  | ret a => exact hp
  | call e k ih => exact ⟨hp.1, fun r s' he => ih r (hp.2 r s' he)⟩

theorem Respects.mono (hp : p.Respects h P Q s) (hQ : ∀ a s, Q a s → Q' a s) :
    p.Respects h P Q' s := by
  induction p generalizing s with
  | ret a => exact hQ a s hp
  | call e k ih => exact ⟨hp.1, fun r s' he => ih r (hp.2 r s' he)⟩

theorem Respects.wlp (hp : p.Respects h P Q s) : p.wlp h Q s := by
  induction p generalizing s with
  | ret a => exact wlp_ret hp
  | call e k ih => exact wlp_call fun r s' he => ih r (hp.2 r s' he)

/-- A program that calls its operations in the right way does the same on both levels. -/
theorem Respects.agrees {h' : (e : E) → τ → Option (R e × τ)} {view : σ → τ}
    (hagrees : ∀ e s, P e s → Agrees view (h e) (h' e) s) (hp : p.Respects h P Q s) :
    Agrees view (p.exec h) (p.exec h') s := by
  induction p generalizing s with
  | ret a => rfl
  | call e k ih =>
    obtain ⟨he, hk⟩ := hp
    have hcall : h' e (view s) = (h e s).map (Prod.map id view) := hagrees e s he
    rw [Agrees, exec, exec, hcall]
    cases hr : h e s with
    | none => rfl
    | some r => exact ih r.1 (hk r.1 r.2 hr)

end Program

namespace Transition

variable {ε ω : Type*} {step : σ → ε → Option σ} {step' : τ → ε → Option τ} {view : σ → τ}
  {ok : τ → ε → Prop} {I : σ → Prop} {s : σ} {t : τ}

/-- Two systems whose steps agree, as long as an invariant holds and the steps meet `ok`, have
the same runs. -/
theorem reaches_view_iff
    (hstep : ∀ s e, I s → ok (view s) e → step' (view s) e = (step s e).map view)
    (hkeep : ∀ s e s', I s → ok (view s) e → step s e = some s' → I s') (hs : I s) :
    Reaches step' ok (view s) t ↔
      ∃ s', Reaches step (fun s e => ok (view s) e) s s' ∧ I s' ∧ view s' = t := by
  constructor
  · intro h
    induction h with
    | refl => exact ⟨s, .refl, hs, rfl⟩
    | tail _ hok hstep' ih =>
      obtain ⟨s₁, hs₁, hinv, rfl⟩ := ih
      rw [hstep s₁ _ hinv hok] at hstep'
      obtain ⟨s₂, hlower, hview⟩ := Option.map_eq_some_iff.mp hstep'
      exact ⟨s₂, .tail hs₁ hok hlower, hkeep s₁ _ s₂ hinv hok hlower, hview⟩
  · rintro ⟨s', h, -, rfl⟩
    have hinit : I s ∧ Reaches step' ok (view s) (view s) := ⟨hs, .refl⟩
    refine (h.invariant (P := fun s' => I s' ∧ Reaches step' ok (view s) (view s')) hinit ?_).2
    rintro s₁ e s₂ ⟨hinv, hreach⟩ hok hlower
    refine ⟨hkeep s₁ e s₂ hinv hok hlower, .tail hreach hok ?_⟩
    rw [hstep s₁ e hinv hok, hlower, Option.map_some]

/-- Steps that agree still do if their reports are kept. -/
theorem traced_view {report : σ → ε → Option (σ × List ω)} {report' : τ → ε → Option (τ × List ω)}
    {e : ε} (hreport : report' (view s) e = (report s e).map (Prod.map view id)) (w : List ω) :
    traced report' (view s, w) e = (traced report (s, w) e).map (Prod.map view id) := by
  rw [traced, traced, hreport, Option.map_map, Option.map_map]
  rfl

end Transition

end Youmenu
