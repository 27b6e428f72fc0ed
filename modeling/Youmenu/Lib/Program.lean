import Mathlib.Logic.Basic

/-!
# Programs over an interface

A program calls operations of an interface and goes on with their results. What an
operation does is left to a handler, so that one program can be run alone or among
others.

## Main definitions

* `Program`, `Program.exec` — programs and how a handler runs them.
* `Program.wp` — the states from which a program returns with a postcondition.
* `Program.Only` — all operations that a program can call are of a kind.
* `Program.Returns` — all results that a program can return are of a kind.
* `Program.Noting` — what a program returns, by what is noted of the results of its calls.
* `Program.Safe` — the program returns while others change the state between its calls.
-/

namespace Youmenu

/-- `R e` is the type of the results of the operation `e`. -/
inductive Program (E : Type) (R : E → Type) (α : Type) : Type
  | ret (a : α)
  | call (e : E) (k : R e → Program E R α)

namespace Program

variable {E : Type} {R : E → Type} {α β : Type} {σ : Type*}

protected def bind : Program E R α → (α → Program E R β) → Program E R β
  | ret a, f => f a
  | call e k, f => call e fun r => (k r).bind f

instance : Monad (Program E R) where
  pure := ret
  bind := Program.bind

/-- Call one operation. -/
def perform (e : E) : Program E R (R e) := call e ret

@[simp] theorem pure_eq (a : α) : (pure a : Program E R α) = ret a := rfl

@[simp] theorem ret_bind (a : α) (f : α → Program E R β) : (ret a >>= f) = f a := rfl

@[simp] theorem call_bind (e : E) (k : R e → Program E R α) (f : α → Program E R β) :
    (call e k >>= f) = call e fun r => k r >>= f := rfl

@[simp] theorem perform_bind (e : E) (f : R e → Program E R β) :
    (perform e >>= f) = call e f := rfl

/-- `none` if an operation never returns. -/
def exec (h : (e : E) → σ → Option (R e × σ)) : Program E R α → σ → Option (α × σ)
  | ret a, s => some (a, s)
  | call e k, s => (h e s).bind fun r => (k r.1).exec h r.2

/-- The program returns from `s`, with a result and a state that meet `Q`. -/
def wp (h : (e : E) → σ → Option (R e × σ)) : Program E R α → (α → σ → Prop) → σ → Prop
  | ret a, Q, s => Q a s
  | call e k, Q, s => ∃ r s', h e s = some (r, s') ∧ (k r).wp h Q s'

variable {h : (e : E) → σ → Option (R e × σ)} {p : Program E R α} {Q Q' : α → σ → Prop} {s : σ}

theorem wp_iff_exec : p.wp h Q s ↔ ∃ a s', p.exec h s = some (a, s') ∧ Q a s' := by
  induction p generalizing s with
  | ret a =>
    constructor
    · exact fun hQ => ⟨a, s, rfl, hQ⟩
    · rintro ⟨a, s', ⟨⟩, hQ⟩
      exact hQ
  | call e k ih =>
    constructor
    · rintro ⟨r, s', he, hk⟩
      obtain ⟨a, s'', hexec, hQ⟩ := ih r |>.mp hk
      exact ⟨a, s'', by rw [exec, he, Option.bind_some, hexec], hQ⟩
    · rintro ⟨a, s'', hexec, hQ⟩
      obtain ⟨⟨r, s'⟩, he, hk⟩ := Option.bind_eq_some_iff.mp hexec
      exact ⟨r, s', he, ih r |>.mpr ⟨a, s'', hk, hQ⟩⟩

/-- What a run has come to meets the postcondition. -/
theorem wp.of_exec (hp : p.wp h Q s) {a : α} {s' : σ} (hexec : p.exec h s = some (a, s')) :
    Q a s' := by
  obtain ⟨a', s'', hexec', hQ⟩ := wp_iff_exec.mp hp
  obtain ⟨rfl, rfl⟩ := Prod.mk.inj (Option.some.inj (hexec.symm.trans hexec'))
  exact hQ

theorem wp.mono (hp : p.wp h Q s) (hQ : ∀ a s, Q a s → Q' a s) : p.wp h Q' s := by
  obtain ⟨a, s', hexec, ha⟩ := wp_iff_exec.mp hp
  exact wp_iff_exec.mpr ⟨a, s', hexec, hQ a s' ha⟩

/-- A program has one result. -/
theorem wp.and (hp : p.wp h Q s) (hp' : p.wp h Q' s) : ∃ a s', Q a s' ∧ Q' a s' := by
  obtain ⟨a, s', hexec, hQ⟩ := wp_iff_exec.mp hp
  exact ⟨a, s', hQ, hp'.of_exec hexec⟩

/-- A call whose operation returns from `s` is as good as what follows it. -/
theorem wp_call {e : E} {k : R e → Program E R α} {r : R e} {s' : σ}
    (he : h e s = some (r, s')) : (call e k).wp h Q s ↔ (k r).wp h Q s' := by
  constructor
  · rintro ⟨r', s'', he', hk⟩
    obtain ⟨rfl, rfl⟩ := Prod.mk.inj (Option.some.inj (he.symm.trans he'))
    exact hk
  · exact fun hk => ⟨r, s', he, hk⟩

theorem wp_bind {f : α → Program E R β} {Q : β → σ → Prop} :
    (p >>= f).wp h Q s ↔ p.wp h (fun a s => (f a).wp h Q s) s := by
  induction p generalizing s with
  | ret a => exact Iff.rfl
  | call e k ih =>
    rw [call_bind]
    constructor
    · rintro ⟨r, s', he, hk⟩
      exact ⟨r, s', he, (ih r).mp hk⟩
    · rintro ⟨r, s', he, hk⟩
      exact ⟨r, s', he, (ih r).mpr hk⟩

/-- Every operation that the program can call meets `P`. -/
def Only (P : E → Prop) : Program E R α → Prop
  | ret _ => True
  | call e k => P e ∧ ∀ r, (k r).Only P

theorem only_perform {P : E → Prop} {e : E} {f : R e → Program E R β} (he : P e)
    (hf : ∀ r, (f r).Only P) : (perform e >>= f).Only P :=
  ⟨he, hf⟩

theorem Only.mono {P P' : E → Prop} (hp : p.Only P) (himp : ∀ e, P e → P' e) : p.Only P' := by
  induction p with
  | ret a => trivial
  | call e k ih => exact ⟨himp e hp.1, fun r => ih r (hp.2 r)⟩

theorem Only.bind {P : E → Prop} {f : α → Program E R β} (hp : p.Only P)
    (hf : ∀ a, (f a).Only P) : (p >>= f).Only P := by
  induction p with
  | ret a => exact hf a
  | call e k ih => exact ⟨hp.1, fun r => ih r (hp.2 r)⟩

/-- What all operations of a kind keep, and return from, the program keeps. -/
theorem Only.wp {P : E → Prop} {I : σ → Prop} (hp : p.Only P)
    (hkeep : ∀ e, P e → ∀ s, I s → ∃ r s', h e s = some (r, s') ∧ I s') (hs : I s) :
    p.wp h (fun _ s => I s) s := by
  induction p generalizing s with
  | ret a => exact hs
  | call e k ih =>
    obtain ⟨r, s', he, hs'⟩ := hkeep e hp.1 s hs
    exact ⟨r, s', he, ih r (hp.2 r) hs'⟩

/-- What all operations of a kind keep, if they return, the program keeps. -/
theorem Only.exec {P : E → Prop} {I : σ → Prop} (hp : p.Only P)
    (hkeep : ∀ e, P e → ∀ s r s', I s → h e s = some (r, s') → I s') (hs : I s) {a : α} {s' : σ}
    (hexec : p.exec h s = some (a, s')) : I s' := by
  induction p generalizing s with
  | ret a =>
    obtain ⟨-, rfl⟩ := Prod.mk.inj (Option.some.inj hexec)
    exact hs
  | call e k ih =>
    obtain ⟨⟨r, s₁⟩, he, hk⟩ := Option.bind_eq_some_iff.mp hexec
    exact ih r (hp.2 r) (hkeep e hp.1 s r s₁ hs he) hk

/-- Every result that the program can return meets `P`, whatever its calls return. -/
def Returns (P : α → Prop) : Program E R α → Prop
  | ret a => P a
  | call _ k => ∀ r, (k r).Returns P

theorem returns_true : (p : Program E R α) → p.Returns fun _ => True
  | ret _ => trivial
  | call _ k => fun r => returns_true (k r)

theorem returns_perform {P : β → Prop} {e : E} {f : R e → Program E R β}
    (hf : ∀ r, (f r).Returns P) : (perform e >>= f).Returns P :=
  hf

theorem Returns.mono {P P' : α → Prop} (hp : p.Returns P) (himp : ∀ a, P a → P' a) :
    p.Returns P' := by
  induction p with
  | ret a => exact himp a hp
  | call e k ih => exact fun r => ih r (hp r)

theorem Returns.bind {P : α → Prop} {P' : β → Prop} {f : α → Program E R β} (hp : p.Returns P)
    (hf : ∀ a, P a → (f a).Returns P') : (p >>= f).Returns P' := by
  induction p with
  | ret a => exact hf a hp
  | call e k ih => exact fun r => ih r (hp r)

theorem returns_map_iff {P : β → Prop} {f : α → β} :
    (p >>= fun a => ret (f a)).Returns P ↔ p.Returns fun a => P (f a) := by
  induction p with
  | ret a => exact Iff.rfl
  | call e k ih => exact forall_congr' fun r => ih r

theorem Returns.exec {P : α → Prop} (hp : p.Returns P) {a : α} {s' : σ}
    (hexec : p.exec h s = some (a, s')) : P a := by
  induction p generalizing s with
  | ret a =>
    obtain ⟨rfl, -⟩ := Prod.mk.inj (Option.some.inj hexec)
    exact hp
  | call e k ih =>
    obtain ⟨⟨r, s₁⟩, -, hk⟩ := Option.bind_eq_some_iff.mp hexec
    exact ih r (hp r) hk

/-! ## Notes of the results -/

section Noting

variable {γ : Type*} (note : (e : E) → R e → γ → γ) (A : γ → Prop)

/-- Of the result of each call a note is taken. In every run whose notes meet `A` all along, `Q`
holds at the end. -/
def Noting : Program E R α → (α → γ → Prop) → γ → Prop
  | ret a, Q, g => Q a g
  | call e k, Q, g => ∀ r, A (note e r g) → (k r).Noting Q (note e r g)

variable {note A} {N N' : α → γ → Prop} {g : γ}

theorem Noting.mono (hp : p.Noting note A N g) (hN : ∀ a g, N a g → N' a g) :
    p.Noting note A N' g := by
  induction p generalizing g with
  | ret a => exact hN a g hp
  | call e k ih => exact fun r hr => ih r (hp r hr)

theorem noting_bind {f : α → Program E R β} {N : β → γ → Prop} :
    (p >>= f).Noting note A N g ↔ p.Noting note A (fun a g => (f a).Noting note A N g) g := by
  induction p generalizing g with
  | ret a => exact Iff.rfl
  | call e k ih => exact forall₂_congr fun r _ => ih r

theorem Returns.noting {P : α → Prop} (hp : p.Returns P) (hN : ∀ a g, P a → N a g) :
    p.Noting note A N g := by
  induction p generalizing g with
  | ret a => exact hN a g hp
  | call e k ih => exact fun r _ => ih r (hp r)

/-- A program of whose calls nothing is noted. -/
theorem Only.noting (hp : p.Only fun e => ∀ r g, note e r g = g) (hN : ∀ a, N a g) :
    p.Noting note A N g := by
  induction p with
  | ret a => exact hN a
  | call e k ih =>
    intro r _
    rw [hp.1 r g]
    exact ih r (hp.2 r)

end Noting

/-! ## If it returns -/

/-- Where the program returns from `s`, its result and its state meet `Q`. -/
def wlp (h : (e : E) → σ → Option (R e × σ)) (p : Program E R α) (Q : α → σ → Prop) (s : σ) :
    Prop :=
  ∀ a s', p.exec h s = some (a, s') → Q a s'

theorem wlp_ret {a : α} (hQ : Q a s) : (ret a).wlp h Q s := by
  intro a' s' hexec
  obtain ⟨rfl, rfl⟩ := Prod.mk.inj (Option.some.inj hexec)
  exact hQ

theorem wlp_call {e : E} {k : R e → Program E R α}
    (hk : ∀ r s', h e s = some (r, s') → (k r).wlp h Q s') : (call e k).wlp h Q s := by
  intro a s'' hexec
  obtain ⟨⟨r, s'⟩, he, hrest⟩ := Option.bind_eq_some_iff.mp hexec
  exact hk r s' he a s'' hrest

theorem wlp_bind {f : α → Program E R β} {Q : β → σ → Prop}
    (hp : p.wlp h (fun a s => (f a).wlp h Q s) s) : (p >>= f).wlp h Q s := by
  induction p generalizing s with
  | ret a => exact hp a s rfl
  | call e k ih =>
    refine wlp_call fun r s' he => ih r fun a s'' hexec => hp a s'' ?_
    rw [exec, he, Option.bind_some, hexec]

/-! ## Among others -/

/-- A handler that stops where the result of an operation does not meet `A`. -/
def asserting (A : (e : E) → R e → Bool) (h : (e : E) → σ → Option (R e × σ)) (e : E) (s : σ) :
    Option (R e × σ) :=
  (h e s).filter fun r => A e r.1

theorem exec_of_asserting {A : (e : E) → R e → Bool} {r : α × σ}
    (hexec : p.exec (asserting A h) s = some r) : p.exec h s = some r := by
  induction p generalizing s with
  | ret a => exact hexec
  | call e k ih =>
    obtain ⟨⟨x, s'⟩, he, hk⟩ := Option.bind_eq_some_iff.mp hexec
    obtain ⟨he, -⟩ := Option.filter_eq_some_iff.mp he
    rw [exec, he, Option.bind_some]
    exact ih x hk

/-- Before each call `e` others may take the state along `env e`. The program returns
nevertheless, the results of its operations meet `A`, and at the end `Q` holds. -/
def Safe (h : (e : E) → σ → Option (R e × σ)) (env : E → σ → σ → Prop)
    (A : (e : E) → R e → Bool) : Program E R α → (α → σ → Prop) → σ → Prop
  | ret a, Q, s => Q a s
  | call e k, Q, s => ∀ s', env e s s' →
      ∃ r s'', h e s' = some (r, s'') ∧ A e r ∧ (k r).Safe h env A Q s''

variable {env : E → σ → σ → Prop} {A : (e : E) → R e → Bool}

theorem safe_bind {f : α → Program E R β} {Q : β → σ → Prop} :
    (p >>= f).Safe h env A Q s ↔ p.Safe h env A (fun a s => (f a).Safe h env A Q s) s := by
  induction p generalizing s with
  | ret a => exact Iff.rfl
  | call e k ih =>
    rw [call_bind]
    refine forall₂_congr fun s' _ => exists₂_congr fun r s'' => ?_
    rw [ih r]

/-- What others do before a call does not make the program unsafe. -/
theorem Safe.interfere {e : E} {k : R e → Program E R α} {s' : σ}
    (hp : (call e k).Safe h env A Q s) (htrans : ∀ s'', env e s' s'' → env e s s'') :
    (call e k).Safe h env A Q s' :=
  fun s'' hs'' => hp s'' (htrans s'' hs'')

/-- Alone a safe program runs through all its assertions. -/
theorem Safe.exec_asserting (hp : p.Safe h env A Q s) (hrefl : ∀ e s, env e s s) :
    ∃ a s', p.exec (asserting A h) s = some (a, s') ∧ Q a s' := by
  induction p generalizing s with
  | ret a => exact ⟨a, s, rfl, hp⟩
  | call e k ih =>
    obtain ⟨r, s', he, hA, hk⟩ := hp s (hrefl e s)
    obtain ⟨a, s'', hexec, hQ⟩ := ih r hk
    have he' : asserting A h e s = some (r, s') := by
      rw [asserting, he]
      exact Option.filter_some_pos hA
    exact ⟨a, s'', by rw [exec, he', Option.bind_some, hexec], hQ⟩

end Program

end Youmenu
