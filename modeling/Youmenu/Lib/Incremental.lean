import Mathlib.Data.List.Basic
import Mathlib.Data.List.Infix

/-!
# Incremental parsing of a stream

A parser looks at the unparsed bytes and either asks for more, refuses them, or
takes an item off the front. `run` repeats this as long as items come. Between
two deliveries of input only the unparsed rest is kept, so that what is parsed
does not depend on how the stream was cut: `run_frames` says what a run finds,
`exists_cut` what a cut in the middle of the stream leaves behind, and
`items_feed` what any sequence of deliveries finds.
-/

namespace Incremental

variable {β φ ε : Type*}

/-- One look at the unparsed input. -/
inductive Verdict (β φ ε : Type*) where
  | more (code : ε)
  | refuse (code : ε) (rest : List β)
  | item (x : φ) (rest : List β)

structure Parser (β φ ε : Type*) where
  look : List β → Verdict β φ ε
  shorter : ∀ {bs x rest}, look bs = .item x rest → rest.length < bs.length
  refuse_le : ∀ {bs code rest}, look bs = .refuse code rest → rest.length ≤ bs.length

/-- The items found, the code on which the run stopped, and the unparsed rest. -/
structure Out (β φ ε : Type*) where
  items : List φ
  code : ε
  rest : List β

def Out.push (x : φ) (o : Out β φ ε) : Out β φ ε := { o with items := x :: o.items }

def Parser.run (p : Parser β φ ε) (bs : List β) : Out β φ ε :=
  match _h : p.look bs with
  | .more code => ⟨[], code, bs⟩
  | .refuse code rest => ⟨[], code, rest⟩
  | .item x rest => (p.run rest).push x
termination_by bs.length
decreasing_by exact p.shorter _h

namespace Parser

variable (p : Parser β φ ε)

theorem run_more {bs : List β} {code : ε} (h : p.look bs = .more code) :
    p.run bs = ⟨[], code, bs⟩ := by
  rw [run]
  split <;> simp_all

theorem run_refuse {bs rest : List β} {code : ε} (h : p.look bs = .refuse code rest) :
    p.run bs = ⟨[], code, rest⟩ := by
  rw [run]
  split <;> simp_all

theorem run_item {bs rest : List β} {x : φ} (h : p.look bs = .item x rest) :
    p.run bs = (p.run rest).push x := by
  rw [run]
  split <;> simp_all

theorem length_rest_le (bs : List β) : (p.run bs).rest.length ≤ bs.length := by
  induction hn : bs.length using Nat.strongRecOn generalizing bs with
  | _ n ih =>
    cases hlook : p.look bs with
    | more code => rw [p.run_more hlook]; exact hn.le
    | refuse code rest => rw [p.run_refuse hlook]; exact hn ▸ p.refuse_le hlook
    | item x rest =>
      have hlt := p.shorter hlook
      rw [p.run_item hlook]
      exact (ih rest.length (by omega) rest rfl).trans (by omega)

/-- `f` is a frame for the item `x`: it is taken whole, whatever follows, and no
proper prefix of it is enough. -/
structure Frame (f : List β) (x : φ) : Prop where
  take : ∀ y, p.look (f ++ y) = .item x y
  wait : ∀ q, q <+: f → q ≠ f → ∃ code, p.look q = .more code

/-- A stream of frames, broken off inside one more frame. -/
structure Stream (F : List (List β)) (xs : List φ) (P : List β) : Prop where
  frames : List.Forall₂ p.Frame F xs
  tail : ∃ f x, p.Frame f x ∧ P <+: f ∧ P ≠ f

variable {p}

theorem Stream.look_tail {F : List (List β)} {xs : List φ} {P : List β}
    (h : p.Stream F xs P) : ∃ code, p.look P = .more code := by
  obtain ⟨f, x, hf, hpre, hne⟩ := h.tail
  exact hf.wait P hpre hne

/-- A run finds every whole frame and keeps the broken one. -/
theorem Stream.run_frames {F : List (List β)} {xs : List φ} {P : List β}
    (h : p.Stream F xs P) :
    ∃ code, p.run (F.flatten ++ P) = ⟨xs, code, P⟩ ∧ p.look P = .more code := by
  obtain ⟨code, hcode⟩ := h.look_tail
  refine ⟨code, ?_, hcode⟩
  have hframes := h.frames
  clear h
  induction hframes with
  | nil => exact p.run_more hcode
  | cons hf _ ih =>
    rw [List.flatten_cons, List.append_assoc, p.run_item (hf.take _), ih]
    rfl

/-- Cutting a stream anywhere cuts it into two streams. -/
theorem Stream.exists_cut {F : List (List β)} {xs : List φ} {P a b : List β}
    (h : p.Stream F xs P) (hcut : F.flatten ++ P = a ++ b) :
    ∃ F₁ F₂ xs₁ xs₂ Q, xs = xs₁ ++ xs₂ ∧ a = F₁.flatten ++ Q ∧ Q ++ b = F₂.flatten ++ P ∧
      p.Stream F₁ xs₁ Q ∧ p.Stream F₂ xs₂ P := by
  obtain ⟨hframes, htail⟩ := h
  induction hframes generalizing a with
  | nil =>
    obtain ⟨f, x, hf, hpre, hne⟩ := htail
    have hP : P = a ++ b := by simpa using hcut
    have ha : a <+: f := (hP ▸ List.prefix_append a b).trans hpre
    refine ⟨[], [], [], [], a, rfl, rfl, by simpa using hP.symm, ⟨.nil, f, x, hf, ha, ?_⟩,
      ⟨.nil, f, x, hf, hpre, hne⟩⟩
    rintro rfl
    have hb : b = [] := by
      have := hpre.length_le
      rw [hP, List.length_append] at this
      exact List.eq_nil_of_length_eq_zero (by omega)
    exact hne (by rw [hP, hb, List.append_nil])
  | @cons f x F xs hf hrest ih =>
    rw [List.flatten_cons, List.append_assoc] at hcut
    by_cases hle : f.length ≤ a.length
    · -- the cut lies behind the first frame
      obtain ⟨a', rfl⟩ : f <+: a :=
        List.prefix_of_prefix_length_le (hcut ▸ List.prefix_append f _) (List.prefix_append a b) hle
      rw [List.append_assoc, List.append_cancel_left_eq] at hcut
      obtain ⟨F₁, F₂, xs₁, xs₂, Q, rfl, rfl, hQ, h₁, h₂⟩ := ih hcut
      exact ⟨f :: F₁, F₂, x :: xs₁, xs₂, Q, rfl, by simp, hQ, ⟨.cons hf h₁.frames, h₁.tail⟩, h₂⟩
    · -- the cut lies inside the first frame
      have hpre : a <+: f :=
        List.prefix_of_prefix_length_le (List.prefix_append a b)
          (hcut ▸ List.prefix_append f _) (by omega)
      refine ⟨[], f :: F, [], x :: xs, a, rfl, rfl, by simp [hcut],
        ⟨.nil, f, x, hf, hpre, ?_⟩, ⟨.cons hf hrest, htail⟩⟩
      rintro rfl
      exact hle le_rfl

/-- Nothing whole is left when the input ends in a tail that asks for more. -/
theorem Stream.items_eq_nil {F : List (List β)} {xs : List φ} {P raw : List β} {code : ε}
    (h : p.Stream F xs P) (hraw : raw = F.flatten ++ P) (hmore : p.look raw = .more code) :
    xs = [] := by
  obtain ⟨hframes, -⟩ := h
  cases hframes with
  | nil => rfl
  | cons hf _ =>
    rw [hraw, List.flatten_cons, List.append_assoc, hf.take] at hmore
    cases hmore

/-- The runs made when the input arrives in pieces, from the unparsed rest `raw`. -/
def feed (p : Parser β φ ε) : List β → List (List β) → List (Out β φ ε)
  | _, [] => []
  | raw, c :: cs => p.run (raw ++ c) :: p.feed (p.run (raw ++ c)).rest cs

@[simp] theorem length_feed (raw : List β) (chunks : List (List β)) :
    (p.feed raw chunks).length = chunks.length := by
  induction chunks generalizing raw with
  | nil => rfl
  | cons c cs ih => simp [feed, ih]

/-- Every way of cutting a stream gives the same items, and no delivery is refused. -/
theorem Stream.items_feed {F : List (List β)} {xs : List φ} {P raw : List β} {code : ε}
    (h : p.Stream F xs P) {chunks : List (List β)}
    (hcut : raw ++ chunks.flatten = F.flatten ++ P) (hmore : p.look raw = .more code) :
    (p.feed raw chunks).flatMap Out.items = xs ∧
      ∀ o ∈ p.feed raw chunks, p.look o.rest = .more o.code := by
  induction chunks generalizing F xs raw code with
  | nil =>
    have hraw : raw = F.flatten ++ P := by simpa using hcut
    simp [feed, h.items_eq_nil hraw hmore]
  | cons c cs ih =>
    rw [List.flatten_cons, ← List.append_assoc] at hcut
    obtain ⟨F₁, F₂, xs₁, xs₂, Q, rfl, ha, hQ, h₁, h₂⟩ := h.exists_cut hcut.symm
    obtain ⟨code₁, hrun, hlook⟩ := h₁.run_frames
    obtain ⟨hitems, hcodes⟩ := ih h₂ hQ hlook
    have hrun' : p.run (raw ++ c) = ⟨xs₁, code₁, Q⟩ := by rw [ha, hrun]
    simp only [feed, hrun', List.flatMap_cons, hitems, List.mem_cons, forall_eq_or_imp, true_and]
    exact ⟨hlook, hcodes⟩

/-- Input that is refused when it is complete and not before is also refused when it arrives
element by element, and nothing comes out of it. -/
theorem feed_singletons {raw bs rest : List β} {code : ε} (hne : bs ≠ [])
    (hmore : ∀ q, q <+: bs → q ≠ [] → q ≠ bs → ∃ c, p.look (raw ++ q) = .more c)
    (hrefuse : p.look (raw ++ bs) = .refuse code rest) :
    (∃ o ∈ p.feed raw (bs.map ([·])), o.code = code) ∧
      ∀ o ∈ p.feed raw (bs.map ([·])), o.items = [] := by
  induction bs generalizing raw with
  | nil => exact absurd rfl hne
  | cons b bs ih =>
    simp only [List.map_cons, feed, List.mem_cons, exists_eq_or_imp, forall_eq_or_imp]
    by_cases hlast : bs = []
    · subst hlast
      rw [p.run_refuse hrefuse]
      exact ⟨.inl rfl, rfl, by simp [feed]⟩
    · obtain ⟨c, hc⟩ := hmore [b] (List.prefix_append [b] bs) (by simp) (by simpa using Ne.symm hlast)
      obtain ⟨hcode, hitems⟩ := @ih (raw ++ [b]) hlast
        (fun q hq hq' hqne => by
          obtain ⟨c, hc⟩ := hmore (b :: q) (List.cons_prefix_cons.mpr ⟨rfl, hq⟩) (by simp)
            (by simpa using hqne)
          exact ⟨c, by simpa using hc⟩)
        (by simpa using hrefuse)
      rw [p.run_more hc]
      exact ⟨.inr hcode, rfl, hitems⟩

end Parser

end Incremental
