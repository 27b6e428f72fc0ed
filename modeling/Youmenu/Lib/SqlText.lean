import Mathlib.Data.List.Basic
import Mathlib.Tactic.SplitIfs

/-!
# Tokens of SQL text

A tokeniser that reads one byte after the other. In a string literal two quotes denote
one quote, and two dashes start a comment that goes to the end of the line. A text that
was put together from fixed parts and from strings between quotes has the tokens that
its parts suggest exactly if no string has a quote in it.

## Main definitions

* `SqlText.step`, `SqlText.tokens` — the tokeniser.
* `SqlText.Piece`, `SqlText.render` — texts that are put together.
* `SqlText.template` — the tokens that the parts suggest.
-/

namespace Youmenu.SqlText

/-- An `illegal` token is a literal without its end. -/
inductive Token where
  | word (name : List UInt8)
  | symbol (b : UInt8)
  | string (value : List UInt8)
  | illegal (value : List UInt8)
deriving DecidableEq

/-- The byte `'`. -/
def quoteByte : UInt8 := 0x27

/-- The byte `-`. -/
def dashByte : UInt8 := 0x2d

def isSpace (b : UInt8) : Bool := b = 0x20 || 0x09 ≤ b && b ≤ 0x0d

/-- Letters, digits, `_`, `$` and everything beyond ASCII. -/
def isWord (b : UInt8) : Bool :=
  0x30 ≤ b && b ≤ 0x39 || 0x41 ≤ b && b ≤ 0x5a || 0x61 ≤ b && b ≤ 0x7a || b = 0x5f || b = 0x24 ||
    0x80 ≤ b

/-- What the tokeniser has read of the next token. `quote` is a literal after a quote
that ends it unless another one follows. -/
inductive State where
  | blank
  | word (name : List UInt8)
  | literal (value : List UInt8)
  | quote (value : List UInt8)
  | dash
  | comment
deriving DecidableEq

/-- The token that the end of the text completes. -/
def State.flush : State → List Token
  | blank | comment => []
  | word name => [.word name]
  | literal value => [.illegal value]
  | quote value => [.string value]
  | dash => [.symbol dashByte]

/-- The first byte of a token. -/
def start (b : UInt8) : List Token × State :=
  if isSpace b then ([], .blank)
  else if b = quoteByte then ([], .literal [])
  else if b = dashByte then ([], .dash)
  else if isWord b then ([], .word [b])
  else ([.symbol b], .blank)

/-- The byte ends the token that was read so far. -/
def next (st : State) (b : UInt8) : List Token × State := (st.flush ++ (start b).1, (start b).2)

def step : State → UInt8 → List Token × State
  | .blank, b => start b
  | .word name, b => if isWord b then ([], .word (name ++ [b])) else next (.word name) b
  | .literal value, b =>
    if b = quoteByte then ([], .quote value) else ([], .literal (value ++ [b]))
  | .quote value, b =>
    if b = quoteByte then ([], .literal (value ++ [b])) else next (.quote value) b
  | .dash, b => if b = dashByte then ([], .comment) else next .dash b
  | .comment, b => if b = 0x0a then ([], .blank) else ([], .comment)

/-- The tokens that are complete, and the state at the end. -/
def run (st : State) : List UInt8 → List Token × State
  | [] => ([], st)
  | b :: bs => ((step st b).1 ++ (run (step st b).2 bs).1, (run (step st b).2 bs).2)

def tokensFrom (st : State) (bs : List UInt8) : List Token := (run st bs).1 ++ (run st bs).2.flush

def tokens (bs : List UInt8) : List Token := tokensFrom .blank bs

variable {st : State} {bs bs' : List UInt8}

theorem tokensFrom_cons (st : State) (b : UInt8) (bs : List UInt8) :
    tokensFrom st (b :: bs) = (step st b).1 ++ tokensFrom (step st b).2 bs := by
  simp [tokensFrom, run]

theorem tokensFrom_append (st : State) (bs bs' : List UInt8) :
    tokensFrom st (bs ++ bs') = (run st bs).1 ++ tokensFrom (run st bs).2 bs' := by
  induction bs generalizing st with
  | nil => rfl
  | cons b bs ih =>
    rw [List.cons_append, tokensFrom_cons, ih]
    simp [run]

/-! ## Texts that are put together -/

/-- A token ends where the text goes on with these bytes. -/
def Separates (st : State) : List UInt8 → Prop
  | [] => True
  | b :: _ => step st b = next st b

theorem tokensFrom_of_separates (h : Separates st bs) :
    tokensFrom st bs = st.flush ++ tokens bs := by
  cases bs with
  | nil => simp [tokens, tokensFrom, run, State.flush]
  | cons b bs =>
    have hstep : step st b = next st b := h
    rw [tokensFrom_cons, hstep, tokens, tokensFrom_cons]
    simp [next, step]

theorem tokens_append (h : Separates (run .blank bs).2 bs') :
    tokens (bs ++ bs') = tokens bs ++ tokens bs' := by
  rw [tokens, tokensFrom_append, tokensFrom_of_separates h, ← List.append_assoc]
  rfl

/-- A part of a text, as it is or between quotes. -/
inductive Piece where
  | raw (text : List UInt8)
  | string (value : List UInt8)

def Piece.render : Piece → List UInt8
  | raw text => text
  | string value => quoteByte :: value ++ [quoteByte]

def render (ps : List Piece) : List UInt8 := ps.flatMap Piece.render

def Piece.template : Piece → List Token
  | raw text => tokens text
  | string value => [.string value]

/-- Each part has tokens of its own, and a string is one literal. -/
def template (ps : List Piece) : List Token := ps.flatMap Piece.template

/-- No token goes over the end of a part; of a string it is asked only that no quote
follows. -/
def WellSpaced : List Piece → Prop
  | [] => True
  | .raw text :: ps => Separates (run .blank text).2 (render ps) ∧ WellSpaced ps
  | .string _ :: ps => (render ps).head? ≠ some quoteByte ∧ WellSpaced ps

theorem render_raw (text : List UInt8) (ps : List Piece) :
    render (.raw text :: ps) = text ++ render ps := rfl

/-! ## Outside of literals and comments -/

def State.Open : State → Prop
  | blank | word _ | dash => True
  | literal _ | quote _ | comment => False

theorem start_open {b : UInt8} (hb : b ≠ quoteByte) : (start b).2.Open := by
  unfold start
  split_ifs <;> trivial

theorem step_open {b : UInt8} (hst : st.Open) (hquote : b ≠ quoteByte) (hdash : b ≠ dashByte) :
    (step st b).2.Open := by
  cases st with
  | blank => exact start_open hquote
  | word name =>
    rw [step]
    split_ifs
    · trivial
    · exact start_open hquote
  | dash =>
    rw [step, if_neg hdash]
    exact start_open hquote
  | literal | quote | comment => exact hst.elim

/-- The bytes start neither a literal nor a comment. -/
def Unmarked (bs : List UInt8) : Prop := ∀ b ∈ bs, b ≠ quoteByte ∧ b ≠ dashByte

theorem unmarked_of_all (h : bs.all fun b => b ≠ quoteByte && b ≠ dashByte) : Unmarked bs := by
  simpa [Unmarked] using h

theorem Unmarked.append (h : Unmarked bs) (h' : Unmarked bs') : Unmarked (bs ++ bs') := by
  intro b hb
  rcases List.mem_append.mp hb with hb | hb
  · exact h b hb
  · exact h' b hb

theorem run_open (hst : st.Open) (hbs : Unmarked bs) : (run st bs).2.Open := by
  induction bs generalizing st with
  | nil => exact hst
  | cons b bs ih =>
    obtain ⟨hquote, hdash⟩ := hbs b List.mem_cons_self
    exact ih (step_open hst hquote hdash) fun b' hb' => hbs b' (List.mem_cons_of_mem _ hb')

/-- A symbol ends every word. -/
theorem separates_of_open {b : UInt8} (hst : st.Open) (hword : isWord b = false)
    (hdash : b ≠ dashByte) : Separates st (b :: bs) := by
  cases st with
  | blank => rfl
  | word name => simp [Separates, step, hword]
  | dash => simp [Separates, step, hdash]
  | literal | quote | comment => exact hst.elim

theorem separates_blank (bs : List UInt8) : Separates .blank bs := by
  cases bs <;> trivial

/-! ## Literals -/

/-- How a literal would have to be written. -/
def escape : List UInt8 → List UInt8
  | [] => []
  | b :: bs => if b = quoteByte then quoteByte :: quoteByte :: escape bs else b :: escape bs

/-- The token at the head of a text. -/
theorem string_inj {value value' : List UInt8} {ts ts' : List Token}
    (h : Token.string value :: ts = .string value' :: ts') : value = value' := by
  injection h with h
  injection h

/-- A literal was written with its quotes doubled: from inside the literal, and from a quote
that may end it. -/
theorem literal_eq_escape {value : List UInt8} {ts : List Token} (bs acc : List UInt8) :
    (tokensFrom (.literal acc) bs = .string value :: ts →
      ∃ x rest, bs = escape x ++ quoteByte :: rest ∧ value = acc ++ x) ∧
    (tokensFrom (.quote acc) bs = .string value :: ts → value = acc ∨
      ∃ x rest, bs = quoteByte :: escape x ++ quoteByte :: rest ∧
        value = acc ++ quoteByte :: x) := by
  induction bs generalizing acc with
  | nil =>
    refine ⟨nofun, fun h => .inl ?_⟩
    have hflush : [Token.string acc] = .string value :: ts := h
    exact (string_inj hflush).symm
  | cons b bs ih =>
    constructor
    · intro h
      rw [tokensFrom_cons, step] at h
      split_ifs at h with hb
      · rcases (ih acc).2 h with rfl | ⟨x, rest, rfl, rfl⟩
        · exact ⟨[], bs, by simp [escape, hb], by simp⟩
        · exact ⟨quoteByte :: x, rest, by simp [escape, hb], rfl⟩
      · obtain ⟨x, rest, rfl, rfl⟩ := (ih _).1 h
        exact ⟨b :: x, rest, by simp [escape, hb], by simp⟩
    · intro h
      rw [tokensFrom_cons, step] at h
      split_ifs at h with hb
      · obtain ⟨x, rest, rfl, rfl⟩ := (ih _).1 h
        exact .inr ⟨x, rest, by simp [hb], by simp [hb]⟩
      · exact .inl (string_inj h).symm

/-- Quotes that are too many push the text along, and never come out even. -/
theorem replicate_escape_ne {k : ℕ} {value rest rest' : List UInt8}
    (hrest : rest.head? ≠ some quoteByte) :
    value ++ quoteByte :: rest ≠
      List.replicate (k + 1) quoteByte ++ escape value ++ quoteByte :: rest' := by
  induction value generalizing k with
  | nil =>
    intro heq
    have htail : rest = List.replicate k quoteByte ++ quoteByte :: rest' := by
      simpa [escape, List.replicate_succ] using heq
    cases k <;> simp [htail, List.replicate_succ] at hrest
  | cons b value ih =>
    intro heq
    rw [List.replicate_succ, List.cons_append, List.cons_append, List.cons_append] at heq
    injection heq with hb heq
    refine ih (k := k + 1) ?_
    rw [heq, escape, if_pos hb, List.replicate_succ', List.replicate_succ']
    simp

/-- A string between quotes is read as it is only if it has no quote in it. -/
theorem not_mem_of_literal {value rest : List UInt8} {ts : List Token}
    (hrest : rest.head? ≠ some quoteByte)
    (h : tokensFrom (.literal []) (value ++ quoteByte :: rest) = .string value :: ts) :
    quoteByte ∉ value := by
  obtain ⟨x, rest', heq, hx⟩ := (literal_eq_escape _ _).1 h
  obtain rfl : value = x := by simpa using hx
  clear h hx
  induction value with
  | nil => simp
  | cons b value ih =>
    by_cases hb : b = quoteByte
    · rw [escape, if_pos hb, hb] at heq
      have heq' : value ++ quoteByte :: rest =
          List.replicate 1 quoteByte ++ escape value ++ quoteByte :: rest' := by
        simpa using heq
      exact (replicate_escape_ne hrest heq').elim
    · rw [escape, if_neg hb] at heq
      have hvalue := ih (by simpa using heq)
      simp only [List.mem_cons, not_or]
      exact ⟨fun h => hb h.symm, hvalue⟩

/-- The bytes of a string without a quote stay in the literal. -/
theorem run_literal {value : List UInt8} (hvalue : quoteByte ∉ value) (acc : List UInt8) :
    run (.literal acc) value = ([], .literal (acc ++ value)) := by
  induction value generalizing acc with
  | nil => simp [run]
  | cons b value ih =>
    obtain ⟨hb, hrest⟩ := not_or.mp (List.mem_cons.not.mp hvalue)
    have hstep : step (.literal acc) b = ([], .literal (acc ++ [b])) := by
      rw [step, if_neg fun h => hb h.symm]
    simp [run, hstep, ih hrest]

theorem tokens_string {value rest : List UInt8} (hvalue : quoteByte ∉ value)
    (hrest : rest.head? ≠ some quoteByte) :
    tokensFrom (.literal []) (value ++ quoteByte :: rest) = .string value :: tokens rest := by
  have hseparates : Separates (.quote value) rest := by
    cases rest with
    | nil => trivial
    | cons b rest =>
      have hb : b ≠ quoteByte := by simpa using hrest
      rw [Separates, step, if_neg hb]
  rw [tokensFrom_append, run_literal hvalue, tokensFrom_cons, List.nil_append, List.nil_append,
    step, if_pos rfl, List.nil_append, tokensFrom_of_separates hseparates]
  rfl

/-- The text has the tokens of its parts exactly if no string has a quote in it. -/
theorem tokens_render_iff {ps : List Piece} (hps : WellSpaced ps) :
    tokens (render ps) = template ps ↔ ∀ value, .string value ∈ ps → quoteByte ∉ value := by
  induction ps with
  | nil => simp [render, template, tokens, tokensFrom, run, State.flush]
  | cons p ps ih =>
    cases p with
    | raw text =>
      obtain ⟨hseparates, hspaced⟩ := hps
      have htokens : tokens (render (.raw text :: ps)) = tokens text ++ tokens (render ps) :=
        tokens_append hseparates
      have htemplate : template (.raw text :: ps) = tokens text ++ template ps := rfl
      rw [htokens, htemplate, List.append_cancel_left_eq, ih hspaced]
      simp
    | string value =>
      obtain ⟨hrest, hspaced⟩ := hps
      have htokens : tokens (render (.string value :: ps)) =
          tokensFrom (.literal []) (value ++ quoteByte :: render ps) := by
        simp [render, Piece.render, tokens, tokensFrom_cons, step, start, isSpace, quoteByte]
      have htemplate : template (.string value :: ps) = .string value :: template ps := rfl
      rw [htokens, htemplate]
      constructor
      · intro h
        have hvalue := not_mem_of_literal hrest h
        rw [tokens_string hvalue hrest] at h
        have htail := (ih hspaced).mp (List.cons.inj h).2
        intro value' hmem
        rcases List.mem_cons.mp hmem with heq | hmem
        · injection heq with heq
          exact heq ▸ hvalue
        · exact htail value' hmem
      · intro hall
        rw [tokens_string (hall value List.mem_cons_self) hrest]
        have htail := (ih hspaced).mpr fun value' hmem => hall value' (List.mem_cons_of_mem _ hmem)
        rw [htail]

end Youmenu.SqlText
