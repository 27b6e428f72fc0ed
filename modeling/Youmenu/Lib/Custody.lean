import Mathlib.Data.List.Nodup
import Mathlib.Logic.Function.Basic

/-!
# Custody of tokens

Places hold tokens in queues. A token is issued once, to some places, and is given up
when it is taken from the front of a queue or when the queue is discarded. If a token
is never issued to two places at once, it is in one place at most, once, and is given
up at most once.

## Main definitions

* `Ledger` — the tokens at each place, and those that were given up.
* `Ledger.issue`, `Ledger.take`, `Ledger.discard` — the moves.
* `Ledger.Sole` — each token has one holder.
-/

namespace Custody

/-- What every place holds, first in first out, what was given up, and the next token. -/
structure Ledger (κ : Type*) where
  held : κ → List ℕ
  spent : List ℕ
  fresh : ℕ

namespace Ledger

variable {κ : Type*}

def empty : Ledger κ := ⟨fun _ => [], [], 0⟩

/-- A new token that is given up at once. -/
def waste (l : Ledger κ) : Ledger κ :=
  { l with spent := l.spent ++ [l.fresh], fresh := l.fresh + 1 }

section Moves

variable [DecidableEq κ]

/-- A new token, which is put at each of the places. -/
def issue (l : Ledger κ) (places : List κ) : Ledger κ :=
  { l with
    held := fun k => if k ∈ places then l.held k ++ [l.fresh] else l.held k
    fresh := l.fresh + 1 }

/-- The first token of a place, if there is one. -/
def take (l : Ledger κ) (k : κ) : Ledger κ :=
  { l with
    held := Function.update l.held k (l.held k).tail
    spent := l.spent ++ (l.held k).head?.toList }

/-- All tokens of a place. -/
def discard (l : Ledger κ) (k : κ) : Ledger κ :=
  { l with held := Function.update l.held k [], spent := l.spent ++ l.held k }

/-- A place begins with no token. -/
def clear (l : Ledger κ) (k : κ) : Ledger κ := { l with held := Function.update l.held k [] }

end Moves

/-- No token is in two positions or given up twice. -/
structure Sole (l : Ledger κ) : Prop where
  nodup : ∀ k, (l.held k).Nodup
  apart : ∀ k k' t, t ∈ l.held k → t ∈ l.held k' → k = k'
  spent : l.spent.Nodup
  kept : ∀ k t, t ∈ l.held k → t ∉ l.spent
  held_lt : ∀ k t, t ∈ l.held k → t < l.fresh
  spent_lt : ∀ t ∈ l.spent, t < l.fresh

variable {l : Ledger κ}

theorem Sole.empty : (empty : Ledger κ).Sole :=
  ⟨fun _ => .nil, nofun, .nil, nofun, nofun, nofun⟩

theorem Sole.waste (h : l.Sole) : l.waste.Sole := by
  refine ⟨h.nodup, h.apart, ?_, ?_, fun k t ht => Nat.lt_succ_of_lt (h.held_lt k t ht), ?_⟩
  · rw [Ledger.waste, List.nodup_append]
    refine ⟨h.spent, List.nodup_singleton _, ?_⟩
    intro t ht t' ht'
    rw [List.mem_singleton.mp ht']
    exact Nat.ne_of_lt (h.spent_lt t ht)
  · intro k t ht hspent
    rcases List.mem_append.mp hspent with hspent | hspent
    · exact h.kept k t ht hspent
    · exact Nat.ne_of_lt (h.held_lt k t ht) (List.mem_singleton.mp hspent)
  · intro t ht
    rcases List.mem_append.mp ht with ht | ht
    · exact Nat.lt_succ_of_lt (h.spent_lt t ht)
    · rw [List.mem_singleton.mp ht]
      exact Nat.lt_succ_self _

variable [DecidableEq κ]

/-- What a place gives up goes to the spent tokens, and the others keep what they have. -/
theorem Sole.giveUp (h : l.Sole) (k : κ) {gone rest : List ℕ} (hk : l.held k = gone ++ rest) :
    ({ l with held := Function.update l.held k rest, spent := l.spent ++ gone } :
      Ledger κ).Sole := by
  have hnodup := h.nodup k
  rw [hk, List.nodup_append] at hnodup
  have hgone : ∀ t ∈ gone, t ∈ l.held k := fun t ht => hk ▸ List.mem_append_left _ ht
  have hrest : ∀ t ∈ rest, t ∈ l.held k := fun t ht => hk ▸ List.mem_append_right _ ht
  have hheld : ∀ k' t, t ∈ Function.update l.held k rest k' → t ∈ l.held k' := by
    intro k' t ht
    rw [Function.update_apply] at ht
    split_ifs at ht with heq
    · exact heq ▸ hrest t ht
    · exact ht
  refine ⟨?_, ?_, ?_, ?_, ?_, ?_⟩
  · intro k'
    simp only [Function.update_apply]
    split_ifs
    · exact hnodup.2.1
    · exact h.nodup k'
  · exact fun k₁ k₂ t h₁ h₂ => h.apart k₁ k₂ t (hheld k₁ t h₁) (hheld k₂ t h₂)
  · rw [List.nodup_append]
    refine ⟨h.spent, hnodup.1, ?_⟩
    rintro t ht t' ht' rfl
    exact h.kept k t (hgone t ht') ht
  · intro k' t ht hspent
    rcases List.mem_append.mp hspent with hold | hnew
    · exact h.kept k' t (hheld k' t ht) hold
    · -- the token is at the place itself, before and behind the cut
      obtain rfl := h.apart k' k t (hheld k' t ht) (hgone t hnew)
      simp only [Function.update_self] at ht
      exact hnodup.2.2 t hnew t ht rfl
  · exact fun k' t ht => h.held_lt k' t (hheld k' t ht)
  · intro t ht
    rcases List.mem_append.mp ht with ht | ht
    · exact h.spent_lt t ht
    · exact h.held_lt k t (hgone t ht)

theorem Sole.take (h : l.Sole) (k : κ) : (l.take k).Sole :=
  h.giveUp k (by cases l.held k <;> rfl)

theorem Sole.discard (h : l.Sole) (k : κ) : (l.discard k).Sole :=
  h.giveUp k (List.append_nil _).symm

theorem Sole.clear (h : l.Sole) (k : κ) : (l.clear k).Sole := by
  have hheld : ∀ k' t, t ∈ (l.clear k).held k' → t ∈ l.held k' := by
    intro k' t ht
    simp only [Ledger.clear, Function.update_apply] at ht
    split_ifs at ht
    · cases ht
    · exact ht
  refine ⟨?_, ?_, h.spent, ?_, ?_, h.spent_lt⟩
  · intro k'
    simp only [Ledger.clear, Function.update_apply]
    split_ifs
    · exact .nil
    · exact h.nodup k'
  · exact fun k₁ k₂ t h₁ h₂ => h.apart k₁ k₂ t (hheld k₁ t h₁) (hheld k₂ t h₂)
  · exact fun k' t ht => h.kept k' t (hheld k' t ht)
  · exact fun k' t ht => h.held_lt k' t (hheld k' t ht)

/-- A token that is issued to one place at most has one holder. -/
theorem Sole.issue (h : l.Sole) {places : List κ} (hone : places.length ≤ 1) :
    (l.issue places).Sole := by
  have hsame : ∀ k ∈ places, ∀ k' ∈ places, k = k' := by
    match places, hone with
    | [], _ => nofun
    | [_], _ =>
      intro k hk k' hk'
      rw [List.mem_singleton.mp hk, List.mem_singleton.mp hk']
  have hheld : ∀ k t, t ∈ (l.issue places).held k ↔
      t ∈ l.held k ∨ k ∈ places ∧ t = l.fresh := by
    intro k t
    simp only [Ledger.issue]
    split_ifs with hk <;> simp [hk]
  have hnew : ∀ k, l.fresh ∉ l.held k := fun k hk => Nat.lt_irrefl _ (h.held_lt k _ hk)
  refine ⟨?_, ?_, h.spent, ?_, ?_, fun t ht => Nat.lt_succ_of_lt (h.spent_lt t ht)⟩
  · intro k
    simp only [Ledger.issue]
    split_ifs
    · rw [List.nodup_append]
      refine ⟨h.nodup k, List.nodup_singleton _, ?_⟩
      rintro t ht t' ht' rfl
      rw [List.mem_singleton.mp ht'] at ht
      exact hnew k ht
    · exact h.nodup k
  · intro k k' t ht ht'
    rcases (hheld k t).mp ht with ht | ⟨hk, rfl⟩ <;>
      rcases (hheld k' _).mp ht' with ht' | ⟨hk', heq⟩
    · exact h.apart k k' t ht ht'
    · exact absurd (heq ▸ ht) (hnew k)
    · exact absurd ht' (hnew k')
    · exact hsame k hk k' hk'
  · intro k t ht
    rcases (hheld k t).mp ht with ht | ⟨-, rfl⟩
    · exact h.kept k t ht
    · exact fun hspent => Nat.lt_irrefl _ (h.spent_lt _ hspent)
  · intro k t ht
    rcases (hheld k t).mp ht with ht | ⟨-, rfl⟩
    · exact Nat.lt_succ_of_lt (h.held_lt k t ht)
    · exact Nat.lt_succ_self _

end Ledger

end Custody
