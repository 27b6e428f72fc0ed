import Mathlib.Data.List.Nodup
import Mathlib.Data.List.Perm.Basic

/-!
# Tables with a primary key

No two rows of a table have the same key. An insertion of a key that is there already is
refused. What a table holds after any number of insertions and deletions can be read off
their history: the rows that were inserted, or there before, and not deleted since.

## Main definitions

* `Table` — rows with different keys.
* `Table.find`, `Table.insert`, `Table.delete` — the operations.
* `Ran` — a table is changed by a history of operations.
* `Stands` — a row was inserted and not deleted.
-/

namespace PrimaryKey

variable {ρ κ : Type*} [DecidableEq κ] {key : ρ → κ}

structure Table (key : ρ → κ) where
  rows : List ρ
  nodup : (rows.map key).Nodup

namespace Table

variable {t : Table key} {k : κ} {r : ρ}

def find (t : Table key) (k : κ) : Option ρ := t.rows.find? fun r => key r = k

/-- Whether the row has been inserted, and the table. -/
def insert (t : Table key) (r : ρ) : Bool × Table key :=
  if h : key r ∈ t.rows.map key then (false, t)
  else (true, ⟨t.rows ++ [r], by
    rw [List.map_append, List.map_singleton, ← List.concat_eq_append]
    exact t.nodup.concat h⟩)

def delete (t : Table key) (k : κ) : Table key :=
  ⟨t.rows.filter fun r => key r ≠ k, t.nodup.sublist (List.filter_sublist.map _)⟩

/-- Change the rows with the key to others with this key. -/
def update (t : Table key) (k : κ) (f : ρ → ρ) (hf : ∀ r, key (f r) = key r) : Table key :=
  ⟨t.rows.map fun r => if key r = k then f r else r, by
    have hkeys : (t.rows.map fun r => if key r = k then f r else r).map key = t.rows.map key := by
      rw [List.map_map]
      refine List.map_congr_left fun r _ => ?_
      simp only [Function.comp]
      split_ifs
      · exact hf r
      · rfl
    rw [hkeys]
    exact t.nodup⟩

omit [DecidableEq κ] in
theorem nodup_rows (t : Table key) : t.rows.Nodup := .of_map key t.nodup

theorem find_eq_some_iff : t.find k = some r ↔ r ∈ t.rows ∧ key r = k := by
  constructor
  · intro h
    exact ⟨List.mem_of_find?_eq_some h, by simpa using List.find?_some h⟩
  · rintro ⟨hmem, rfl⟩
    cases hfind : t.find (key r) with
    | none => simpa using List.find?_eq_none.mp hfind r hmem
    | some x =>
      have hx : key x = key r := by simpa using List.find?_some hfind
      rw [List.inj_on_of_nodup_map t.nodup (List.mem_of_find?_eq_some hfind) hmem hx]

theorem find_isSome_iff : (t.find k).isSome ↔ ∃ r ∈ t.rows, key r = k := by
  simp [find]

/-- At most one row has a key. -/
theorem filter_key : t.rows.filter (fun r => key r = k) = (t.find k).toList := by
  cases hfind : t.find k with
  | none =>
    rw [Option.toList_none, List.filter_eq_nil_iff]
    exact List.find?_eq_none.mp hfind
  | some x =>
    obtain ⟨hmem, hkey⟩ := find_eq_some_iff.mp hfind
    have hall : ∀ r ∈ t.rows.filter (fun r => key r = k), r = x := by
      intro r hr
      obtain ⟨hr, hrkey⟩ := List.mem_filter.mp hr
      exact List.inj_on_of_nodup_map t.nodup hr hmem ((of_decide_eq_true hrkey).trans hkey.symm)
    have hx : x ∈ t.rows.filter (fun r => key r = k) :=
      List.mem_filter.mpr ⟨hmem, decide_eq_true hkey⟩
    have hnodup : (t.rows.filter fun r => key r = k).Nodup := t.nodup_rows.filter _
    exact List.perm_singleton.mp ((List.perm_ext_iff_of_nodup hnodup (List.nodup_singleton x)).mpr
      fun r => ⟨fun hr => List.mem_singleton.mpr (hall r hr),
        fun hr => List.mem_singleton.mp hr ▸ hx⟩)

theorem insert_fst : (t.insert r).1 = true ↔ t.find (key r) = none := by
  unfold insert
  split_ifs with h
  · obtain ⟨x, hx, hkey⟩ := List.mem_map.mp h
    have hsome : (t.find (key r)).isSome := find_isSome_iff.mpr ⟨x, hx, hkey⟩
    simp [Option.isSome_iff_ne_none.mp hsome]
  · have hnone : t.find (key r) = none := by
      rw [Option.eq_none_iff_forall_ne_some]
      intro x hx
      obtain ⟨hmem, hkey⟩ := find_eq_some_iff.mp hx
      exact h (hkey ▸ List.mem_map_of_mem hmem)
    simp [hnone]

theorem mem_insert {x : ρ} : x ∈ (t.insert r).2.rows ↔ x ∈ t.rows ∨ (t.insert r).1 ∧ x = r := by
  unfold insert
  split_ifs
  · simp
  · simp

theorem find_insert (h : (t.insert r).1 = true) : (t.insert r).2.find (key r) = some r :=
  find_eq_some_iff.mpr ⟨mem_insert.mpr (.inr ⟨h, rfl⟩), rfl⟩

theorem mem_delete {x : ρ} : x ∈ (t.delete k).rows ↔ x ∈ t.rows ∧ key x ≠ k := by
  simp [delete]

end Table

/-! ## Histories -/

inductive Change (ρ κ : Type*) where
  | insert (r : ρ)
  | delete (k : κ)

def Table.change (t : Table key) : Change ρ κ → Bool × Table key
  | .insert r => t.insert r
  | .delete k => (true, t.delete k)

/-- The changes with their results, the last one at the end. -/
inductive Ran (t : Table key) : List (Change ρ κ × Bool) → Table key → Prop
  | nil : Ran t [] t
  | snoc {h : List (Change ρ κ × Bool)} {t' : Table key} (hran : Ran t h t') (c : Change ρ κ) :
      Ran t (h ++ [(c, (t'.change c).1)]) (t'.change c).2

/-- The row was there at the start or inserted later, and its key has not been deleted since. -/
def Stands (key : ρ → κ) (rows : List ρ) (h : List (Change ρ κ × Bool)) (r : ρ) : Prop :=
  (r ∈ rows ∧ ∀ c ∈ h, c.1 ≠ .delete (key r)) ∨
    ∃ before after, h = before ++ (.insert r, true) :: after ∧ ∀ c ∈ after, c.1 ≠ .delete (key r)

section Histories

variable {rows : List ρ} {h : List (Change ρ κ × Bool)} {r : ρ}

omit [DecidableEq κ] in
theorem stands_nil : Stands key rows [] r ↔ r ∈ rows := by
  simp [Stands]

omit [DecidableEq κ] in
/-- What one more change does to what stands. -/
theorem stands_snoc {c : Change ρ κ} {ok : Bool} : Stands key rows (h ++ [(c, ok)]) r ↔
    Stands key rows h r ∧ c ≠ .delete (key r) ∨ c = .insert r ∧ ok = true := by
  constructor
  · rintro (⟨hmem, hkept⟩ | ⟨before, after, heq, hkept⟩)
    · exact .inl ⟨.inl ⟨hmem, fun c hc => hkept c (List.mem_append_left _ hc)⟩,
        hkept (c, ok) (by simp)⟩
    · rcases List.eq_nil_or_concat after with rfl | ⟨after, last, rfl⟩
      · obtain ⟨-, hlast⟩ := List.append_inj' heq rfl
        obtain ⟨rfl, rfl⟩ := Prod.mk.inj (List.singleton_inj.mp hlast)
        exact .inr ⟨rfl, rfl⟩
      · rw [List.concat_eq_append] at heq hkept
        rw [← List.cons_append, ← List.append_assoc] at heq
        obtain ⟨rfl, hlast⟩ := List.append_inj' heq rfl
        obtain rfl := List.singleton_inj.mp hlast
        exact .inl ⟨.inr ⟨before, after, rfl, fun c hc => hkept c (List.mem_append_left _ hc)⟩,
          hkept (c, ok) (by simp)⟩
  · rintro (⟨⟨hmem, hkept⟩ | ⟨before, after, rfl, hkept⟩, hne⟩ | ⟨rfl, rfl⟩)
    · refine .inl ⟨hmem, fun c' hc' => ?_⟩
      rcases List.mem_append.mp hc' with hc' | hc'
      · exact hkept c' hc'
      · exact List.mem_singleton.mp hc' ▸ hne
    · refine .inr ⟨before, after ++ [(c, ok)], by simp, fun c' hc' => ?_⟩
      rcases List.mem_append.mp hc' with hc' | hc'
      · exact hkept c' hc'
      · exact List.mem_singleton.mp hc' ▸ hne
    · exact .inr ⟨h, [], rfl, by simp⟩

/-- A table holds what stands. -/
theorem Ran.mem_iff {t t' : Table key} (hran : Ran t h t') :
    r ∈ t'.rows ↔ Stands key t.rows h r := by
  induction hran with
  | nil => exact stands_nil.symm
  | snoc hran c ih =>
    rw [stands_snoc, ← ih]
    cases c with
    | insert x =>
      simp only [Table.change, Table.mem_insert]
      constructor
      · rintro (hmem | ⟨hok, rfl⟩)
        · exact .inl ⟨hmem, nofun⟩
        · exact .inr ⟨rfl, hok⟩
      · rintro (⟨hmem, -⟩ | ⟨heq, hok⟩)
        · exact .inl hmem
        · exact .inr ⟨hok, (Change.insert.inj heq).symm⟩
    | delete k =>
      simp only [Table.change, Table.mem_delete]
      constructor
      · rintro ⟨hmem, hne⟩
        exact .inl ⟨hmem, fun heq => hne (Change.delete.inj heq).symm⟩
      · rintro (⟨hmem, hne⟩ | ⟨heq, -⟩)
        · exact ⟨hmem, fun heq => hne (heq ▸ rfl)⟩
        · cases heq

end Histories

end PrimaryKey
