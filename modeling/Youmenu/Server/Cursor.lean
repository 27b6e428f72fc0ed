import Youmenu.Server.Provider

/-!
# The cursor protocol of the `db_*.c` files

A query takes the lock of the provider, its rows are fetched and released one after the
other, and the reset gives the lock back. All functions follow the protocol but one:
`db_book_get` releases each of its rows twice.

## Main definitions

* `Blocks` — the calls of a function that follows the protocol.
* `Held`, `Held.call` — the lock and the rows, as the calls leave them.
* `DbFunction` — the functions with their arguments.

## Main statements

* `Blocks.held` — such calls never ask for a lock that is held, and leave nothing behind.
* `dbFunction_blocks` — which functions follow the protocol, and when.
-/

namespace Youmenu.Server.Dbp

open Eventpack Program

/-! ## The protocol -/

/-- A row that is fetched and released. -/
def rowCalls (row : ℕ) : List DbpCall := [.fetched row, .freed row]

inductive Block : List DbpCall → Prop
  | exec : Block [.exec]
  | query (rows : List ℕ) (last : List DbpCall) (hlast : last = [] ∨ last = [.fetchFailed]) :
      Block (.query :: (rows.flatMap rowCalls ++ last ++ [.reset]))

/-- No row was wanted. -/
theorem Block.empty : Block [.query, .reset] := .query [] [] (.inl rfl)

theorem Block.single (row : ℕ) : Block (.query :: (rowCalls row ++ [.reset])) := by
  simpa using Block.query [row] [] (.inl rfl)

inductive Blocks : List DbpCall → Prop
  | nil : Blocks []
  | cons {b bs : List DbpCall} (hb : Block b) (hbs : Blocks bs) : Blocks (b ++ bs)

/-- The lock, and the rows that have not been released. -/
structure Held where
  lock : Bool
  rows : List ℕ
deriving DecidableEq

/-- `none` is a call that hangs, that needs a lock that is not held, or that releases a row
which is not there. -/
def Held.call (h : Held) : DbpCall → Option Held
  | .exec => if h.lock then none else some h
  | .query => if h.lock then none else some { h with lock := true }
  | .fetched row => if h.lock then some { h with rows := row :: h.rows } else none
  | .fetchFailed => if h.lock then some h else none
  | .freed row =>
    if h.lock ∧ row ∈ h.rows then some { h with rows := h.rows.erase row } else none
  | .reset => if h.lock then some { h with lock := false } else none

def Held.calls (h : Held) (calls : List DbpCall) : Option Held := calls.foldlM Held.call h

/-- What holds before a function is called. -/
def free : Held := ⟨false, []⟩

theorem Held.calls_append (h : Held) (cs cs' : List DbpCall) :
    h.calls (cs ++ cs') = (h.calls cs).bind fun h => h.calls cs' := by
  simp [Held.calls, List.foldlM_append]

theorem Held.rowCalls (rows : List ℕ) :
    (⟨true, []⟩ : Held).calls (rows.flatMap rowCalls) = some ⟨true, []⟩ := by
  induction rows with
  | nil => rfl
  | cons row rows ih =>
    have hrow : (⟨true, []⟩ : Held).calls (Dbp.rowCalls row) = some ⟨true, []⟩ := by
      simp [Held.calls, Dbp.rowCalls, Held.call]
    rw [List.flatMap_cons, Held.calls_append, hrow, Option.bind_some, ih]

theorem Block.held {b : List DbpCall} (hb : Block b) : free.calls b = some free := by
  cases hb with
  | exec => rfl
  | query rows last hlast =>
    have hlock : free.calls [.query] = some ⟨true, []⟩ := rfl
    have hend : (⟨true, []⟩ : Held).calls (last ++ [.reset]) = some free := by
      rcases hlast with rfl | rfl <;> rfl
    rw [← List.singleton_append, List.append_assoc, Held.calls_append, hlock, Option.bind_some,
      Held.calls_append, Held.rowCalls, Option.bind_some, hend]

/-- Every row is released once, the lock is never asked for while it is held, and at the end
it is free. -/
theorem Blocks.held {calls : List DbpCall} (h : Blocks calls) : free.calls calls = some free := by
  induction h with
  | nil => rfl
  | cons hb _ ih => rw [Held.calls_append, hb.held, Option.bind_some, ih]

theorem Block.blocks {b : List DbpCall} (hb : Block b) : Blocks b := by
  simpa using Blocks.cons hb .nil

/-! ## What the parts of the functions call -/

section Parts

variable {δ : Type} {D : Database δ} {past : ℕ → ℕ → DbpRow}

/-- Operations that the provider does not see. -/
def Silent : DbpOp → Prop
  | .numFields | .column _ _ | .store _ _ | .element _ _ => True
  | _ => False

/-- What silent operations leave alone. -/
structure Provider.Same (s s' : Provider δ) : Prop where
  db : s'.db = s.db
  fields : s'.fields = s.fields
  cursor : s'.cursor = s.cursor
  live : s'.live = s.live
  fresh : s'.fresh = s.fresh
  calls : s'.calls = s.calls

theorem Provider.Same.refl (s : Provider δ) : s.Same s := ⟨rfl, rfl, rfl, rfl, rfl, rfl⟩

theorem Provider.Same.trans {s s' s'' : Provider δ} (h : s.Same s') (h' : s'.Same s'') :
    s.Same s'' :=
  ⟨h'.db.trans h.db, h'.fields.trans h.fields, h'.cursor.trans h.cursor, h'.live.trans h.live,
    h'.fresh.trans h.fresh, h'.calls.trans h.calls⟩

theorem Silent.handle {op : DbpOp} (hop : Silent op) (s : Provider δ) :
    ∃ r s', Provider.handle D past op s = some (r, s') ∧ s.Same s' := by
  cases op with
  | numFields => exact ⟨_, _, rfl, .refl s⟩
  | column row i =>
    unfold Provider.handle
    dsimp only
    split
    · exact ⟨_, _, rfl, .refl s⟩
    · exact ⟨_, _, rfl, rfl, rfl, rfl, rfl, rfl, rfl⟩
  | store size value => exact ⟨_, _, rfl, rfl, rfl, rfl, rfl, rfl, rfl⟩
  | element count i => exact ⟨_, _, rfl, rfl, rfl, rfl, rfl, rfl, rfl⟩
  | exec | query | fetchRow | fetchRowFree | queryReset => cases hop

theorem silent_wp {α : Type} {p : Calls α} (hp : p.Only Silent) (s : Provider δ) :
    p.wp (Provider.handle D past) (fun _ s' => s.Same s') s := by
  refine hp.wp (fun op hop s' hs' => ?_) (.refl s)
  obtain ⟨r, s'', hhandle, hsame⟩ := Silent.handle hop s'
  exact ⟨r, s'', hhandle, hs'.trans hsame⟩

theorem silent_copyColumn (row i size : ℕ) : (copyColumn row i size).Only Silent :=
  ⟨trivial, fun _ => ⟨trivial, fun _ => trivial⟩⟩

theorem silent_intColumn (row i : ℕ) : (intColumn row i).Only Silent :=
  ⟨trivial, fun _ => trivial⟩

/-- One operation, and then the rest. -/
theorem wp_op {β : Type} {op : DbpOp} {f : op.Result → Calls β} {Q : β → Provider δ → Prop}
    {s s' : Provider δ} {r : op.Result} (hop : Provider.handle D past op s = some (r, s'))
    (h : (f r).wp (Provider.handle D past) Q s') :
    (perform op >>= f).wp (Provider.handle D past) Q s :=
  (wp_call hop).mpr h

/-- The body of a loop reads a row and makes the calls `freed`. -/
def RowBody (D : Database δ) (past : ℕ → ℕ → DbpRow) (freed : ℕ → List DbpCall) {β : Type}
    (body : ℕ → ℕ → Calls β) : Prop :=
  ∀ i row s, (body i row).wp (Provider.handle D past)
    (fun _ s' => s'.calls = s.calls ++ freed row ∧ s'.cursor = s.cursor) s

theorem fillElement_body {β : Type} {read : ℕ → Calls β} (hread : ∀ row, (read row).Only Silent)
    (count : ℤ) : RowBody D past (fun row => [.freed row]) (fillElement count read) := by
  intro i row s
  refine wp_op rfl (wp_bind.mpr ?_)
  refine (silent_wp (hread row) _).mono fun b s' hs' => ?_
  refine wp_op rfl ⟨?_, hs'.cursor⟩
  rw [Provider.calls_freed, hs'.calls]

/-- The loop fetches every row that is left, and stops at the first one that is not there. -/
theorem fetchRows_wp {β : Type} {freed : ℕ → List DbpCall} {body : ℕ → ℕ → Calls β}
    (hbody : RowBody D past freed body) {fuel : ℕ} (i : ℕ) {s : Provider δ}
    (hfuel : s.cursor.length < fuel) :
    (fetchRows body fuel i).wp (Provider.handle D past) (fun r s' => r.isSome ∧
      ∃ rows : List ℕ, rows.length = s.cursor.length ∧ s'.calls = s.calls ++
        (rows.flatMap (fun row => .fetched row :: freed row) ++ [.fetchFailed])) s := by
  induction fuel generalizing i s with
  | zero => cases hfuel
  | succ fuel ih =>
    rw [fetchRows]
    cases hcursor : s.cursor with
    | nil =>
      refine wp_op (by rw [Provider.handle, hcursor]) ?_
      exact ⟨rfl, [], rfl, rfl⟩
    | cons row rows =>
      refine wp_op (by rw [Provider.handle, hcursor]) (wp_bind.mpr ?_)
      refine (hbody i s.fresh _).mono fun b s₁ hs₁ => wp_bind.mpr ?_
      obtain ⟨hcalls₁, hcursor₁⟩ := hs₁
      rw [Provider.calls_fetched] at hcalls₁
      rw [Provider.cursor_fetched] at hcursor₁
      have hrest : s₁.cursor.length < fuel := by
        rw [hcursor₁]
        rw [hcursor, List.length_cons] at hfuel
        omega
      refine (ih (i + 1) hrest).mono ?_
      rintro r s₂ ⟨hsome, fetched, hlength, hcalls⟩
      refine ⟨by simpa using hsome, s.fresh :: fetched, ?_, ?_⟩
      · rw [List.length_cons, hlength, hcursor₁, List.length_cons]
      · rw [hcalls, hcalls₁]
        simp

theorem handle_query {st : Statement} {s : Provider δ} {a : Answer} {db : δ}
    (hquery : D.query st s.db = (a, db)) :
    Provider.handle D past (.query st) s = some (a.ret, s.queried a db) := by
  rw [Provider.handle, hquery]

/-- A query is reset on every way out. -/
theorem withRows_wp {β : Type} {st : Statement} {n : ℕ} {failed : β} {found : Calls β}
    {Q : β → Provider δ → Prop} {s : Provider δ} {a : Answer} {db : δ}
    (hquery : D.query st s.db = (a, db))
    (hfailed : a.rows = [] ∨ a.fields ≠ n → Q failed ((s.queried a db).log .reset))
    (hfound : a.rows ≠ [] → a.fields = n → found.wp (Provider.handle D past)
      (fun b s' => Q b (s'.log .reset)) (s.queried a db)) :
    (withRows st n failed found).wp (Provider.handle D past) Q s := by
  refine wp_op (handle_query hquery) ?_
  by_cases hrows : a.rows = []
  · have hret : a.ret ≠ .row := by
      rw [Answer.ret, if_neg (not_not.mpr hrows)]
      cases a.error <;> decide
    rw [if_pos hret]
    exact wp_op rfl (hfailed (.inl hrows))
  · have hret : ¬ a.ret ≠ .row := by rw [Answer.ret, if_pos hrows, not_not]
    rw [if_neg hret]
    refine wp_op rfl ?_
    have hfields : (s.queried a db).fields = a.fields := if_neg hrows
    rw [hfields]
    split_ifs with hn
    · exact wp_op rfl (hfailed (.inr hn))
    · refine wp_bind.mpr ((hfound hrows (not_not.mp hn)).mono fun b s' hQ => ?_)
      exact wp_op rfl hQ

theorem existsRow_wp {st : Statement} {Q : Bool → Provider δ → Prop} {s : Provider δ} {a : Answer}
    {db : δ} (hquery : D.query st s.db = (a, db))
    (h : Q (decide (a.ret = .row)) ((s.queried a db).log .reset)) :
    (existsRow st).wp (Provider.handle D past) Q s := by
  refine wp_op (handle_query hquery) ?_
  exact wp_op rfl h

/-- A row that is there is fetched, read and released. -/
theorem readRow_wp {β : Type} {absent : β} {read : ℕ → Calls β} {Q : β → Provider δ → Prop}
    {s : Provider δ} {row : List CString} {rows : List (List CString)}
    (hcursor : s.cursor = row :: rows)
    (h : (read s.fresh).wp (Provider.handle D past) (fun b s' => Q b (s'.freed s.fresh))
      (s.fetched row rows)) :
    (readRow absent read).wp (Provider.handle D past) Q s := by
  refine wp_op (by rw [Provider.handle, hcursor]) (wp_bind.mpr (h.mono fun b s' hQ => ?_))
  exact wp_op rfl hQ

/-! ### Counting and selecting -/

/-- The number that the first half of a list function finds. -/
def Answer.count (a : Answer) : Option ℤ :=
  match a.rows with
  | [] => none
  | row :: _ =>
    if a.fields = 1 then
      let count := atoiText (row.getD 0 (lit ""))
      if count = 0 then none else some count
    else none

theorem intColumn_wp {Q : ℤ → Provider δ → Prop} {s : Provider δ} {row i : ℕ} {data : CString}
    (hread : s.readable row i = some data) (h : Q (atoiText data) s) :
    (intColumn row i).wp (Provider.handle D past) Q s := by
  have hcolumn : Provider.handle D past (.column row i) s =
      some (⟨data, data.bytes.length⟩, s) := by rw [Provider.handle, hread]
  exact wp_op hcolumn h

theorem readable_fetched {s : Provider δ} {row : List CString} {rows : List (List CString)} {i : ℕ}
    (hi : i < s.fields) : (s.fetched row rows).readable s.fresh i = some (row.getD i (lit "")) := by
  have hlookup : (s.fetched row rows).live.lookup s.fresh = some row := by
    simp [Provider.fetched]
  have hfields : (s.fetched row rows).fields = s.fields := rfl
  rw [Provider.readable, hlookup, hfields]
  exact if_pos hi

theorem countRows_wp {st : Statement} (uninitialised : ℤ) {s : Provider δ} {a : Answer} {db : δ}
    (hquery : D.query st s.db = (a, db)) :
    (countRows st uninitialised).wp (Provider.handle D past) (fun r s' =>
      r = a.count ∧ s'.db = db ∧ (s'.stray = s.stray ∧ s'.overflow = s.overflow) ∧
        ∃ new, s'.calls = s.calls ++ new ∧ Block new) s := by
  refine wp_bind.mpr (withRows_wp hquery (fun hfailed => ?_) fun hrows hone => ?_)
  · have hcount : a.count = none := by
      unfold Answer.count
      split
      · rfl
      · next hcons => rw [if_neg (hfailed.resolve_left (by simp [hcons]))]
    refine ⟨by rw [hcount, if_pos rfl], rfl, ⟨rfl, rfl⟩, [.query, .reset], by simp, ?_⟩
    exact .empty
  · obtain ⟨row, rows, hcons⟩ := List.exists_cons_of_ne_nil hrows
    have hfields : (s.queried a db).fields = 1 := (if_neg hrows).trans hone
    refine readRow_wp hcons (intColumn_wp (readable_fetched (by rw [hfields]; decide)) ?_)
    refine ⟨?_, rfl, ⟨rfl, rfl⟩, .query :: (rowCalls s.fresh ++ [.reset]), ?_, ?_⟩
    · rw [Answer.count, hcons]
      exact (if_pos hone).symm
    · simp [rowCalls]
    · exact .single s.fresh

/-- The calls of the second half, where each row is followed by `freed`. -/
def Selected (freed : ℕ → List DbpCall) (a : Answer) (n : ℕ) (new : List DbpCall) : Prop :=
  if a.rows = [] ∨ a.fields ≠ n then new = [.query, .reset]
  else ∃ rows : List ℕ, rows ≠ [] ∧
    new = .query :: (rows.flatMap (fun row => .fetched row :: freed row) ++ [.fetchFailed] ++
      [.reset])

theorem selectRows_wp {β : Type} {freed : ℕ → List DbpCall} {body : ℕ → ℕ → Calls β}
    (hbody : RowBody D past freed body) {st : Statement} {n : ℕ} (count : ℤ) {s : Provider δ}
    {a : Answer} {db : δ} (hquery : D.query st s.db = (a, db)) {fuel : ℕ}
    (hfuel : a.rows.length < fuel) :
    (selectRows st n count body fuel).wp (Provider.handle D past) (fun r s' => r.isSome ∧
      ∃ new, s'.calls = s.calls ++ new ∧ Selected freed a n new) s := by
  refine withRows_wp hquery (fun hfailed => ?_) fun hrows hn => ?_
  · exact ⟨rfl, [.query, .reset], by simp, by rw [Selected, if_pos hfailed]⟩
  · refine wp_bind.mpr ((fetchRows_wp hbody 0 hfuel).mono ?_)
    rintro r s' ⟨hsome, rows, hlength, hcalls⟩
    have hne : rows ≠ [] := by
      rintro rfl
      exact hrows (List.length_eq_zero_iff.mp hlength.symm)
    refine ⟨by simpa using hsome, .query :: (rows.flatMap (fun row => .fetched row :: freed row) ++
      [.fetchFailed] ++ [.reset]), by simp [hcalls], ?_⟩
    rw [Selected, if_neg (by simp [hrows, hn])]
    exact ⟨rows, hne, rfl⟩

/-- A list function: the first half, and the second if rows were counted. -/
theorem getRows_wp {β : Type} {freed : ℕ → List DbpCall} {body : ℤ → ℕ → ℕ → Calls β}
    (hbody : ∀ count, RowBody D past freed (body count)) {counting st : Statement}
    (uninitialised : ℤ) {n : ℕ} {s : Provider δ} {a a' : Answer} {db db' : δ}
    (hcount : D.query counting s.db = (a, db)) (hquery : D.query st db = (a', db')) {fuel : ℕ}
    (hfuel : a'.rows.length < fuel) :
    (getRows counting uninitialised st n body fuel).wp (Provider.handle D past) (fun r s' =>
      r.isSome ∧ ∃ first new, s'.calls = s.calls ++ (first ++ new) ∧ Block first ∧
        if a.count = none then new = [] else Selected freed a' n new) s := by
  refine wp_bind.mpr ((countRows_wp uninitialised hcount).mono ?_)
  rintro r s₁ ⟨rfl, rfl, -, first, hcalls₁, hfirst⟩
  cases hnone : a.count with
  | none => exact ⟨rfl, first, [], by simpa using hcalls₁, hfirst, by simp⟩
  | some count =>
    refine (selectRows_wp (hbody count) count hquery hfuel).mono ?_
    rintro r s₂ ⟨hsome, new, hcalls₂, hselected⟩
    refine ⟨hsome, first, new, ?_, hfirst, by rwa [if_neg (by simp)]⟩
    rw [hcalls₂, hcalls₁, List.append_assoc]

theorem Selected.block {a : Answer} {n : ℕ} {new : List DbpCall}
    (h : Selected (fun row => [.freed row]) a n new) : Block new := by
  unfold Selected at h
  split_ifs at h
  · rw [h]
    exact .empty
  · obtain ⟨rows, -, rfl⟩ := h
    exact .query rows [.fetchFailed] (.inr rfl)

theorem existsRow_block {st : Statement} (s : Provider δ) :
    (existsRow st).wp (Provider.handle D past) (fun _ s' => ∃ new, s'.calls = s.calls ++ new ∧
      Block new) s :=
  existsRow_wp rfl ⟨[.query, .reset], by simp, .empty⟩

theorem getOne_block {β : Type} {read : ℕ → Calls β} (hread : ∀ row, (read row).Only Silent)
    {st : Statement} {n : ℕ} (out : Bool) (s : Provider δ) :
    (getOne st n read out).wp (Provider.handle D past) (fun _ s' => ∃ new,
      s'.calls = s.calls ++ new ∧ Block new) s := by
  cases out with
  | false => exact wp_bind.mpr (existsRow_block s)
  | true =>
    obtain ⟨a, db, hquery⟩ : ∃ a db, D.query st s.db = (a, db) := ⟨_, _, rfl⟩
    refine withRows_wp hquery (fun _ => ?_) fun hrows _ => ?_
    · exact ⟨[.query, .reset], by simp, .empty⟩
    · obtain ⟨row, rows, hcons⟩ := List.exists_cons_of_ne_nil hrows
      refine readRow_wp hcons (wp_bind.mpr ((silent_wp (hread _) _).mono fun b s' hs' => ?_))
      refine ⟨.query :: (rowCalls s.fresh ++ [.reset]), ?_, ?_⟩
      · simp [hs'.calls, rowCalls]
      · exact .single s.fresh

end Parts

/-! ## The functions -/

/-- The functions of `db_account.c`, `db_dish.c`, `db_seat.c` and `db_book.c` that call the
provider, with their arguments. -/
inductive DbFunction where
  | accountInit
  | accountReset
  | accountAdd (account : Account)
  | accountGetOne (uid : CString) (out : Bool)
  | accountGet
  | accountPwdCheck (uid pwd : CString)
  | accountUpdatePwd (uid newPwd : CString)
  | accountUpdateNick (uid nick : CString)
  | accountUpdateComment (uid comment : CString)
  | accountDel (uid : CString)
  | dishInit
  | dishReset
  | dishAdd (dish : DishRow)
  | dishDel (id : ℤ)
  | dishGetByCategory (category : ℤ) (out : Bool)
  | dishGetOne (id : ℤ) (out : Bool)
  | seatInit
  | seatReset
  | seatAdd (seat : Seat)
  | seatDel (id : ℤ)
  | seatGet
  | seatGetOne (id : ℤ) (old : List UInt8) (out : Bool)
  | bookInit
  | bookReset
  | bookAdd (book : Book)
  | bookDel (bookId : ℤ)
  | bookGetOne (bookId : ℤ) (out : Bool)
  | bookGet (seatId : ℤ)
  | bookModifyBook (seatId dishId number : ℤ)
  | bookModifyAccept (seatId dishId number : ℤ)

/-- The result of a function does not matter here, only that there is one. -/
def returned {β : Type} (p : Calls β) : Calls (Option Unit) := do
  let _ ← p
  return some ()

def looped {β : Type} (p : Calls (Option β)) : Calls (Option Unit) := do
  let r ← p
  return r.map fun _ => ()

namespace DbFunction

section Run

variable (build : Build) (conv : Atof) (uninitialised : ℤ) (fuel : ℕ)

def run : DbFunction → Calls (Option Unit)
  | accountInit => returned dbAccountInit
  | accountReset => returned dbAccountReset
  | accountAdd account => returned (dbAccountAdd build account)
  | accountGetOne uid out => returned (dbAccountGetOne uid out)
  | accountGet => looped (dbAccountGet uninitialised fuel)
  | accountPwdCheck uid pwd => returned (dbAccountPwdCheck build uid pwd)
  | accountUpdatePwd uid newPwd => returned (dbAccountUpdatePwd build uid newPwd)
  | accountUpdateNick uid nick => returned (dbAccountUpdateNick uid nick)
  | accountUpdateComment uid comment => returned (dbAccountUpdateComment uid comment)
  | accountDel uid => returned (dbAccountDel uid)
  | dishInit => returned dbDishInit
  | dishReset => returned dbDishReset
  | dishAdd dish => returned (dbDishAdd dish)
  | dishDel id => returned (dbDishDel id)
  | dishGetByCategory category out => looped (dbDishGetByCategory category uninitialised out fuel)
  | dishGetOne id out => returned (dbDishGetOne id out)
  | seatInit => returned dbSeatInit
  | seatReset => returned dbSeatReset
  | seatAdd seat => returned (dbSeatAdd seat)
  | seatDel id => returned (dbSeatDel id)
  | seatGet => looped (dbSeatGet uninitialised fuel)
  | seatGetOne id old out => returned (dbSeatGetOne id old out)
  | bookInit => returned dbBookInit
  | bookReset => returned dbBookReset
  | bookAdd book => returned (dbBookAdd book)
  | bookDel bookId => returned (dbBookDel bookId)
  | bookGetOne bookId out => looped (dbBookGetOne conv bookId out fuel)
  | bookGet seatId => looped (dbBookGet conv seatId uninitialised fuel)
  | bookModifyBook seatId dishId number => returned (dbBookModifyBook seatId dishId number)
  | bookModifyAccept seatId dishId number => returned (dbBookModifyAccept seatId dishId number)

end Run

end DbFunction

section Protocol

variable {δ : Type} (D : Database δ) (past : ℕ → ℕ → DbpRow) (s : Provider δ)

/-- The function returns as soon as it may go round its loop often enough, and its calls
follow the protocol. -/
def FollowsProtocol (p : ℕ → Calls (Option Unit)) : Prop :=
  ∃ enough, ∀ fuel, enough ≤ fuel → (p fuel).wp (Provider.handle D past) (fun r s' => r.isSome ∧
    ∃ new, s'.calls = s.calls ++ new ∧ Blocks new ∧ free.calls new = some free) s

/-- The second query of `db_book_get` is not made, fails, finds nothing or has the wrong number
of columns. -/
def DbFunction.FetchesNoBooking (db : δ) : DbFunction → Prop
  | .bookGet seatId =>
    let first := D.query (.bookCount seatId) db
    let second := D.query (.bookSelect seatId) first.2
    first.1.count = none ∨ second.1.rows = [] ∨ second.1.fields ≠ 6
  | _ => True

end Protocol

section Functions

variable {δ : Type} {D : Database δ} {past : ℕ → ℕ → DbpRow} {s : Provider δ}

theorem followsProtocol_returned {β : Type} {p : Calls β}
    (h : p.wp (Provider.handle D past) (fun _ s' => ∃ new, s'.calls = s.calls ++ new ∧ Block new)
      s) : FollowsProtocol D past s fun _ => returned p := by
  refine ⟨0, fun fuel _ => wp_bind.mpr (h.mono ?_)⟩
  rintro b s' ⟨new, hcalls, hnew⟩
  exact ⟨rfl, new, hcalls, hnew.blocks, hnew.held⟩

theorem exec_block (st : Statement) (s : Provider δ) :
    (dbpExec st).wp (Provider.handle D past) (fun _ s' => ∃ new, s'.calls = s.calls ++ new ∧
      Block new) s :=
  wp_op rfl ⟨[.exec], rfl, .exec⟩

/-- The hash is computed first. -/
theorem encryptPwd_block {β : Type} {build : Build} {pwd : CString} {p : Calls β}
    (h : ∀ s : Provider δ, p.wp (Provider.handle D past) (fun _ s' => ∃ new,
      s'.calls = s.calls ++ new ∧ Block new) s) :
    (encryptPwd build pwd >>= fun _ => p).wp (Provider.handle D past) (fun _ s' => ∃ new,
      s'.calls = s.calls ++ new ∧ Block new) s := by
  have hrest := h { s with overflow := s.overflow || 41 ≤ (dbEncryptPwd build pwd).bytes.length }
  exact wp_op rfl hrest

/-- A list function whose rows are released once. -/
theorem followsProtocol_getRows {β : Type} {counting st : Statement} {n : ℕ}
    {read : ℕ → Calls β} (hread : ∀ row, (read row).Only Silent) (uninitialised : ℤ) :
    FollowsProtocol D past s fun fuel =>
      looped (getRows counting uninitialised st n (fillElement · read) fuel) := by
  obtain ⟨a, db, hcount⟩ : ∃ a db, D.query counting s.db = (a, db) := ⟨_, _, rfl⟩
  obtain ⟨a', db', hquery⟩ : ∃ a' db', D.query st db = (a', db') := ⟨_, _, rfl⟩
  refine ⟨a'.rows.length + 1, fun fuel hfuel => wp_bind.mpr ?_⟩
  refine (getRows_wp (fillElement_body hread) uninitialised hcount hquery hfuel).mono ?_
  rintro r s' ⟨hsome, first, new, hcalls, hfirst, hnew⟩
  have hblocks : Blocks (first ++ new) := by
    refine .cons hfirst ?_
    split_ifs at hnew
    · exact hnew ▸ .nil
    · exact hnew.block.blocks
  exact ⟨by simpa using hsome, first ++ new, hcalls, hblocks, hblocks.held⟩

theorem silent_readAccount (row : ℕ) : (readAccount row).Only Silent :=
  (silent_copyColumn _ _ _).bind fun _ => (silent_intColumn _ _).bind fun _ =>
    (silent_copyColumn _ _ _).bind fun _ => (silent_copyColumn _ _ _).bind fun _ =>
      (silent_copyColumn _ _ _).bind fun _ => trivial

theorem silent_readDish (row : ℕ) : (readDish row).Only Silent :=
  (silent_intColumn _ _).bind fun _ => (silent_intColumn _ _).bind fun _ =>
    (silent_copyColumn _ _ _).bind fun _ => (silent_copyColumn _ _ _).bind fun _ =>
      (silent_copyColumn _ _ _).bind fun _ => (silent_intColumn _ _).bind fun _ =>
        (silent_intColumn _ _).bind fun _ => trivial

theorem silent_readSeat (row : ℕ) : (readSeat row).Only Silent :=
  (silent_intColumn _ _).bind fun _ => (silent_copyColumn _ _ _).bind fun _ =>
    (silent_copyColumn _ _ _).bind fun _ => trivial

theorem silent_readSeatOne (old : List UInt8) (row : ℕ) : (readSeatOne old row).Only Silent :=
  (silent_intColumn _ _).bind fun _ => ⟨trivial, fun _ => ⟨trivial, fun _ => ⟨trivial, fun _ =>
    (silent_copyColumn _ _ _).bind fun _ => trivial⟩⟩⟩

theorem silent_readBook (conv : Atof) (row : ℕ) : (readBook conv row).Only Silent :=
  (silent_intColumn _ _).bind fun _ => (silent_intColumn _ _).bind fun _ =>
    (silent_intColumn _ _).bind fun _ => ⟨trivial, fun _ =>
      (silent_copyColumn _ _ _).bind fun _ => ⟨trivial, fun _ => trivial⟩⟩

theorem followsProtocol_dishGetByCategory (category uninitialised : ℤ) (out : Bool) :
    FollowsProtocol D past s fun fuel =>
      looped (dbDishGetByCategory category uninitialised out fuel) := by
  cases out with
  | true => exact followsProtocol_getRows silent_readDish uninitialised
  | false =>
    refine ⟨0, fun fuel _ => wp_bind.mpr (wp_bind.mpr ?_)⟩
    refine (countRows_wp uninitialised rfl).mono ?_
    rintro r s₁ ⟨-, -, -, first, hcalls₁, hfirst⟩
    cases r with
    | none => exact ⟨rfl, first, hcalls₁, hfirst.blocks, hfirst.held⟩
    | some count =>
      refine wp_bind.mpr ((existsRow_block s₁).mono ?_)
      rintro found s₂ ⟨second, hcalls₂, hsecond⟩
      have hblocks : Blocks (first ++ second) := .cons hfirst hsecond.blocks
      refine ⟨rfl, first ++ second, ?_, hblocks, hblocks.held⟩
      rw [hcalls₂, hcalls₁, List.append_assoc]

theorem followsProtocol_bookGetOne (conv : Atof) (bookId : ℤ) (out : Bool) :
    FollowsProtocol D past s fun fuel => looped (dbBookGetOne conv bookId out fuel) := by
  cases out with
  | false =>
    refine ⟨0, fun fuel _ => wp_bind.mpr (wp_bind.mpr ((existsRow_block s).mono ?_))⟩
    rintro found s' ⟨new, hcalls, hnew⟩
    exact ⟨rfl, new, hcalls, hnew.blocks, hnew.held⟩
  | true =>
    obtain ⟨a, db, hquery⟩ : ∃ a db, D.query (.bookGetOne bookId) s.db = (a, db) := ⟨_, _, rfl⟩
    have hbody : RowBody D past (fun row => [.freed row]) fun _ row => do
        let b ← readBook conv row
        dbpFetchRowFree row
        return b := by
      intro i row s
      refine wp_bind.mpr ((silent_wp (silent_readBook conv row) s).mono fun b s' hs' => ?_)
      refine wp_op rfl ⟨?_, hs'.cursor⟩
      rw [Provider.calls_freed, hs'.calls]
    refine ⟨a.rows.length + 1, fun fuel hfuel => wp_bind.mpr (wp_bind.mpr ?_)⟩
    refine (selectRows_wp hbody 1 hquery hfuel).mono ?_
    rintro r s' ⟨hsome, new, hcalls, hnew⟩
    exact ⟨by simpa using hsome, new, hcalls, hnew.block.blocks, hnew.block.held⟩

/-! ### `db_book_get` -/

theorem bookGet_body (conv : Atof) (count : ℤ) :
    RowBody D past (fun row => [.freed row, .freed row]) fun i row => do
      let b ← fillElement count (readBook conv) i row
      dbpFetchRowFree row
      return b := by
  intro i row s
  refine wp_bind.mpr ((fillElement_body (silent_readBook conv) count i row s).mono ?_)
  rintro b s' ⟨hcalls, hcursor⟩
  refine wp_op rfl ⟨?_, hcursor⟩
  rw [Provider.calls_freed, hcalls, List.append_assoc]
  rfl

/-- The second release of a row finds nothing. -/
theorem held_freed_twice (row : ℕ) (rest : List DbpCall) :
    free.calls (.query :: .fetched row :: .freed row :: .freed row :: rest) = none := by
  simp [Held.calls, Held.call, free]

theorem Selected.held_iff {a : Answer} {n : ℕ} {new : List DbpCall}
    (h : Selected (fun row => [.freed row, .freed row]) a n new) :
    free.calls new = some free ↔ a.rows = [] ∨ a.fields ≠ n := by
  unfold Selected at h
  split_ifs at h with hfailed
  · simp only [hfailed, iff_true]
    rw [h]
    exact Block.held .empty
  · obtain ⟨rows, hrows, rfl⟩ := h
    obtain ⟨row, rows, rfl⟩ := List.exists_cons_of_ne_nil hrows
    simp only [hfailed, iff_false]
    rw [List.flatMap_cons]
    simp only [List.cons_append, List.nil_append, held_freed_twice, reduceCtorEq, not_false_eq_true]

theorem followsProtocol_bookGet (conv : Atof) (seatId uninitialised : ℤ) :
    (FollowsProtocol D past s fun fuel => looped (dbBookGet conv seatId uninitialised fuel)) ↔
      (DbFunction.bookGet seatId).FetchesNoBooking D s.db := by
  obtain ⟨a, db, hcount⟩ : ∃ a db, D.query (.bookCount seatId) s.db = (a, db) := ⟨_, _, rfl⟩
  obtain ⟨a', db', hquery⟩ : ∃ a' db', D.query (.bookSelect seatId) db = (a', db') := ⟨_, _, rfl⟩
  have hget : ∀ fuel, a'.rows.length < fuel → (looped (dbBookGet conv seatId uninitialised
      fuel)).wp (Provider.handle D past) (fun r s' => r.isSome ∧ ∃ first new,
        s'.calls = s.calls ++ (first ++ new) ∧ Block first ∧
          if a.count = none then new = []
          else Selected (fun row => [.freed row, .freed row]) a' 6 new) s := by
    intro fuel hfuel
    refine wp_bind.mpr ((getRows_wp (bookGet_body conv) uninitialised hcount hquery hfuel).mono ?_)
    rintro r s' ⟨hsome, hcalls⟩
    exact ⟨by simpa using hsome, hcalls⟩
  have hheld : ∀ first new, Block first → free.calls (first ++ new) = free.calls new :=
    fun first new hfirst => by rw [Held.calls_append, hfirst.held, Option.bind_some]
  simp only [DbFunction.FetchesNoBooking, hcount, hquery]
  constructor
  · rintro ⟨enough, hfollows⟩
    -- any run that goes round its loop often enough
    have hfuel : a'.rows.length < max enough (a'.rows.length + 1) := by omega
    obtain ⟨r, s', ⟨-, new, hnew, -, hfree⟩, -, first, new', hcalls, hfirst, hselected⟩ :=
      (hfollows _ (le_max_left _ _)).and (hget _ hfuel)
    rw [List.append_cancel_left (hnew.symm.trans hcalls), hheld first new' hfirst] at hfree
    by_cases hnone : a.count = none
    · exact .inl hnone
    · rw [if_neg hnone] at hselected
      exact .inr (hselected.held_iff.mp hfree)
  · intro hnone
    refine ⟨a'.rows.length + 1, fun fuel hfuel => (hget fuel hfuel).mono ?_⟩
    rintro r s' ⟨hsome, first, new, hcalls, hfirst, hselected⟩
    have hblocks : Blocks (first ++ new) := by
      refine .cons hfirst ?_
      split_ifs at hselected with hcounted
      · exact hselected ▸ .nil
      · have hfailed := hnone.resolve_left hcounted
        rw [Selected, if_pos hfailed] at hselected
        exact hselected ▸ Block.blocks .empty
    exact ⟨hsome, first ++ new, hcalls, hblocks, hblocks.held⟩

/-- Every function follows the protocol for every database, whatever its answers; `db_book_get`
does so if and only if it fetches no booking. -/
theorem dbFunction_followsProtocol (build : Build) (conv : Atof) (uninitialised : ℤ)
    (f : DbFunction) :
    (FollowsProtocol D past s fun fuel => f.run build conv uninitialised fuel) ↔
      f.FetchesNoBooking D s.db := by
  have hexec : ∀ st, FollowsProtocol D past s fun _ => returned (dbpExec st) :=
    fun st => followsProtocol_returned (exec_block st s)
  have hencrypt : ∀ pwd st, FollowsProtocol D past s fun _ =>
      returned (encryptPwd build pwd >>= fun _ => dbpExec st) :=
    fun pwd st => followsProtocol_returned (encryptPwd_block (exec_block st))
  cases f with
  | bookGet seatId => exact followsProtocol_bookGet conv seatId uninitialised
  | accountInit | accountReset | dishInit | dishReset | seatInit | seatReset | bookInit
  | bookReset => exact iff_of_true (hexec _) trivial
  | accountUpdateNick | accountUpdateComment | accountDel | dishAdd | dishDel | seatAdd | seatDel
  | bookAdd | bookDel | bookModifyBook | bookModifyAccept => exact iff_of_true (hexec _) trivial
  | accountAdd account => exact iff_of_true (hencrypt _ _) trivial
  | accountUpdatePwd uid newPwd => exact iff_of_true (hencrypt _ _) trivial
  | accountPwdCheck uid pwd =>
    exact iff_of_true (followsProtocol_returned (encryptPwd_block existsRow_block)) trivial
  | accountGetOne uid out =>
    exact iff_of_true (followsProtocol_returned (getOne_block silent_readAccount out s)) trivial
  | dishGetOne id out =>
    exact iff_of_true (followsProtocol_returned (getOne_block silent_readDish out s)) trivial
  | seatGetOne id old out =>
    exact iff_of_true
      (followsProtocol_returned (getOne_block (silent_readSeatOne old) out s)) trivial
  | accountGet =>
    exact iff_of_true (followsProtocol_getRows silent_readAccount uninitialised) trivial
  | seatGet => exact iff_of_true (followsProtocol_getRows silent_readSeat uninitialised) trivial
  | dishGetByCategory category out =>
    exact iff_of_true (followsProtocol_dishGetByCategory category uninitialised out) trivial
  | bookGetOne bookId out =>
    exact iff_of_true (followsProtocol_bookGetOne conv bookId out) trivial

end Functions

/-- A database that finds one booking. -/
def oneBooking : Database Unit where
  query
    | .bookSelect _, _ =>
      (⟨6, [[lit "7", lit "3", lit "1", lit "0.5", lit "", lit "0"]], false⟩, ())
    | _, _ => (⟨1, [[lit "1"]], false⟩, ())
  exec _ _ := (true, ())

def noRow : ℕ → ℕ → DbpRow := fun _ _ => ⟨lit "", 0⟩

theorem dbBookGet_frees_twice :
    ((dbBookGet ⟨fun _ => 0, fun _ => 0⟩ 3 0 2).exec (Provider.handle oneBooking noRow)
      (Provider.idle ())).map (·.2.calls) =
        some [.query, .fetched 0, .freed 0, .reset, .query, .fetched 1, .freed 1, .freed 1,
          .fetchFailed, .reset] ∧
    ¬ FollowsProtocol oneBooking noRow (Provider.idle ())
      fun fuel => looped (dbBookGet ⟨fun _ => 0, fun _ => 0⟩ 3 0 fuel) := by
  refine ⟨by decide, fun hfollows => ?_⟩
  rcases (followsProtocol_bookGet _ 3 0).mp hfollows with hnone | hempty | hfields
  · exact absurd hnone (by decide)
  · cases hempty
  · exact absurd rfl hfields

end Youmenu.Server.Dbp
