import Youmenu.Lib.Critical
import Youmenu.Server.Cursor

/-!
# The SQLite provider among threads: `db_provider_sqlite.c`

All threads use one connection to the database, and one place in it for the present
statement. `dbp_query_sqlite` takes the lock of the provider and looks for the first row,
each fetch copies the row that was found and looks for the next one, and
`dbp_query_reset_sqlite` gives the lock back. The library is a parameter, and so are the
rows that a statement finds.

## Main definitions

* `Sqlite3` — what is used of the library.
* `SqliteParam`, `provider` — the provider and its functions.
* `started` — threads that call functions of the `db_*.c` files, each in its own order.

## Main statements

* `level_run` — every function uses the lock in brackets.
* `bounded_run` — the loops over the rows end.
* `provider_serializable`, `provider_never_stuck` — what the lock is good for.
* `reads_are_snapshots` — the rows that a query finds are those of one state of the database.
-/

namespace Youmenu.Server.Dbp

open Eventpack Program Critical Transition

/-! ## The source -/

/-- `SQLITE_ROW`, `SQLITE_DONE` or any other code. -/
inductive StepRet where
  | row
  | done
  | other
deriving DecidableEq

/-- The functions of the library, over statements of type `κ`. All statements that are
stepped are queries and leave the database alone. -/
structure Sqlite3 (δ κ : Type) where
  /-- `none` is a null statement. -/
  prepare : List UInt8 → δ → Option κ
  step : κ → δ → StepRet × κ
  /-- The columns of the row that was found. -/
  columns : κ → List CString
  exec : List UInt8 → δ → Bool × δ

namespace Sqlite3

variable {δ κ : Type} (q : Sqlite3 δ κ)

/-- `sqlite3_step`; a null statement is misuse. -/
def stepStmt : Option κ → δ → StepRet × Option κ
  | none, _ => (.other, none)
  | some k, d => ((q.step k d).1, some (q.step k d).2)

/-- `sqlite3_data_count`. -/
def dataCount (ret : StepRet) (stmt : Option κ) : ℕ :=
  if ret = .row then (stmt.map fun k => (q.columns k).length).getD 0 else 0

/-- `sqlite3_column_text` on the columns of a row. -/
def columnTexts (fields : ℕ) (stmt : Option κ) : List CString :=
  (List.range fields).map fun i => ((stmt.map q.columns).getD []).getD i (lit "")

end Sqlite3

/-- `sqlite_param_t` without its lock, and the database behind `h_sql`. -/
structure SqliteParam (δ κ : Type) where
  db : δ
  stmt : Option κ
  fields : ℕ
  row : StepRet

/-- A query of a thread: the statement, the database when the lock was taken, the rows that
were fetched since, and whether a fetch has failed. This is for the proof only. -/
structure Read (δ : Type) where
  text : List UInt8
  db : δ
  rows : List (List CString)
  ended : Bool

/-- What belongs to a thread: the rows that it has fetched and not freed, and its queries so
far. -/
structure Fetched (δ : Type) where
  live : List (ℕ × List CString)
  fresh : ℕ
  stray : Bool
  overflow : Bool
  reads : List (Read δ)

namespace Fetched

variable {δ : Type}

def none : Fetched δ := ⟨[], 0, false, false, []⟩

/-- The present query has changed. -/
def reading (f : Read δ → Read δ) (l : Fetched δ) : Fetched δ :=
  { l with reads := l.reads.dropLast ++ (l.reads.getLast?.map f).toList }

end Fetched

section Functions

variable {δ κ : Type} (q : Sqlite3 δ κ) (build : Build) (past : ℕ → ℕ → DbpRow)

def dbpQueryRet : StepRet → DbpQueryRet
  | .row => .row
  | .done => .done
  | .other => .error

/-- What `sqlite3_prepare` and the first `sqlite3_step` leave. -/
def opened (text : List UInt8) (d : δ) : StepRet × Option κ := q.stepStmt (q.prepare text d) d

def dbpQuerySqlite (text : List UInt8) (l : Fetched δ) (p : SqliteParam δ κ) :
    DbpQueryRet × Fetched δ × SqliteParam δ κ :=
  let r := opened q text p.db
  (dbpQueryRet r.1, { l with reads := l.reads ++ [⟨text, p.db, [], false⟩] },
    ⟨p.db, r.2, q.dataCount r.1 r.2, r.1⟩)

def dbpNumFieldsSqlite (p : SqliteParam δ κ) : ℕ := if p.stmt.isSome then p.fields else 0

/-- The row that was found is copied, and the next one is looked for. -/
def dbpFetchRowSqlite (l : Fetched δ) (p : SqliteParam δ κ) :
    Option ℕ × Fetched δ × SqliteParam δ κ :=
  if p.row ≠ .row then (none, l.reading fun r => { r with ended := true }, p)
  else
    let cells := q.columnTexts (dbpNumFieldsSqlite p) p.stmt
    let next := q.stepStmt p.stmt p.db
    (some l.fresh,
      { l.reading fun r => { r with rows := r.rows ++ [cells] } with
        live := (l.fresh, cells) :: l.live, fresh := l.fresh + 1 },
      { p with stmt := next.2, row := next.1 })

def dbpFetchRowFreeSqlite (row : ℕ) (l : Fetched δ) : Fetched δ :=
  { l with live := l.live.filter (·.1 ≠ row) }

/-- `sqlite3_reset` and `sqlite3_finalize`: the pointer stays in the provider. -/
def dbpQueryResetSqlite (p : SqliteParam δ κ) : SqliteParam δ κ := p

def dbExecSqlite (text : List UInt8) (p : SqliteParam δ κ) : Bool × SqliteParam δ κ :=
  let r := q.exec text p.db
  (r.1, { p with db := r.2 })

/-- A column of a row of the thread; `past` is what a read outside of it finds. -/
def columnOf (row i : ℕ) (l : Fetched δ) : DbpRow × Fetched δ :=
  match l.live.lookup row with
  | some cells =>
    if i < cells.length then
      let data := cells.getD i (lit "")
      (⟨data, data.bytes.length⟩, l)
    else (past row i, { l with stray := true })
  | Option.none => (past row i, { l with stray := true })

def DbpOp.access : DbpOp → Access
  | exec _ => .whole
  | query _ => .enter
  | numFields | fetchRow | fetchRowFree _ => .inside
  | queryReset => .leave
  | column _ _ | store _ _ | element _ _ => .aside

/-- An operation on the memory of the thread alone. -/
def runAside : (op : DbpOp) → Fetched δ → op.Result × Fetched δ
  | .column row i, l => columnOf past row i l
  | .store size value, l => ((), { l with overflow := l.overflow || size ≤ value.bytes.length })
  | .element count i, l => ((), { l with overflow := l.overflow || count ≤ i })
  | .exec _, l => (false, l)
  | .query _, l => (.error, l)
  | .numFields, l => (0, l)
  | .fetchRow, l => (none, l)
  | .fetchRowFree _, l | .queryReset, l => ((), l)

def runSqlite : (op : DbpOp) → Fetched δ → SqliteParam δ κ →
    op.Result × Fetched δ × SqliteParam δ κ
  | .exec s, l, p =>
    let r := dbExecSqlite q (s.text build) p
    (r.1, l, r.2)
  | .query s, l, p => dbpQuerySqlite q (s.text build) l p
  | .numFields, l, p => (dbpNumFieldsSqlite p, l, p)
  | .fetchRow, l, p => dbpFetchRowSqlite q l p
  | .fetchRowFree row, l, p => ((), dbpFetchRowFreeSqlite row l, p)
  | .queryReset, l, p => ((), l, dbpQueryResetSqlite p)
  | .column row i, l, p => ((columnOf past row i l).1, (columnOf past row i l).2, p)
  | .store size value, l, p =>
    ((), { l with overflow := l.overflow || size ≤ value.bytes.length }, p)
  | .element count i, l, p => ((), { l with overflow := l.overflow || count ≤ i }, p)

/-- The provider. -/
def provider : Interface DbpOp DbpOp.Result (Fetched δ) (SqliteParam δ κ) where
  access := DbpOp.access
  run := runSqlite q build past
  runAside := runAside past
  aside_eq := by
    intro op l p hop
    cases op with
    | column | store | element => rfl
    | exec | query | numFields | fetchRow | fetchRowFree | queryReset => cases hop

/-- A thread that calls functions of the `db_*.c` files one after the other. The result tells
whether their loops have all come to the row that is not there. -/
def calls (conv : Atof) (uninitialised : ℤ) (fuel : ℕ) : List DbFunction → Calls Bool
  | [] => return true
  | f :: fs => do
    let r ← f.run build conv uninitialised fuel
    let rest ← calls conv uninitialised fuel fs
    return r.isSome && rest

/-- The provider after `dbp_create_new_sqlite`, and the threads before their first call. -/
def started {ι : Type} (d : δ) (threads : ι → Calls Bool) :
    Sys DbpOp DbpOp.Result Bool (Fetched δ) (SqliteParam δ κ) ι :=
  ⟨⟨d, none, 0, .other⟩, none, fun i => ⟨threads i, .none⟩⟩

end Functions

/-! ## Brackets -/

section Brackets

variable {δ κ : Type} {q : Sqlite3 δ κ} {build : Build} {past : ℕ → ℕ → DbpRow} {held : Bool}

/-- The program leaves the lock as it finds it, held or not. -/
def Level (q : Sqlite3 δ κ) (build : Build) (past : ℕ → ℕ → DbpRow) {β : Type} (held : Bool)
    (p : Calls β) : Prop :=
  Bracketed (provider q build past) held held p

theorem Level.bind {β γ : Type} {p : Calls β} {f : β → Calls γ} (hp : Level q build past held p)
    (hf : ∀ b, Level q build past held (f b)) : Level q build past held (p >>= f) :=
  Bracketed.bind hp hf

theorem level_ret {β : Type} (b : β) : Level q build past held (ret b : Calls β) := rfl

theorem level_column (row i : ℕ) : Level q build past held (rowColumn row i) :=
  bracketed_aside rfl fun _ => rfl

theorem level_store (size : ℕ) (value : CString) : Level q build past held (storeField size value) :=
  bracketed_aside rfl fun _ => rfl

theorem level_element (count : ℤ) (i : ℕ) : Level q build past held (arrayElement count i) :=
  bracketed_aside rfl fun _ => rfl

theorem level_exec (s : Statement) : Level q build past false (dbpExec s) :=
  bracketed_whole rfl fun _ => rfl

theorem level_fetchRowFree (row : ℕ) : Level q build past true (dbpFetchRowFree row) :=
  bracketed_inside rfl fun _ => rfl

theorem level_encryptPwd (pwd : CString) : Level q build past held (encryptPwd build pwd) :=
  (level_store _ _).bind fun _ => level_ret _

theorem level_copyColumn (row i size : ℕ) : Level q build past held (copyColumn row i size) :=
  (level_column row i).bind fun _ => (level_store _ _).bind fun _ => level_ret _

theorem level_intColumn (row i : ℕ) : Level q build past held (intColumn row i) :=
  (level_column row i).bind fun _ => level_ret _

/-- What is done with the rows happens under the lock. -/
theorem level_withRows {β : Type} {s : Statement} {n : ℕ} {failed : β} {found : Calls β}
    (hfound : Level q build past true found) :
    Level q build past false (withRows s n failed found) := by
  have hreset : ∀ b : β, Bracketed (provider q build past) true false
      (dbpQueryReset >>= fun _ => ret b) :=
    fun b => bracketed_leave rfl fun _ => rfl
  refine bracketed_enter rfl fun r => ?_
  change Bracketed _ _ _ (if r ≠ DbpQueryRet.row then _ else _)
  split
  · exact hreset failed
  · refine bracketed_inside rfl fun fields => ?_
    change Bracketed _ _ _ (if (fields : ℕ) ≠ n then _ else _)
    split
    · exact hreset failed
    · exact Bracketed.bind hfound fun b => hreset b

theorem level_existsRow (s : Statement) : Level q build past false (existsRow s) :=
  bracketed_enter rfl fun _ => bracketed_leave rfl fun _ => rfl

theorem level_readRow {β : Type} {absent : β} {read : ℕ → Calls β}
    (hread : ∀ row, Level q build past true (read row)) :
    Level q build past true (readRow absent read) := by
  refine bracketed_inside rfl fun row => ?_
  cases row with
  | none => exact level_ret absent
  | some row => exact (hread row).bind fun b => (level_fetchRowFree row).bind fun _ => level_ret b

theorem level_fetchRows {β : Type} {body : ℕ → ℕ → Calls β}
    (hbody : ∀ i row, Level q build past true (body i row)) (fuel i : ℕ) :
    Level q build past true (fetchRows body fuel i) := by
  induction fuel generalizing i with
  | zero => exact level_ret none
  | succ fuel ih =>
    refine bracketed_inside rfl fun row => ?_
    cases row with
    | none => exact level_ret _
    | some row => exact (hbody i row).bind fun b => (ih (i + 1)).bind fun bs => level_ret _

theorem level_fillElement {β : Type} {read : ℕ → Calls β}
    (hread : ∀ row, Level q build past true (read row)) (count : ℤ) (i row : ℕ) :
    Level q build past true (fillElement count read i row) :=
  (level_element count i).bind fun _ => (hread row).bind fun b =>
    (level_fetchRowFree row).bind fun _ => level_ret b

theorem level_countRows (s : Statement) (uninitialised : ℤ) :
    Level q build past false (countRows s uninitialised) :=
  (level_withRows (level_readRow fun row => level_intColumn row 0)).bind fun _ => level_ret _

theorem level_selectRows {β : Type} {s : Statement} {n : ℕ} {count : ℤ} {body : ℕ → ℕ → Calls β}
    (hbody : ∀ i row, Level q build past true (body i row)) (fuel : ℕ) :
    Level q build past false (selectRows s n count body fuel) :=
  level_withRows ((level_fetchRows hbody fuel 0).bind fun _ => level_ret _)

/-- A list function lets the lock go between its two queries. -/
theorem level_getRows {β : Type} {counting s : Statement} {uninitialised : ℤ} {n : ℕ}
    {body : ℤ → ℕ → ℕ → Calls β} (hbody : ∀ count i row, Level q build past true (body count i row))
    (fuel : ℕ) : Level q build past false (getRows counting uninitialised s n body fuel) := by
  refine (level_countRows counting uninitialised).bind fun count => ?_
  cases count with
  | none => exact level_ret _
  | some count => exact level_selectRows (hbody count) fuel

theorem level_getOne {β : Type} {s : Statement} {n : ℕ} {read : ℕ → Calls β}
    (hread : ∀ row, Level q build past true (read row)) (out : Bool) :
    Level q build past false (getOne s n read out) := by
  cases out with
  | true => exact level_withRows (level_readRow fun row => (hread row).bind fun b => level_ret _)
  | false => exact (level_existsRow s).bind fun _ => level_ret _

/-! ### Rows of the tables -/

theorem level_readAccount (row : ℕ) : Level q build past held (readAccount row) :=
  (level_copyColumn _ _ _).bind fun _ => (level_intColumn _ _).bind fun _ =>
    (level_copyColumn _ _ _).bind fun _ => (level_copyColumn _ _ _).bind fun _ =>
      (level_copyColumn _ _ _).bind fun _ => level_ret _

theorem level_readDish (row : ℕ) : Level q build past held (readDish row) :=
  (level_intColumn _ _).bind fun _ => (level_intColumn _ _).bind fun _ =>
    (level_copyColumn _ _ _).bind fun _ => (level_copyColumn _ _ _).bind fun _ =>
      (level_copyColumn _ _ _).bind fun _ => (level_intColumn _ _).bind fun _ =>
        (level_intColumn _ _).bind fun _ => level_ret _

theorem level_readSeat (row : ℕ) : Level q build past held (readSeat row) :=
  (level_intColumn _ _).bind fun _ => (level_copyColumn _ _ _).bind fun _ =>
    (level_copyColumn _ _ _).bind fun _ => level_ret _

theorem level_readSeatOne (old : List UInt8) (row : ℕ) :
    Level q build past held (readSeatOne old row) :=
  (level_intColumn _ _).bind fun _ => (level_column _ _).bind fun _ =>
    (level_store _ _).bind fun _ => (level_column _ _).bind fun _ =>
      (level_copyColumn _ _ _).bind fun _ => level_ret _

theorem level_readBook (conv : Atof) (row : ℕ) : Level q build past held (readBook conv row) :=
  (level_intColumn _ _).bind fun _ => (level_intColumn _ _).bind fun _ =>
    (level_intColumn _ _).bind fun _ => (level_column _ _).bind fun _ =>
      (level_copyColumn _ _ _).bind fun _ => (level_column _ _).bind fun _ => level_ret _

/-! ### The functions -/

theorem level_dishGetByCategory (category uninitialised : ℤ) (out : Bool) (fuel : ℕ) :
    Level q build past false (dbDishGetByCategory category uninitialised out fuel) := by
  cases out with
  | true => exact level_getRows (fun count => level_fillElement level_readDish count) fuel
  | false =>
    refine (level_countRows _ uninitialised).bind fun count => ?_
    cases count with
    | none => exact level_ret _
    | some count => exact (level_existsRow _).bind fun _ => level_ret _

theorem level_bookGetOne (conv : Atof) (bookId : ℤ) (out : Bool) (fuel : ℕ) :
    Level q build past false (dbBookGetOne conv bookId out fuel) := by
  cases out with
  | true =>
    refine Level.bind (level_selectRows (fun _ row => ?_) fuel) fun _ => level_ret _
    exact (level_readBook conv row).bind fun b => (level_fetchRowFree row).bind fun _ => level_ret b
  | false => exact (level_existsRow _).bind fun _ => level_ret _

/-- The second release of a row is under the lock as well. -/
theorem level_bookGet (conv : Atof) (seatId uninitialised : ℤ) (fuel : ℕ) :
    Level q build past false (dbBookGet conv seatId uninitialised fuel) :=
  level_getRows (fun count i row => (level_fillElement (level_readBook conv) count i row).bind
    fun b => (level_fetchRowFree row).bind fun _ => level_ret b) fuel

/-- Every function of the `db_*.c` files uses the lock of the provider in brackets, whatever
the provider answers. -/
theorem level_run (conv : Atof) (uninitialised : ℤ) (fuel : ℕ) (f : DbFunction) :
    Level q build past false (f.run build conv uninitialised fuel) := by
  have hexec : ∀ s, Level q build past false (returned (dbpExec s)) :=
    fun s => (level_exec s).bind fun _ => level_ret _
  have hencrypt : ∀ pwd s, Level q build past false
      (returned (encryptPwd build pwd >>= fun _ => dbpExec s)) :=
    fun pwd s => ((level_encryptPwd pwd).bind fun _ => level_exec s).bind fun _ => level_ret _
  cases f with
  | accountInit | accountReset | dishInit | dishReset | seatInit | seatReset | bookInit
  | bookReset => exact hexec _
  | accountUpdateNick | accountUpdateComment | accountDel | dishAdd | dishDel | seatAdd | seatDel
  | bookAdd | bookDel | bookModifyBook | bookModifyAccept => exact hexec _
  | accountAdd account => exact hencrypt _ _
  | accountUpdatePwd uid newPwd => exact hencrypt _ _
  | accountPwdCheck uid pwd =>
    exact ((level_encryptPwd pwd).bind fun _ => level_existsRow _).bind fun _ => level_ret _
  | accountGetOne uid out => exact (level_getOne level_readAccount out).bind fun _ => level_ret _
  | dishGetOne id out => exact (level_getOne level_readDish out).bind fun _ => level_ret _
  | seatGetOne id old out =>
    exact (level_getOne (level_readSeatOne old) out).bind fun _ => level_ret _
  | accountGet =>
    exact (level_getRows (fun count => level_fillElement level_readAccount count) fuel).bind
      fun _ => level_ret _
  | seatGet =>
    exact (level_getRows (fun count => level_fillElement level_readSeat count) fuel).bind
      fun _ => level_ret _
  | dishGetByCategory category out =>
    exact (level_dishGetByCategory category uninitialised out fuel).bind fun _ => level_ret _
  | bookGetOne bookId out => exact (level_bookGetOne conv bookId out fuel).bind fun _ => level_ret _
  | bookGet seatId => exact (level_bookGet conv seatId uninitialised fuel).bind fun _ => level_ret _

theorem level_calls (conv : Atof) (uninitialised : ℤ) (fuel : ℕ) (fs : List DbFunction) :
    Level q build past false (calls build conv uninitialised fuel fs) := by
  induction fs with
  | nil => exact level_ret true
  | cons f fs ih =>
    exact (level_run conv uninitialised fuel f).bind fun _ => ih.bind fun _ => level_ret _

end Brackets

/-! ## Loops that end -/

section Loops

/-- How many rows the present query has found. -/
def rowsAfter : (op : DbpOp) → op.Result → ℕ → ℕ
  | .query _, _, _ => 0
  | .fetchRow, row, rows => rows + row.toList.length
  | _, _, rows => rows

/-- As long as no query finds `bound` rows, what the program returns meets `P`. -/
def Bounded {β : Type} (bound : ℕ) (P : β → Prop) (rows : ℕ) (p : Calls β) : Prop :=
  p.Noting rowsAfter (· < bound) (fun b _ => P b) rows

variable {β : Type} {bound rows : ℕ} {P : β → Prop}

theorem bounded_of_returns {p : Calls β} (hp : p.Returns P) : Bounded bound P rows p :=
  hp.noting fun _ _ h => h

theorem Bounded.bind {γ : Type} {P' : γ → Prop} {p : Calls β} {f : β → Calls γ}
    (hp : Bounded bound P rows p) (hf : ∀ b, P b → ∀ rows, Bounded bound P' rows (f b)) :
    Bounded bound P' rows (p >>= f) :=
  noting_bind.mpr (hp.mono fun b rows hb => hf b hb rows)

theorem Bounded.map {γ : Type} {p : Calls (Option β)} (hp : Bounded bound (·.isSome) rows p)
    (f : β → γ) : Bounded bound (·.isSome) rows (p >>= fun r => ret (r.map f)) :=
  hp.bind fun r hr _ => by simpa [Bounded, Noting] using hr

/-- A silent operation is no fetch. -/
theorem Silent.rowsAfter {op : DbpOp} (hop : Silent op) (r : op.Result) (rows : ℕ) :
    rowsAfter op r rows = rows := by
  cases op with
  | numFields | column | store | element => rfl
  | exec | query | fetchRow | fetchRowFree | queryReset => cases hop

/-- The body of a loop fetches nothing. -/
def NoFetch {β : Type} (body : ℕ → ℕ → Calls β) : Prop :=
  ∀ i row, (body i row).Only fun op => ∀ r rows, rowsAfter op r rows = rows

theorem noFetch_fillElement {read : ℕ → Calls β} (hread : ∀ row, (read row).Only Silent)
    (count : ℤ) : NoFetch (fillElement count read) :=
  fun _ row => ⟨fun _ _ => rfl, fun _ => ((hread row).mono fun _ hop => hop.rowsAfter).bind
    fun _ => ⟨fun _ _ => rfl, fun _ => trivial⟩⟩

theorem NoFetch.free {body : ℕ → ℕ → Calls β} (hbody : NoFetch body) :
    NoFetch fun i row => do
      let b ← body i row
      dbpFetchRowFree row
      return b :=
  fun i row => (hbody i row).bind fun _ => ⟨fun _ _ => rfl, fun _ => trivial⟩

/-- A loop that can go round as often as there can be rows comes to its end. -/
theorem bounded_fetchRows {body : ℕ → ℕ → Calls β} (hbody : NoFetch body) {fuel : ℕ} (i : ℕ)
    (hrows : rows < bound) (hfuel : bound ≤ rows + fuel) :
    Bounded bound (·.isSome) rows (fetchRows body fuel i) := by
  induction fuel generalizing rows i with
  | zero => omega
  | succ fuel ih =>
    intro row hrow
    cases row with
    | none => exact rfl
    | some row =>
      have hfuel : bound ≤ rowsAfter .fetchRow (some row) rows + fuel := by
        simp only [rowsAfter, Option.toList_some, List.length_singleton]
        omega
      change Bounded bound _ _ (body i row >>= fun b => fetchRows body fuel (i + 1) >>= fun bs =>
        ret (bs.map (b :: ·)))
      refine noting_bind.mpr ((hbody i row).noting fun b => ?_)
      exact (ih (i + 1) hrow hfuel).map (b :: ·)

theorem bounded_withRows {s : Statement} {n : ℕ} {failed : β} {found : Calls β}
    (hfailed : P failed) (hfound : 0 < bound → Bounded bound P 0 found) :
    Bounded bound P rows (withRows s n failed found) := by
  have hreset : ∀ b rows, P b → Bounded bound P rows (dbpQueryReset >>= fun _ => ret b) :=
    fun b rows hb _ _ => hb
  intro r hbound
  change Bounded bound P 0 (if r ≠ DbpQueryRet.row then _ else _)
  split
  · exact hreset failed 0 hfailed
  · intro fields _
    change Bounded bound P 0 (if (fields : ℕ) ≠ n then _ else _)
    split
    · exact hreset failed 0 hfailed
    · exact (hfound hbound).bind fun b hb rows => hreset b rows hb

theorem bounded_selectRows {s : Statement} {n : ℕ} {count : ℤ} {body : ℕ → ℕ → Calls β}
    (hbody : NoFetch body) (fuel : ℕ) :
    Bounded fuel (·.isSome) rows (selectRows s n count body fuel) :=
  bounded_withRows rfl fun hbound => (bounded_fetchRows hbody 0 hbound (by omega)).map (count, ·)

theorem bounded_getRows {counting s : Statement} {uninitialised : ℤ} {n : ℕ}
    {body : ℤ → ℕ → ℕ → Calls β} (hbody : ∀ count, NoFetch (body count)) (fuel : ℕ) :
    Bounded fuel (·.isSome) rows (getRows counting uninitialised s n body fuel) := by
  refine (bounded_of_returns (returns_true _)).bind fun count _ rows => ?_
  cases count with
  | none => exact rfl
  | some count => exact bounded_selectRows (hbody count) fuel

theorem bounded_returned (p : Calls β) : Bounded bound (·.isSome) rows (returned p) :=
  bounded_of_returns ((returns_true p).bind fun _ _ => rfl)

theorem bounded_looped {p : Calls (Option β)} (hp : Bounded bound (·.isSome) rows p) :
    Bounded bound (·.isSome) rows (looped p) :=
  hp.map fun _ => ()

variable {build : Build}

/-- The loops of every function come to their ends. -/
theorem bounded_run (conv : Atof) (uninitialised : ℤ) (fuel : ℕ) (f : DbFunction) :
    Bounded fuel (·.isSome) rows (f.run build conv uninitialised fuel) := by
  cases f with
  | accountGet =>
    exact bounded_looped (bounded_getRows (noFetch_fillElement silent_readAccount) fuel)
  | seatGet => exact bounded_looped (bounded_getRows (noFetch_fillElement silent_readSeat) fuel)
  | bookGet seatId =>
    exact bounded_looped
      (bounded_getRows (fun count => (noFetch_fillElement (silent_readBook conv) count).free) fuel)
  | dishGetByCategory category out =>
    refine bounded_looped ?_
    cases out with
    | true => exact bounded_getRows (noFetch_fillElement silent_readDish) fuel
    | false =>
      refine bounded_of_returns ((returns_true _).bind fun count _ => ?_)
      cases count with
      | none => exact rfl
      | some count => exact (returns_true _).bind fun _ _ => rfl
  | bookGetOne bookId out =>
    refine bounded_looped ?_
    cases out with
    | true =>
      have hbody : NoFetch fun _ row => readBook conv row :=
        fun _ row => (silent_readBook conv row).mono fun _ hop => hop.rowsAfter
      exact (bounded_selectRows hbody.free fuel).map _
    | false => exact bounded_of_returns ((returns_true _).bind fun _ _ => rfl)
  | _ => exact bounded_returned _

theorem bounded_calls (conv : Atof) (uninitialised : ℤ) (fuel : ℕ) (fs : List DbFunction) :
    Bounded fuel (· = true) rows (calls build conv uninitialised fuel fs) := by
  induction fs generalizing rows with
  | nil => exact rfl
  | cons f fs ih =>
    refine (bounded_run conv uninitialised fuel f).bind fun r hr rows => ih.bind fun rest hrest _ => ?_
    simp [Bounded, Noting, hr, hrest]

end Loops

/-! ## What a query has read -/

section Snapshots

variable {δ κ : Type} (q : Sqlite3 δ κ)

/-- Fetch after fetch, from what was found first, in a database that stays as it is. -/
inductive Fetches (fields : ℕ) (d : δ) (found : StepRet × Option κ) :
    List (List CString) → StepRet × Option κ → Prop
  | nil : Fetches fields d found [] found
  | snoc {rows : List (List CString)} {found' : StepRet × Option κ}
      (h : Fetches fields d found rows found') (hrow : found'.1 = .row) :
      Fetches fields d found (rows ++ [q.columnTexts fields found'.2]) (q.stepStmt found'.2 d)

namespace Read

/-- The rows of the query are the first rows of the statement in the database that it found
when it took the lock. It has come to `found`, and a failed fetch was one at the end. -/
def At (r : Read δ) (found : StepRet × Option κ) : Prop :=
  let first := opened q r.text r.db
  Fetches q (q.dataCount first.1 first.2) r.db first r.rows found ∧
    (r.ended = true → found.1 ≠ .row)

def Snapshot (r : Read δ) : Prop := ∃ found, r.At q found

end Read

/-- No statement has `bound` rows in any state of the database: the library bounds the rows of a
table. -/
def Sqlite3.Ends (bound : ℕ) : Prop := ∀ r : Read δ, r.Snapshot q → r.rows.length < bound

/-- How many rows the last query of the thread has found. -/
def Fetched.rows (l : Fetched δ) : ℕ := (l.reads.getLast?.map (·.rows.length)).getD 0

variable {q}

theorem stepStmt_isSome {stmt : Option κ} {d : δ} (h : (q.stepStmt stmt d).1 = .row) :
    (q.stepStmt stmt d).2.isSome := by
  cases stmt with
  | none => cases h
  | some k => rfl

/-- A row that was found is one of a statement. -/
theorem Fetches.isSome {fields : ℕ} {stmt : Option κ} {d : δ} {rows : List (List CString)}
    {found : StepRet × Option κ} (h : Fetches q fields d (q.stepStmt stmt d) rows found)
    (hrow : found.1 = .row) : found.2.isSome := by
  cases h with
  | nil => exact stepStmt_isSome hrow
  | snoc _ _ => exact stepStmt_isSome hrow

theorem reads_reading {l : Fetched δ} {pre : List (Read δ)} {r : Read δ}
    (h : l.reads = pre ++ [r]) (f : Read δ → Read δ) : (l.reading f).reads = pre ++ [f r] := by
  simp [Fetched.reading, h]

variable {ι : Type} {build : Build} {past : ℕ → ℕ → DbpRow}
  {s s' : Sys DbpOp DbpOp.Result Bool (Fetched δ) (SqliteParam δ κ) ι} {i : ι}

/-- Every query so far has read from one state of the database, and for the query that has the
lock this is still the present state. -/
structure Consistent (q : Sqlite3 δ κ)
    (s : Sys DbpOp DbpOp.Result Bool (Fetched δ) (SqliteParam δ κ) ι) : Prop where
  reads : ∀ i, ∀ r ∈ (s.thread i).own.reads, r.Snapshot q
  current : ∀ i, s.owner = some i → ∃ pre r, (s.thread i).own.reads = pre ++ [r] ∧
    r.db = s.shared.db ∧
    s.shared.fields = q.dataCount (opened q r.text r.db).1 (opened q r.text r.db).2 ∧
    r.At q (s.shared.row, s.shared.stmt)

/-- Every query has found fewer rows than there can be. -/
theorem Consistent.rows_lt (hs : Consistent q s) {bound : ℕ} (hends : q.Ends bound) (i : ι) :
    (s.thread i).own.rows < bound := by
  have hpos : 0 < bound := hends ⟨[], s.shared.db, [], false⟩ ⟨_, .nil, by simp⟩
  cases hlast : (s.thread i).own.reads.getLast? with
  | none => simpa [Fetched.rows, hlast] using hpos
  | some r =>
    have hr := hends r (hs.reads i r (List.mem_of_getLast? hlast))
    simpa [Fetched.rows, hlast] using hr

variable [DecidableEq ι]

/-- The thread `i` has gone on, and the others see no difference in the lock. -/
theorem Consistent.put (hs : Consistent q s)
    {t : Thread DbpOp DbpOp.Result Bool (Fetched δ)} {p : SqliteParam δ κ} {owner : Option ι}
    (hreads : ∀ r ∈ t.own.reads, r ∈ (s.thread i).own.reads ∨ r.Snapshot q)
    (hothers : ∀ j, j ≠ i → owner ≠ some j ∨ (s.owner = some j ∧ p = s.shared))
    (hcurrent : owner = some i → ∃ pre r, t.own.reads = pre ++ [r] ∧ r.db = p.db ∧
      p.fields = q.dataCount (opened q r.text r.db).1 (opened q r.text r.db).2 ∧
      r.At q (p.row, p.stmt)) : Consistent q (s.put i t p owner) where
  reads j r hr := by
    by_cases hj : j = i
    · subst hj
      rw [Sys.put_thread_self] at hr
      exact (hreads r hr).elim (hs.reads j r) id
    · rw [Sys.put_thread_ne _ _ _ _ hj] at hr
      exact hs.reads j r hr
  current j howner := by
    by_cases hj : j = i
    · subst hj
      rw [Sys.put_thread_self]
      exact hcurrent howner
    · rw [Sys.put_thread_ne _ _ _ _ hj]
      rcases hothers j hj with hne | ⟨howner', rfl⟩
      · exact (hne howner).elim
      · exact hs.current j howner'

/-- A thread whose operation has left its queries and the provider as they are. -/
theorem Consistent.keep (hs : Consistent q s)
    {t : Thread DbpOp DbpOp.Result Bool (Fetched δ)} {owner : Option ι}
    (hreads : t.own.reads = (s.thread i).own.reads) (howner : owner = s.owner ∨ owner = none) :
    Consistent q (s.put i t s.shared owner) := by
  refine hs.put (fun r hr => .inl (hreads ▸ hr)) (fun j _ => ?_) fun hi => ?_
  · rcases howner with rfl | rfl
    · by_cases hj : s.owner = some j
      · exact .inr ⟨hj, rfl⟩
      · exact .inl hj
    · exact .inl (by simp)
  · rcases howner with rfl | rfl
    · rw [hreads]
      exact hs.current i hi
    · cases hi

/-- The present query of the owner has gone on. -/
theorem Consistent.advance (hs : Consistent q s) (howner : s.owner = some i)
    {t : Thread DbpOp DbpOp.Result Bool (Fetched δ)} {p : SqliteParam δ κ} {pre : List (Read δ)}
    {r r' : Read δ} (hreads : (s.thread i).own.reads = pre ++ [r])
    (hlast : t.own.reads = pre ++ [r']) (hdb : r'.db = p.db)
    (hfields : p.fields = q.dataCount (opened q r'.text r'.db).1 (opened q r'.text r'.db).2)
    (hat : r'.At q (p.row, p.stmt)) : Consistent q (s.put i t p s.owner) := by
  refine hs.put (fun r₁ hr₁ => ?_) (fun j hj => .inl ?_) fun _ => ⟨pre, r', hlast, hdb, hfields, hat⟩
  · rw [hlast] at hr₁
    rcases List.mem_append.mp hr₁ with hr₁ | hr₁
    · exact .inl (hreads ▸ List.mem_append_left _ hr₁)
    · rw [List.mem_singleton.mp hr₁]
      exact .inr ⟨_, hat⟩
  · simpa [howner] using Ne.symm hj

/-- A row is one of the database of the query, since this is still the present one. -/
theorem Consistent.fetchRow (hs : Consistent q s) (howner : s.owner = some i)
    (rest : Calls Bool) :
    Consistent q (s.put i ⟨rest, (dbpFetchRowSqlite q (s.thread i).own s.shared).2.1⟩
      (dbpFetchRowSqlite q (s.thread i).own s.shared).2.2 s.owner) := by
  obtain ⟨pre, r, hreads, hdb, hfields, hat⟩ := hs.current i howner
  by_cases hrow : s.shared.row = .row
  · have hsome : s.shared.stmt.isSome := Fetches.isSome hat.1 hrow
    have hended : r.ended = false := by
      by_contra hended
      exact hat.2 (by simpa using hended) hrow
    have hnext : Read.At q { r with rows := r.rows ++ [q.columnTexts s.shared.fields
        s.shared.stmt] } (q.stepStmt s.shared.stmt s.shared.db) := by
      refine ⟨?_, by simp [hended]⟩
      rw [← hdb, hfields]
      exact .snoc hat.1 hrow
    have hrun : dbpFetchRowSqlite q (s.thread i).own s.shared =
        (some (s.thread i).own.fresh,
          { (s.thread i).own.reading fun r => { r with rows := r.rows ++
              [q.columnTexts s.shared.fields s.shared.stmt] } with
            live := ((s.thread i).own.fresh, q.columnTexts s.shared.fields s.shared.stmt) ::
              (s.thread i).own.live
            fresh := (s.thread i).own.fresh + 1 },
          { s.shared with stmt := (q.stepStmt s.shared.stmt s.shared.db).2
                          row := (q.stepStmt s.shared.stmt s.shared.db).1 }) := by
      simp [dbpFetchRowSqlite, hrow, dbpNumFieldsSqlite, hsome]
    rw [hrun]
    exact hs.advance howner hreads (reads_reading hreads _) hdb hfields hnext
  · have hrun : dbpFetchRowSqlite q (s.thread i).own s.shared =
        (none, (s.thread i).own.reading fun r => { r with ended := true }, s.shared) := by
      simp [dbpFetchRowSqlite, hrow]
    rw [hrun]
    exact hs.advance howner hreads (reads_reading hreads _) hdb hfields ⟨hat.1, fun _ => hrow⟩

/-- The lock is taken, and the database of the query is the present one. -/
theorem Consistent.query (hs : Consistent q s) (text : List UInt8) (rest : Calls Bool) :
    Consistent q (s.put i ⟨rest, (dbpQuerySqlite q text (s.thread i).own s.shared).2.1⟩
      (dbpQuerySqlite q text (s.thread i).own s.shared).2.2 (some i)) := by
  have hat : Read.At q ⟨text, s.shared.db, [], false⟩ (opened q text s.shared.db) :=
    ⟨.nil, by simp⟩
  refine hs.put (fun r hr => ?_) (fun j hj => .inl ?_) fun _ => ⟨_, _, rfl, rfl, rfl, hat⟩
  · rcases List.mem_append.mp hr with hr | hr
    · exact .inl hr
    · rw [List.mem_singleton.mp hr]
      exact .inr ⟨_, hat⟩
  · simpa using Ne.symm hj

/-- One operation of one thread. -/
theorem Consistent.step (hs : Consistent q s) (hlock : s.WellBracketed (provider q build past))
    (hstep : s.step (provider q build past) i = some s') : Consistent q s' := by
  obtain ⟨op, k, hrest, -, rfl⟩ := Sys.step_cases hstep
  cases op with
  | exec st =>
    -- nobody is in the middle of a query
    exact hs.put (fun r hr => .inl hr) (fun j _ => .inl (by nofun)) (by nofun)
  | query st => exact hs.query _ _
  | fetchRow => exact hs.fetchRow (hlock.owner_of_access hrest (.inl rfl)) _
  | numFields => exact hs.keep rfl (.inl rfl)
  | fetchRowFree row => exact hs.keep rfl (.inl rfl)
  | queryReset => exact hs.keep rfl (.inr rfl)
  | column row j =>
    refine hs.keep ?_ (.inl rfl)
    simp only [provider, runSqlite, columnOf]
    split
    · split_ifs
      · rfl
      · rfl
    · rfl
  | store size value => exact hs.keep rfl (.inl rfl)
  | element count j => exact hs.keep rfl (.inl rfl)

/-- The rows that the present query has found are counted by what its fetches have returned. -/
theorem Consistent.rows_run (hs : Consistent q s) (hlock : s.WellBracketed (provider q build past))
    {op : DbpOp} {k : op.Result → Calls Bool} (hrest : (s.thread i).rest = .call op k) :
    ((provider q build past).run op (s.thread i).own s.shared).2.1.rows =
      rowsAfter op ((provider q build past).run op (s.thread i).own s.shared).1
        (s.thread i).own.rows := by
  cases op with
  | exec | numFields | fetchRowFree | queryReset | store | element => rfl
  | query st => simp [provider, runSqlite, dbpQuerySqlite, Fetched.rows, rowsAfter]
  | column row j =>
    simp only [provider, runSqlite, columnOf, rowsAfter]
    split
    · split_ifs
      · rfl
      · rfl
    · rfl
  | fetchRow =>
    have howner := hlock.owner_of_access hrest (.inl rfl)
    obtain ⟨pre, r, hreads, -⟩ := hs.current i howner
    simp only [provider, runSqlite, dbpFetchRowSqlite]
    split_ifs
    · simp [Fetched.rows, reads_reading hreads, hreads, rowsAfter]
    · simp [Fetched.rows, Fetched.reading, hreads, rowsAfter]

theorem started_wellBracketed (conv : Atof) (uninitialised : ℤ) (fuel : ℕ) (d : δ)
    (threads : ι → List DbFunction) :
    (started (κ := κ) d fun i => calls build conv uninitialised fuel (threads i)).WellBracketed
      (provider q build past) :=
  fun i => level_calls conv uninitialised fuel (threads i)

end Snapshots

/-! ## The threads together -/

section Threads

variable {δ κ ι : Type} [DecidableEq ι] (q : Sqlite3 δ κ) (build : Build) (past : ℕ → ℕ → DbpRow)
  (conv : Atof) (uninitialised : ℤ) (fuel : ℕ) (d : δ) (threads : ι → List DbFunction)

/-- The states that are reached when the threads call the functions of their lists. -/
def ThreadsReach (s : Sys DbpOp DbpOp.Result Bool (Fetched δ) (SqliteParam δ κ) ι) : Prop :=
  Reaches (Sys.step (provider q build past)) anyStep
    (started d fun i => calls build conv uninitialised fuel (threads i)) s

variable {q build past conv uninitialised fuel d threads}
  {s : Sys DbpOp DbpOp.Result Bool (Fetched δ) (SqliteParam δ κ) ι}

theorem ThreadsReach.wellBracketed
    (h : ThreadsReach q build past conv uninitialised fuel d threads s) :
    s.WellBracketed (provider q build past) :=
  (started_wellBracketed conv uninitialised fuel d threads).reaches h

/-- For any number of threads that call any functions of the `db_*.c` files, and every order of
their calls of the provider: what is reached is also reached by taking each `dbp_exec` and
each query with its fetches up to its reset in one piece, where the query that has the lock
is run to its end. When all have finished nobody has it. -/
theorem provider_serializable (h : ThreadsReach q build past conv uninitialised fuel d threads s) :
    Reaches (Sys.atomicStep (provider q build past)) anyStep
      (started d fun i => calls build conv uninitialised fuel (threads i))
      (s.finish (provider q build past)) ∧
    ((∀ i, s.Finished i) → s.finish (provider q build past) = s) := by
  refine ⟨Sys.atomic_of_reaches (started_wellBracketed conv uninitialised fuel d threads) rfl h,
    fun hall => Sys.finish_of_free ?_⟩
  by_contra howner
  obtain ⟨i, hi⟩ := Option.ne_none_iff_exists'.mp howner
  obtain ⟨a, ha⟩ := hall i
  have hbracketed := h.wellBracketed i
  rw [ha] at hbracketed
  simp [Bracketed, hi] at hbracketed

theorem ThreadsReach.consistent
    (h : ThreadsReach q build past conv uninitialised fuel d threads s) : Consistent q s := by
  have hstart : Consistent q (started (κ := κ) d fun i =>
      calls build conv uninitialised fuel (threads i)) := ⟨by nofun, by nofun⟩
  have hboth := h.invariant (P := fun s => s.WellBracketed (provider q build past) ∧ Consistent q s)
    ⟨started_wellBracketed conv uninitialised fuel d threads, hstart⟩
    fun hs _ hstep => ⟨hs.1.step hstep, hs.2.step hs.1 hstep⟩
  exact hboth.2

/-- For any number of threads and every order of their calls: the rows that a query has fetched
are the first rows of its statement in the database as it was when the query took the lock,
and all of them if a fetch has failed. While a query has the lock nobody has changed the
database. -/
theorem reads_are_snapshots (h : ThreadsReach q build past conv uninitialised fuel d threads s) :
    (∀ i, ∀ r ∈ (s.thread i).own.reads, r.Snapshot q) ∧
    ∀ i, s.owner = some i → ∃ r, (s.thread i).own.reads.getLast? = some r ∧ r.db = s.shared.db := by
  refine ⟨h.consistent.reads, fun i howner => ?_⟩
  obtain ⟨pre, r, hreads, hdb, -⟩ := h.consistent.current i howner
  exact ⟨r, by simp [hreads], hdb⟩

/-- What a thread returns is what its loops do. -/
theorem ThreadsReach.noted
    (h : ThreadsReach q build past conv uninitialised fuel d threads s) (hends : q.Ends fuel) :
    s.Noted Fetched.rows rowsAfter (· < fuel) fun ended _ => ended = true := by
  have hboth := h.invariant (P := fun s =>
      ThreadsReach q build past conv uninitialised fuel d threads s ∧
        s.Noted Fetched.rows rowsAfter (· < fuel) fun ended _ => ended = true)
    ⟨.refl, fun i => bounded_calls conv uninitialised fuel (threads i)⟩
    fun {s i s'} hs _ hstep => by
      have hs' : ThreadsReach q build past conv uninitialised fuel d threads s' :=
        Reaches.tail hs.1 trivial hstep
      refine ⟨hs', hs.2.step hstep (fun _ _ hrest => ?_) (hs'.consistent.rows_lt hends i)⟩
      exact hs.1.consistent.rows_run hs.1.wellBracketed hrest
  exact hboth.2

/-- As long as one of the threads has something left to do, one of them can go on, and any
number of them can be brought to their ends. If `fuel` is more than a query can have rows, their
loops over the rows have all come to the row that is not there. -/
theorem provider_never_stuck (hends : q.Ends fuel)
    (h : ThreadsReach q build past conv uninitialised fuel d threads s) :
    ((∃ i, ¬ s.Finished i) → ∃ j s', s.step (provider q build past) j = some s') ∧
    ∀ ids : List ι, ∃ s', Reaches (Sys.step (provider q build past)) anyStep s s' ∧
      s'.owner = none ∧ ∀ i ∈ ids, (s'.thread i).rest = .ret true := by
  refine ⟨fun ⟨i, hi⟩ => h.wellBracketed.exists_step hi, fun ids => ?_⟩
  obtain ⟨s', hreach, hfree, hdone⟩ := h.wellBracketed.exists_finished ids
  have h' : ThreadsReach q build past conv uninitialised fuel d threads s' := Reaches.trans h hreach
  refine ⟨s', hreach, hfree, fun i hi => ?_⟩
  obtain ⟨ended, hret⟩ := hdone i hi
  have hended := h'.noted hends i
  rw [hret] at hended
  rw [hret, show ended = true from hended]

end Threads

/-! ## Two threads -/

/-- A database with one table; a statement has the rows that it has not gone past. -/
def oneTable : Sqlite3 (List (List CString)) (List (List CString)) where
  prepare _ d := some ([] :: d)
  step
    | _ :: row :: rows, _ => (.row, row :: rows)
    | _, _ => (.done, [])
  columns k := k.headD []
  exec _ _ := (true, [])

abbrev TwoThreads : Type :=
  Sys DbpOp DbpOp.Result Bool (Fetched (List (List CString)))
    (SqliteParam (List (List CString)) (List (List CString))) Bool

def annCells : List CString := [lit "ann", lit "1", lit "tea", lit "", lit ""]

/-- One thread asks for `ann` while the other empties a table. -/
def askAndReset : Bool → List DbFunction
  | false => [.accountGetOne (lit "ann") true]
  | true => [.dishReset]

/-- The first thread has fetched a row and has the lock. -/
theorem askAndReset_reach : ∃ s : TwoThreads,
    ThreadsReach oneTable .debug noRow ⟨fun _ => 0, fun _ => 0⟩ 0 0 [annCells] askAndReset s ∧
      s.owner = some false ∧ s.step (provider oneTable .debug noRow) true = none ∧
        (s.thread false).own.reads.map (·.rows) = [[annCells]] :=
  ⟨_, .head (e := false) trivial rfl (.head (e := false) trivial rfl
    (.head (e := false) trivial rfl .refl)), rfl, rfl, by decide⟩

theorem provider_serializable_askAndReset :
    ∃ s : TwoThreads,
      ThreadsReach oneTable .debug noRow ⟨fun _ => 0, fun _ => 0⟩ 0 0 [annCells] askAndReset s ∧
      s.owner = some false ∧
      Reaches (Sys.atomicStep (provider oneTable .debug noRow)) anyStep
        (started [annCells] fun i => calls .debug ⟨fun _ => 0, fun _ => 0⟩ 0 0 (askAndReset i))
        (s.finish (provider oneTable .debug noRow)) := by
  obtain ⟨s, hreach, howner, -⟩ := askAndReset_reach
  exact ⟨s, hreach, howner, (provider_serializable hreach).1⟩

/-- The same with three rows at most. -/
def shortTable : Sqlite3 (List (List CString)) (List (List CString)) :=
  { oneTable with prepare := fun _ d => some ([] :: d.take 3) }

theorem shortTable_ends : shortTable.Ends 4 := by
  rintro ⟨text, d, rows, ended⟩ ⟨found, hfetches, -⟩
  change Fetches shortTable _ d (opened shortTable text d) rows found at hfetches
  -- the rows that were found and those that are left
  suffices h : rows.length ≤ 3 ∧ (found.1 = .row → ∃ k, found.2 = some k ∧
      0 < k.length ∧ rows.length + k.length ≤ 3) by
    have hlength := h.1
    change rows.length < 4
    omega
  have hstep : ∀ {k : List (List CString)} {n : ℕ}, n + k.length ≤ 4 →
      (shortTable.stepStmt (some k) d).1 = .row →
      ∃ k', (shortTable.stepStmt (some k) d).2 = some k' ∧ 0 < k'.length ∧ n + k'.length ≤ 3 := by
    intro k n hk hrow
    match k with
    | [] | [_] => cases hrow
    | _ :: row :: rest =>
      refine ⟨row :: rest, rfl, by simp, ?_⟩
      simp only [List.length_cons] at hk ⊢
      omega
  induction hfetches with
  | nil => exact ⟨by simp, hstep (by simp)⟩
  | snoc _ hrow ih =>
    obtain ⟨k, hk, hpos, hlength⟩ := ih.2 hrow
    rw [hk, List.length_append, List.length_singleton]
    exact ⟨by omega, hstep (by omega)⟩

/-- One thread reads all accounts while the other empties a table. -/
def listAndReset : Bool → List DbFunction
  | false => [.accountGet]
  | true => [.dishReset]

/-- The first thread has the lock and reads, the second waits. Both come to their ends. -/
theorem provider_never_stuck_listAndReset :
    ∃ s s' : TwoThreads,
      ThreadsReach shortTable .debug noRow ⟨fun _ => 0, fun _ => 0⟩ 0 4 [annCells, annCells]
        listAndReset s ∧
      s.owner = some false ∧ s.step (provider shortTable .debug noRow) true = none ∧
      Reaches (Sys.step (provider shortTable .debug noRow)) anyStep s s' ∧
      s'.owner = none ∧ ∀ i ∈ [true, false], (s'.thread i).rest = .ret true := by
  obtain ⟨s, hreach, howner, hwait⟩ : ∃ s : TwoThreads,
      ThreadsReach shortTable .debug noRow ⟨fun _ => 0, fun _ => 0⟩ 0 4 [annCells, annCells]
        listAndReset s ∧
      s.owner = some false ∧ s.step (provider shortTable .debug noRow) true = none :=
    ⟨_, .head (e := false) trivial rfl (.head (e := false) trivial rfl .refl), rfl, rfl⟩
  obtain ⟨s', hreach', hfree, hdone⟩ :=
    (provider_never_stuck shortTable_ends hreach).2 [true, false]
  exact ⟨s, s', hreach, howner, hwait, hreach', hfree, hdone⟩

theorem reads_are_snapshots_askAndReset :
    ∃ s : TwoThreads,
      ThreadsReach oneTable .debug noRow ⟨fun _ => 0, fun _ => 0⟩ 0 0 [annCells] askAndReset s ∧
        (s.thread false).own.reads.map (·.rows) = [[annCells]] ∧
        ∀ r ∈ (s.thread false).own.reads, r.Snapshot oneTable := by
  obtain ⟨s, hreach, -, -, hrows⟩ := askAndReset_reach
  exact ⟨s, hreach, hrows, (reads_are_snapshots hreach).1 false⟩

end Youmenu.Server.Dbp
