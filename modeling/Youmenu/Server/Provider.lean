import Youmenu.Lib.Program
import Youmenu.Server.Bookings
import Youmenu.Server.Sql

/-!
# The database provider, and the `db_*.c` files on top of it

Every function of the `db_*.c` files is a program over the operations of the provider. A
query takes the lock of the provider and `dbp_query_reset` gives it back; each row is
allocated when it is fetched. Reads of a column and writes to a field of fixed size are
operations as well, so that a run shows whether they stay inside.

What the statements do is left to a `Database`, which may also change between two calls.

## Main definitions

* `Statement`, `Statement.text` — what is sent to the provider.
* `DbpOp`, `Provider`, `Provider.handle` — the operations, and what they do.
* `Db.Function` and its programs — the functions, under their names in the source.
-/

namespace Youmenu.Server.Dbp

open Eventpack

/-! ## Statements -/

inductive DbTable where
  | account
  | dish
  | seat
  | book
deriving DecidableEq

/-- The statements; those with strings in them are the ones of `Builder`. -/
inductive Statement where
  | create (table : DbTable)
  | truncate (table : DbTable)
  | build (b : Builder)
  | accountCount
  | accountSelect
  | dishDel (id : ℤ)
  | dishCount (category : ℤ)
  | dishSelect (category : ℤ)
  | dishGetOne (id : ℤ)
  | seatDel (id : ℤ)
  | seatCount
  | seatSelect
  | seatGetOne (id : ℤ)
  | bookDel (bookId : ℤ)
  | bookGetOne (bookId : ℤ)
  | bookCount (seatId : ℤ)
  | bookSelect (seatId : ℤ)
  | bookModifyBook (number seatId dishId : ℤ)
  | bookModifyAccept (number seatId dishId : ℤ)

namespace Statement

/-- `query_sql`. -/
def format : Statement → String
  | create .account => "CREATE TABLE IF NOT EXISTS t_db_account (uid TEXT PRIMARY KEY," ++
    "type INTEGER,pwd TEXT,nick TEXT,comment TEXT)"
  | create .dish => "CREATE TABLE IF NOT EXISTS t_db_dish (id INTEGER PRIMARY KEY," ++
    "category INTEGER,name TEXT,summary TEXT,thumbnail TEXT,price_type INTEGER,price INTEGER," ++
    "created TIMESTAMPE NOT NULL DEFAULT (datetime('now','localtime')))"
  | create .seat =>
    "CREATE TABLE IF NOT EXISTS t_db_seat (id INTEGER PRIMARY KEY,summary TEXT,qrcode TEXT)"
  | create .book => "CREATE TABLE IF NOT EXISTS t_db_book (book_id INTEGER PRIMARY KEY," ++
    "seat_id INTEGER,dish_id INTEGER,jin_or_plate REAL,comment TEXT,accept_state int)"
  | truncate .account => "TRUNCATE TABLE t_db_account"
  | truncate .dish => "TRUNCATE TABLE t_db_dish"
  | truncate .seat => "TRUNCATE TABLE t_db_seat"
  | truncate .book => "TRUNCATE TABLE t_db_book"
  | build b => b.format
  | accountCount => "SELECT count(*) as count FROM t_db_account"
  | accountSelect => "SELECT * FROM t_db_account"
  | dishDel _ => "DELETE FROM t_db_dish WHERE id='%d'"
  | dishCount _ => "SELECT count(*) as count FROM t_db_dish WHERE category=%d"
  | dishSelect _ => "SELECT * FROM t_db_dish WHERE category=%d"
  | dishGetOne _ => "SELECT * FROM t_db_dish WHERE id=%d"
  | seatDel _ => "DELETE FROM t_db_seat WHERE id='%d'"
  | seatCount => "SELECT count(*) as count FROM t_db_seat"
  | seatSelect => "SELECT * FROM t_db_seat"
  | seatGetOne _ => "SELECT * FROM t_db_seat WHERE id=%d"
  | bookDel _ => "DELETE FROM t_db_book WHERE book_id=%d"
  | bookGetOne _ => "SELECT book_id,seat_id,dish_id,jin_or_plate,comment,accept_state FROM " ++
    "t_db_book WHERE book_id=%d"
  | bookCount _ => "SELECT count(*) as count FROM t_db_book WHERE seat_id = %d"
  | bookSelect _ => "SELECT book_id,seat_id,dish_id,jin_or_plate,comment,accept_state FROM " ++
    "t_db_book WHERE seat_id = %d"
  | bookModifyBook _ _ _ => "UPDATE t_db_book SET book_numbers=%d WHERE seat_id=%d AND dish_id=%d"
  | bookModifyAccept _ _ _ =>
    "UPDATE t_db_book SET accept_numbers=%d WHERE seat_id=%d AND dish_id=%d"

/-- What is passed to `sprintf`. -/
def args (build : Build) : Statement → List SprintfArg
  | .build b => b.args build
  | create _ | truncate _ | accountCount | accountSelect | seatCount | seatSelect => []
  | dishDel n | dishCount n | dishSelect n | dishGetOne n | seatDel n | seatGetOne n | bookDel n
  | bookGetOne n | bookCount n | bookSelect n => [.int n]
  | bookModifyBook number seatId dishId | bookModifyAccept number seatId dishId =>
    [.int number, .int seatId, .int dishId]

/-- The statement in `sqlbuf`. -/
def text (build : Build) (s : Statement) : List UInt8 := sprintf s.format (s.args build)

end Statement

/-! ## The operations -/

inductive DbpQueryRet where
  | done
  | row
  | error
deriving DecidableEq

/-- `dbp_row_t`. -/
structure DbpRow where
  data : CString
  length : ℤ

inductive DbpOp where
  | exec (s : Statement)
  | query (s : Statement)
  | numFields
  | fetchRow
  | fetchRowFree (row : ℕ)
  | queryReset
  /-- A read of `row[i]`. -/
  | column (row i : ℕ)
  /-- `strncpy` into a field of the size, with the terminator behind it. -/
  | store (size : ℕ) (value : CString)
  /-- A write to the element of an array of the length. -/
  | element (count : ℤ) (i : ℕ)

/-- A row is given by its address. -/
abbrev DbpOp.Result : DbpOp → Type
  | exec _ => Bool
  | query _ => DbpQueryRet
  | numFields => ℕ
  | fetchRow => Option ℕ
  | fetchRowFree _ | queryReset | store _ _ | element _ _ => Unit
  | column _ _ => DbpRow

/-- The calls that the provider sees, with what becomes of the rows. -/
inductive DbpCall where
  | exec
  | query
  | fetched (row : ℕ)
  | fetchFailed
  | freed (row : ℕ)
  | reset
deriving DecidableEq

/-- The result set of a query: it ends, or it breaks off with an error. -/
structure Answer where
  fields : ℕ
  rows : List (List CString)
  error : Bool

structure Database (δ : Type) where
  query : Statement → δ → Answer × δ
  exec : Statement → δ → Bool × δ

/-- The provider, and what has happened so far. -/
structure Provider (δ : Type) where
  db : δ
  fields : ℕ
  /-- The rows of the present query that are still to be fetched. -/
  cursor : List (List CString)
  /-- The rows that have been fetched and not been freed. -/
  live : List (ℕ × List CString)
  fresh : ℕ
  calls : List DbpCall
  /-- A column was read outside of its row. -/
  stray : Bool
  /-- A string was too long for its field, or an index for its array. -/
  overflow : Bool

/-- What `dbp_query` returns: the first row has been looked for. -/
def Answer.ret (a : Answer) : DbpQueryRet :=
  if a.rows ≠ [] then .row else if a.error then .error else .done

namespace Provider

variable {δ : Type} (p : Provider δ)

def log (call : DbpCall) : Provider δ := { p with calls := p.calls ++ [call] }

def execed (db : δ) : Provider δ := { p.log .exec with db := db }

/-- Without a row the number of fields is 0. -/
def queried (a : Answer) (db : δ) : Provider δ :=
  { p.log .query with db := db, fields := if a.rows = [] then 0 else a.fields, cursor := a.rows }

/-- A row is allocated, and the next one is looked for. -/
def fetched (row : List CString) (rows : List (List CString)) : Provider δ :=
  { p.log (.fetched p.fresh) with
    cursor := rows, live := (p.fresh, row) :: p.live, fresh := p.fresh + 1 }

def freed (row : ℕ) : Provider δ :=
  { p.log (.freed row) with live := p.live.filter (·.1 ≠ row) }

section Fields

variable (a : Answer) (db : δ) (row : List CString) (rows : List (List CString)) (n : ℕ)
  (call : DbpCall)

@[simp] theorem calls_log : (p.log call).calls = p.calls ++ [call] := rfl

@[simp] theorem calls_execed : (p.execed db).calls = p.calls ++ [.exec] := rfl

@[simp] theorem calls_queried : (p.queried a db).calls = p.calls ++ [.query] := rfl

@[simp] theorem calls_fetched : (p.fetched row rows).calls = p.calls ++ [.fetched p.fresh] := rfl

@[simp] theorem calls_freed : (p.freed n).calls = p.calls ++ [.freed n] := rfl

@[simp] theorem cursor_log : (p.log call).cursor = p.cursor := rfl

@[simp] theorem cursor_queried : (p.queried a db).cursor = a.rows := rfl

@[simp] theorem cursor_fetched : (p.fetched row rows).cursor = rows := rfl

@[simp] theorem cursor_freed : (p.freed n).cursor = p.cursor := rfl

@[simp] theorem fresh_log : (p.log call).fresh = p.fresh := rfl

@[simp] theorem fresh_queried : (p.queried a db).fresh = p.fresh := rfl

end Fields

/-- A column of a row that is there, among those of the query. -/
def readable (row i : ℕ) : Option CString :=
  match p.live.lookup row with
  | some cells => if i < p.fields then some (cells.getD i (lit "")) else none
  | none => none

variable (D : Database δ) (past : ℕ → ℕ → DbpRow)

/-- `past` is what a read outside of a row finds. -/
def handle : (op : DbpOp) → Provider δ → Option (op.Result × Provider δ)
  | .exec s, p =>
    let r := D.exec s p.db
    some (r.1, p.execed r.2)
  | .query s, p =>
    let r := D.query s p.db
    some (r.1.ret, p.queried r.1 r.2)
  | .numFields, p => some (p.fields, p)
  | .fetchRow, p =>
    match p.cursor with
    | [] => some (none, p.log .fetchFailed)
    | row :: rows => some (some p.fresh, p.fetched row rows)
  | .fetchRowFree row, p => some ((), p.freed row)
  | .queryReset, p => some ((), p.log .reset)
  | .column row i, p =>
    match p.readable row i with
    | some data => some (⟨data, data.bytes.length⟩, p)
    | none => some (past row i, { p with stray := true })
  | .store size value, p =>
    some ((), { p with overflow := p.overflow || size ≤ value.bytes.length })
  | .element count i, p => some ((), { p with overflow := p.overflow || count ≤ i })

/-- Before a function is called. -/
def idle (db : δ) : Provider δ := ⟨db, 0, [], [], 0, [], false, false⟩

end Provider

/-! ## Numbers in columns -/

/-- The decimal digits at the start. -/
def leadingNat (bs : List UInt8) : ℕ :=
  (bs.takeWhile fun b => 0x30 ≤ b && b ≤ 0x39).foldl (fun n b => 10 * n + (b.toNat - 0x30)) 0

/-- `strtol`, which stays within the range of a `long`. -/
def strtol (s : CString) : ℤ :=
  match s.bytes.dropWhile SqlText.isSpace with
  | 0x2d :: bs => max (-2 ^ 63) (-(leadingNat bs : ℤ))
  | 0x2b :: bs => min (2 ^ 63 - 1) (leadingNat bs)
  | bs => min (2 ^ 63 - 1) (leadingNat bs)

/-- `atoi` on the text of a column. -/
def atoiText (s : CString) : ℤ := atoi (strtol s)

theorem isInt_atoi (n : ℤ) : IsInt (atoi n) := by
  have hle := Int.le_bmod (x := n) (m := 2 ^ 32) (by decide)
  have hlt := Int.bmod_lt (x := n) (m := 2 ^ 32) (by decide)
  rw [IsInt, atoi]
  omega

/-! ## The parts that the functions have in common -/

/-- A program over the provider. -/
abbrev Calls := Program DbpOp DbpOp.Result

def dbpExec (s : Statement) : Calls Bool := .perform (R := DbpOp.Result) (.exec s)

def dbpQuery (s : Statement) : Calls DbpQueryRet := .perform (R := DbpOp.Result) (.query s)

def dbpNumFields : Calls ℕ := .perform (R := DbpOp.Result) .numFields

def dbpFetchRow : Calls (Option ℕ) := .perform (R := DbpOp.Result) .fetchRow

def dbpFetchRowFree (row : ℕ) : Calls Unit := .perform (R := DbpOp.Result) (.fetchRowFree row)

def dbpQueryReset : Calls Unit := .perform (R := DbpOp.Result) .queryReset

def rowColumn (row i : ℕ) : Calls DbpRow := .perform (R := DbpOp.Result) (.column row i)

def storeField (size : ℕ) (value : CString) : Calls Unit :=
  .perform (R := DbpOp.Result) (.store size value)

def arrayElement (count : ℤ) (i : ℕ) : Calls Unit :=
  .perform (R := DbpOp.Result) (.element count i)

/-- A string column, copied to a field of the size. -/
def copyColumn (row i size : ℕ) : Calls CString := do
  let c ← rowColumn row i
  storeField size c.data
  return c.data

def intColumn (row i : ℕ) : Calls ℤ := do
  let c ← rowColumn row i
  return atoiText c.data

/-- A query, a test of the number of its columns, and what is done with its rows. It is reset
on every way out. -/
def withRows {β : Type} (s : Statement) (n : ℕ) (failed : β) (found : Calls β) : Calls β := do
  let r ← dbpQuery s
  if r ≠ .row then
    dbpQueryReset
    return failed
  let fields ← dbpNumFields
  if fields ≠ n then
    dbpQueryReset
    return failed
  let b ← found
  dbpQueryReset
  return b

/-- A query that is only asked whether there is a row. -/
def existsRow (s : Statement) : Calls Bool := do
  let r ← dbpQuery s
  dbpQueryReset
  return r = .row

/-- The row of a query that has one; `absent` stands for a row that could not be fetched. -/
def readRow {β : Type} (absent : β) (read : ℕ → Calls β) : Calls β := do
  let row ← dbpFetchRow
  match row with
  | none => return absent
  | some row =>
    let b ← read row
    dbpFetchRowFree row
    return b

/-- The loop over the rows. `none` is a loop that has not ended. -/
def fetchRows {β : Type} (body : ℕ → ℕ → Calls β) : ℕ → ℕ → Calls (Option (List β))
  | 0, _ => return none
  | fuel + 1, i => do
    let row ← dbpFetchRow
    match row with
    | none => return some []
    | some row =>
      let b ← body i row
      let bs ← fetchRows body fuel (i + 1)
      return bs.map (b :: ·)

/-- A row goes to the element of the array, and is released. -/
def fillElement {β : Type} (count : ℤ) (read : ℕ → Calls β) (i row : ℕ) : Calls β := do
  arrayElement count i
  let b ← read row
  dbpFetchRowFree row
  return b

/-- The first half of the list functions: `none` where they return 0 with it. -/
def countRows (s : Statement) (uninitialised : ℤ) : Calls (Option ℤ) := do
  let count ← withRows s 1 0 (readRow uninitialised (intColumn · 0))
  return if count = 0 then none else some count

/-- The second half. -/
def selectRows {β : Type} (s : Statement) (n : ℕ) (count : ℤ) (body : ℕ → ℕ → Calls β)
    (fuel : ℕ) : Calls (Option (ℤ × List β)) :=
  withRows s n (some (0, [])) do
    let rows ← fetchRows body fuel 0
    return rows.map (count, ·)

/-- A list function: the count, and the elements that were filled in. -/
def getRows {β : Type} (counting : Statement) (uninitialised : ℤ) (s : Statement) (n : ℕ)
    (body : ℤ → ℕ → ℕ → Calls β) (fuel : ℕ) : Calls (Option (ℤ × List β)) := do
  let count ← countRows counting uninitialised
  match count with
  | none => return some (0, [])
  | some count => selectRows s n count (body count) fuel

/-- A function that looks for one row; `out` says that there is an output. -/
def getOne {β : Type} (s : Statement) (n : ℕ) (read : ℕ → Calls β) (out : Bool) :
    Calls (ℤ × Option β) :=
  if out then
    withRows s n (0, none) (readRow (1, none) fun row => do
      let b ← read row
      return (1, some b))
  else do
    let found ← existsRow s
    return (if found then 1 else 0, none)

/-! ## The functions -/

section Functions

variable (build : Build)

/-- The hash goes to a buffer of its own. -/
def encryptPwd (pwd : CString) : Calls CString := do
  storeField 41 (dbEncryptPwd build pwd)
  return dbEncryptPwd build pwd

/-! ### `db_account.c` -/

def dbAccountInit : Calls Bool := dbpExec (.create .account)

def dbAccountReset : Calls Bool := dbpExec (.truncate .account)

def dbAccountAdd (a : Account) : Calls Bool := do
  let _ ← encryptPwd build a.pwd
  dbpExec (.build (.accountAdd a))

def readAccount (row : ℕ) : Calls Account := do
  let uid ← copyColumn row 0 17
  let type ← intColumn row 1
  let pwd ← copyColumn row 2 129
  let nick ← copyColumn row 3 65
  let comment ← copyColumn row 4 257
  return ⟨type, uid, pwd, nick, comment⟩

def dbAccountGetOne (uid : CString) (out : Bool) : Calls (ℤ × Option Account) :=
  getOne (.build (.accountGetOne uid)) 5 readAccount out

def dbAccountGet (uninitialised : ℤ) (fuel : ℕ) : Calls (Option (ℤ × List Account)) :=
  getRows .accountCount uninitialised .accountSelect 5 (fillElement · readAccount) fuel

def dbAccountPwdCheck (uid pwd : CString) : Calls Bool := do
  let _ ← encryptPwd build pwd
  existsRow (.build (.accountPwdCheck uid pwd))

def dbAccountUpdatePwd (uid newPwd : CString) : Calls Bool := do
  let _ ← encryptPwd build newPwd
  dbpExec (.build (.accountUpdatePwd uid newPwd))

def dbAccountUpdateNick (uid nick : CString) : Calls Bool :=
  dbpExec (.build (.accountUpdateNick uid nick))

def dbAccountUpdateComment (uid comment : CString) : Calls Bool :=
  dbpExec (.build (.accountUpdateComment uid comment))

def dbAccountDel (uid : CString) : Calls Bool := dbpExec (.build (.accountDel uid))

/-! ### `db_dish.c` -/

def dbDishInit : Calls Bool := dbpExec (.create .dish)

def dbDishReset : Calls Bool := dbpExec (.truncate .dish)

def dbDishAdd (d : DishRow) : Calls Bool := dbpExec (.build (.dishAdd d.toDish d.thumbnail))

def dbDishDel (id : ℤ) : Calls Bool := dbpExec (.dishDel id)

def readDish (row : ℕ) : Calls DishRow := do
  let id ← intColumn row 0
  let category ← intColumn row 1
  let name ← copyColumn row 2 65
  let summary ← copyColumn row 3 257
  let thumbnail ← copyColumn row 4 65
  let priceType ← intColumn row 5
  let price ← intColumn row 6
  return ⟨⟨id, category, name, summary, priceType, price⟩, thumbnail⟩

/-- Without an output nothing is fetched. -/
def dbDishGetByCategory (category : ℤ) (uninitialised : ℤ) (out : Bool) (fuel : ℕ) :
    Calls (Option (ℤ × List DishRow)) :=
  if out then
    getRows (.dishCount category) uninitialised (.dishSelect category) 8 (fillElement · readDish)
      fuel
  else do
    let count ← countRows (.dishCount category) uninitialised
    match count with
    | none => return some (0, [])
    | some count =>
      let found ← existsRow (.dishSelect category)
      return some (if found then count else 0, [])

/-- The number of columns is compared with 1. -/
def dbDishGetOne (id : ℤ) (out : Bool) : Calls (ℤ × Option DishRow) :=
  getOne (.dishGetOne id) 1 readDish out

/-! ### `db_seat.c` -/

def dbSeatInit : Calls Bool := dbpExec (.create .seat)

def dbSeatReset : Calls Bool := dbpExec (.truncate .seat)

def dbSeatAdd (s : Seat) : Calls Bool := dbpExec (.build (.seatAdd s))

def dbSeatDel (id : ℤ) : Calls Bool := dbpExec (.seatDel id)

def readSeat (row : ℕ) : Calls Seat := do
  let id ← intColumn row 0
  let summary ← copyColumn row 1 257
  let qrcode ← copyColumn row 2 65
  return ⟨id, summary, qrcode⟩

def dbSeatGet (uninitialised : ℤ) (fuel : ℕ) : Calls (Option (ℤ × List Seat)) :=
  getRows .seatCount uninitialised .seatSelect 3 (fillElement · readSeat) fuel

/-- The terminator of the summary goes to the index that is found at `row[3].length`; `old` is
what the field of the output held before. -/
def readSeatOne (old : List UInt8) (row : ℕ) : Calls Seat := do
  let id ← intColumn row 0
  let summary ← rowColumn row 1
  storeField 257 summary.data
  let stray ← rowColumn row 3
  let field := summary.data.bytes ++ old.drop summary.data.bytes.length
  let field := if 0 ≤ stray.length then field.set stray.length.toNat 0 else field
  let qrcode ← copyColumn row 2 65
  return ⟨id, .read field, qrcode⟩

def dbSeatGetOne (id : ℤ) (old : List UInt8) (out : Bool) : Calls (ℤ × Option Seat) :=
  getOne (.seatGetOne id) 3 (readSeatOne old) out

/-! ### `db_book.c` -/

/-- `atof` and the conversion of its result to an `int`. -/
structure Atof where
  atof : CString → BitVec 64
  toInt : BitVec 64 → ℤ

variable (conv : Atof)

def dbBookInit : Calls Bool := dbpExec (.create .book)

def dbBookReset : Calls Bool := dbpExec (.truncate .book)

def dbBookAdd (b : Book) : Calls Bool := dbpExec (.build (.bookAdd b))

def dbBookDel (bookId : ℤ) : Calls Bool := dbpExec (.bookDel bookId)

def readBook (row : ℕ) : Calls Book := do
  let bookId ← intColumn row 0
  let seatId ← intColumn row 1
  let dishId ← intColumn row 2
  let jinOrPlate ← rowColumn row 3
  let comment ← copyColumn row 4 256
  let acceptState ← rowColumn row 5
  return ⟨bookId, seatId, dishId, conv.atof jinOrPlate.data, comment,
    conv.toInt (conv.atof acceptState.data)⟩

/-- The rows are read in a loop, each over the one before. -/
def dbBookGetOne (bookId : ℤ) (out : Bool) (fuel : ℕ) : Calls (Option (ℤ × Option Book)) :=
  if out then do
    let books ← selectRows (.bookGetOne bookId) 6 1
      (fun _ row => do
        let b ← readBook conv row
        dbpFetchRowFree row
        return b) fuel
    return books.map fun r => (r.1, r.2.getLast?)
  else do
    let found ← existsRow (.bookGetOne bookId)
    return some (if found then 1 else 0, none)

/-- Each row is released twice. -/
def dbBookGet (seatId : ℤ) (uninitialised : ℤ) (fuel : ℕ) : Calls (Option (ℤ × List Book)) :=
  getRows (.bookCount seatId) uninitialised (.bookSelect seatId) 6
    (fun count i row => do
      let b ← fillElement count (readBook conv) i row
      dbpFetchRowFree row
      return b) fuel

def dbBookModifyBook (seatId dishId number : ℤ) : Calls Bool :=
  dbpExec (.bookModifyBook number seatId dishId)

def dbBookModifyAccept (seatId dishId number : ℤ) : Calls Bool :=
  dbpExec (.bookModifyAccept number seatId dishId)

end Functions

end Youmenu.Server.Dbp
