import Youmenu.Server.Authentication
import Youmenu.Server.Records

/-!
# The functions of the `db_*.c` files as the handlers call them

What a handler gets from a function of the database is worked out by a program over the
provider: statements are sent, rows are fetched, and numbers are read from the text of columns.
Here SQLite has all four tables. On rows that fit into the fields of `public.h` the functions do
what `serverDb` says of them, and stay inside their rows and fields.

`db_book_get` releases its rows twice; what follows holds if the second release goes unnoticed.

## Main definitions

* `ServerTables`, `serverSqlite` — the tables, and what SQLite does with the statements.
* `function`, `call` — what the handlers call.
* `Fine` — what is asked of the arguments of a call.

## Main statements

* `call_agrees` — a call gives what `serverDb` gives.
-/

namespace Youmenu.Server.Dbp

open Eventpack PrimaryKey Program

/-! ## All tables -/

structure ServerTables extends Tables where
  books : List Book

/-- What the column `jin_or_plate` makes of an amount: the `double` that is printed, the value
of a new row from the text in its statement, and the text that a query gives. `rowid` numbers
the rows. -/
structure BookColumns where
  double : Amount → BitVec 64
  value : List UInt8 → BitVec 64
  text : BitVec 64 → CString
  rowid : List Book → BitVec 64

namespace BookColumns

variable (columns : BookColumns)

def cells (b : Book) : List CString :=
  [integer b.bookId, integer b.seatId, integer b.dishId, columns.text b.jinOrPlate, b.comment,
    integer b.acceptState]

/-- The row of a new booking. -/
def stored (rows : List Book) (b : Book) : Book :=
  { b with
    bookId := (columns.rowid rows).toInt
    jinOrPlate := columns.value (sqlFixed b.jinOrPlate) }

/-- What the handlers see of it. -/
def bookSql (conv : Atof) (exec : ℤ → ℤ → Amount → CString → List Book → Bool × List Book) :
    BookSql where
  bookId rows := (columns.rowid rows).toInt
  store jinOrPlate := columns.value (sqlFixed (columns.double jinOrPlate))
  load x := conv.atof (columns.text x)
  exec := exec

end BookColumns

namespace ServerTables

variable (t : ServerTables)

/-- The tables as the handlers see them. -/
def view : List Account × Menu × Unit :=
  (t.accounts.rows, ⟨t.dishes.rows, t.seats.rows, t.books⟩, ())

def changeAccount (uid : CString) (f : Account → Account) (hf : ∀ a, (f a).uid = a.uid) :
    ServerTables :=
  { t with toTables := t.updateAccount uid f hf }

/-- Enough for every loop over rows. -/
def rounds : ℕ :=
  t.accounts.rows.length + t.dishes.rows.length + t.seats.rows.length + t.books.length + 1

theorem rows_lt_rounds : t.accounts.rows.length < t.rounds ∧ t.dishes.rows.length < t.rounds ∧
    t.seats.rows.length < t.rounds ∧ t.books.length < t.rounds := by
  unfold rounds
  omega

end ServerTables

section Source

variable (sqlite : Sqlite) (columns : BookColumns) (build : Build)

def querySqlite : Statement → ServerTables → Answer × ServerTables
  | .bookCount seatId, t => (counted (t.books.filter (·.seatId = seatId)), t)
  | .bookSelect seatId, t =>
    (sqlite.select 6 columns.cells (t.books.filter (·.seatId = seatId)), t)
  | .bookGetOne bookId, t =>
    (sqlite.select 6 columns.cells (t.books.filter (·.bookId = bookId)), t)
  | st, t =>
    let r := (recordsDb sqlite build).query st t.toTables
    (r.1, { t with toTables := r.2 })

/-- `inf` and `nan` are no numbers of SQLite. -/
def execSqlite : Statement → ServerTables → Bool × ServerTables
  | .build (.bookAdd b), t =>
    if QuoteFree b.comment then
      if doubleExponent b.jinOrPlate = 2047 then (false, t)
      else (true, { t with books := t.books ++ [columns.stored t.books b] })
    else
      let r := sqlite.other.exec (.build (.bookAdd b)) t.toTables
      (r.1, { t with toTables := r.2 })
  | .bookDel bookId, t => (true, { t with books := t.books.filter (·.bookId ≠ bookId) })
  | st, t =>
    let r := (recordsDb sqlite build).exec st t.toTables
    (r.1, { t with toTables := r.2 })

/-- The bookings, and the other tables. -/
def serverSqlite : Database ServerTables :=
  ⟨querySqlite sqlite columns build, execSqlite sqlite columns build⟩

/-- The elements that a handler reads are as many as the function has returned. -/
def elements {ρ : Type} (r : Option (ℤ × List ρ)) : Option (List ρ) :=
  r.bind fun r => if r.1 = r.2.length then some r.2 else none

end Source

/-- SQLite, the C library, and what memory holds that has not been written. `past` is what a read
outside of a row finds, and the statements that a quote breaks up may do anything. -/
structure Backend where
  sqlite : Sqlite
  columns : BookColumns
  build : Build
  conv : Atof
  uninitialised : ℤ
  past : ℕ → ℕ → DbpRow
  broken : BrokenSql
  brokenBook : ℤ → ℤ → Amount → CString → List Book → Bool × List Book
  /-- The rows of a query come in the order of the table. -/
  scan_eq : ∀ {ρ : Type} (rows : List ρ), sqlite.scan rows = rows
  /-- `atof` reads the text of an `int`, and its value is converted back to it. -/
  atof_integer : ∀ n, IsInt n → conv.toInt (conv.atof (integer n)) = n
  /-- What is finite as a `float` is a number when it is printed. -/
  double_finite : ∀ jin : Amount, jin.finite → doubleExponent (columns.double jin) ≠ 2047

namespace Backend

variable (B : Backend)

def database : Database ServerTables := serverSqlite B.sqlite B.columns B.build

/-- The functions on tables. -/
def onTables : Db (List Account × Menu × Unit) :=
  serverDb B.broken (dbEncryptPwd B.build) (B.columns.bookSql B.conv B.brokenBook)

/-- What the handlers call. Where they pass no output to `db_account_get_one`, they look at the
same result. -/
def function (fuel : ℕ) : (op : DbOp) → Calls (Option op.Result)
  | .accountGetOne uid => do
    let r ← dbAccountGetOne uid true
    return if r.1 = 0 then some none else r.2.map some
  | .accountPwdCheck uid pwd => return some (← dbAccountPwdCheck B.build uid pwd)
  | .accountAdd account => return some (← dbAccountAdd B.build account)
  | .accountUpdatePwd uid newPwd => return some (← dbAccountUpdatePwd B.build uid newPwd)
  | .accountUpdateNick uid nick => return some (← dbAccountUpdateNick uid nick)
  | .accountUpdateComment uid comment => return some (← dbAccountUpdateComment uid comment)
  | .accountDel uid => return some (← dbAccountDel uid)
  | .accountGet => return elements (← dbAccountGet B.uninitialised fuel)
  | .dishGetByCategory category => do
    let r ← dbDishGetByCategory category B.uninitialised true fuel
    return (elements r).map (List.map (·.toDish))
  | .dishGetOne id => do
    let r ← dbDishGetOne id false
    return some (r.1 ≠ 0)
  | .seatGetOne id => do
    let r ← dbSeatGetOne id [] false
    return some (r.1 ≠ 0)
  | .seatGet => return elements (← dbSeatGet B.uninitialised fuel)
  | .bookAdd seatId dishId jinOrPlate comment => return some (← dbBookAdd
      ⟨B.uninitialised, seatId, dishId, B.columns.double jinOrPlate, comment, bookAcceptStateIdle⟩)
  | .bookDel bookId => return some (← dbBookDel bookId)
  | .bookGet seatId => return elements (← dbBookGet B.conv seatId B.uninitialised fuel)

/-- `none`: the loop has not ended, or the memory of the process is corrupted. -/
def call (op : DbOp) (t : ServerTables) : Option (op.Result × ServerTables) := do
  let (r, p) ← (B.function t.rounds op).exec (Provider.handle B.database B.past) (Provider.idle t)
  if p.stray || p.overflow then none else r.map (·, p.db)

end Backend

/-! ## The parts of the functions -/

section Parts

variable {δ : Type} {D : Database δ} {past : ℕ → ℕ → DbpRow} {β : Type} {b : β} {p : Calls β}
  {st : Statement} {db : δ} {s : Provider δ}

/-- The function returns `b` and leaves `db`, and has stayed inside its rows, its fields and its
array. -/
def Tidy (D : Database δ) (past : ℕ → ℕ → DbpRow) (p : Calls β) (b : β) (s : Provider δ) (db : δ) :
    Prop :=
  p.wp (Provider.handle D past)
    (fun r s' => r = b ∧ s'.db = db ∧ s'.stray = s.stray ∧ s'.overflow = s.overflow) s

theorem Tidy.bind {γ : Type} {c : γ} {db' : δ} {f : β → Calls γ} (hp : Tidy D past p b s db)
    (hf : ∀ s', s'.db = db → Tidy D past (f b) c s' db') : Tidy D past (p >>= f) c s db' := by
  refine wp_bind.mpr (hp.mono ?_)
  rintro _ s' ⟨rfl, hdb, hstray, hoverflow⟩
  refine (hf s' hdb).mono ?_
  rintro _ s'' ⟨rfl, hdb', hstray', hoverflow'⟩
  exact ⟨rfl, hdb', hstray'.trans hstray, hoverflow'.trans hoverflow⟩

theorem tidy_ret (b : β) (s : Provider δ) : Tidy D past (.ret b) b s s.db := ⟨rfl, rfl, rfl, rfl⟩

theorem Tidy.map {γ : Type} (hp : Tidy D past p b s db) (f : β → γ) :
    Tidy D past (p >>= fun r => .ret (f r)) (f b) s db :=
  hp.bind fun s' hdb => hdb ▸ tidy_ret (f b) s'

theorem tidy_exec {ok : Bool} (hexec : D.exec st s.db = (ok, db)) :
    Tidy D past (dbpExec st) ok s db := by
  have hop : Provider.handle D past (.exec st) s = some (ok, s.execed db) := by
    rw [Provider.handle, hexec]
  exact (wp_call hop).mpr ⟨rfl, rfl, rfl, rfl⟩

/-- The hash fits into its buffer. -/
theorem tidy_hashed {build : Build} {pwd : CString}
    (hsize : (dbEncryptPwd build pwd).bytes.length ≤ 40) (hp : Tidy D past p b s db) :
    Tidy D past (encryptPwd build pwd >>= fun _ => p) b s db :=
  wp_bind.mpr (storeField_wp (by omega) hp)

theorem tidy_existsRow {a : Answer} (hquery : D.query st s.db = (a, db)) :
    Tidy D past (existsRow st) (decide (a.rows ≠ [])) s db := by
  refine existsRow_wp hquery ⟨?_, rfl, rfl, rfl⟩
  by_cases hrows : a.rows = []
  · cases herror : a.error <;> simp [Answer.ret, hrows, herror]
  · simp [Answer.ret, hrows]

/-- At most one row is found. -/
theorem tidy_getOne {ρ : Type} {cells : ρ → List CString} {n : ℕ} {read : ℕ → Calls ρ}
    {found : Option ρ} (hquery : D.query st s.db = (⟨n, found.toList.map cells, false⟩, db))
    (hread : ∀ r ∈ found, (cells r).length = n ∧ Reads D past read (cells r) r) :
    Tidy D past (getOne st n read true) (if found.isSome then 1 else 0, found) s db := by
  cases found with
  | none =>
    refine withRows_wp hquery (fun _ => ⟨rfl, rfl, rfl, rfl⟩) fun hrows _ => ?_
    simp at hrows
  | some r =>
    obtain ⟨hlength, hread⟩ := hread r rfl
    refine withRows_wp hquery (fun hfailed => ?_) fun _ _ => readRow_wp rfl (wp_bind.mpr ?_)
    · simp at hfailed
    · refine (hread _ _ (Provider.at_fetched hlength.symm)).mono ?_
      rintro _ _ ⟨rfl, rfl⟩
      exact ⟨rfl, rfl, rfl, rfl⟩

/-- Without an output the function only says whether there is a row. -/
theorem tidy_found {ρ : Type} {found : Bool} {n : ℕ} {read : ℕ → Calls ρ}
    (hexists : Tidy D past (existsRow st) found s db) :
    Tidy D past (getOne st n read false >>= fun r => .ret (some (decide (r.1 ≠ 0)))) (some found) s
      db := by
  have htidy := (hexists.map fun found => ((if found then 1 else 0 : ℤ), (none : Option ρ))).map
    fun r => some (decide (r.1 ≠ 0))
  cases found <;> exact htidy

/-! ### Lists -/

/-- The body of a loop reads a row into an element of the array, and leaves the rest. -/
def Fills (D : Database δ) (past : ℕ → ℕ → DbpRow) (body : ℤ → ℕ → ℕ → Calls β)
    (cells : List CString) (b : β) : Prop :=
  ∀ (count : ℤ) (i : ℕ) (s : Provider δ) row, (i : ℤ) < count → s.At row cells →
    (body count i row).wp (Provider.handle D past) (fun r s' => r = b ∧ s'.db = s.db ∧
      s'.cursor = s.cursor ∧ s'.fields = s.fields ∧ s'.stray = s.stray ∧
      s'.overflow = s.overflow) s

/-- The index is one of the array. -/
theorem element_wp {f : Unit → Calls β} {Q : β → Provider δ → Prop} {count : ℤ} {i : ℕ}
    (hi : (i : ℤ) < count) (hf : (f ()).wp (Provider.handle D past) Q s) :
    (arrayElement count i >>= f).wp (Provider.handle D past) Q s := by
  have helement : Provider.handle D past (.element count i) s = some ((), s) := by
    rw [Provider.handle, decide_eq_false (not_le.mpr hi), Bool.or_false]
  exact wp_op helement hf

theorem fills_fillElement {ρ : Type} {read : ℕ → Calls ρ} {cells : List CString} {r : ρ}
    (hread : Reads D past read cells r) : Fills D past (fillElement · read) cells r := by
  intro count i s row hi hat
  refine element_wp hi (wp_bind.mpr ((hread s row hat).mono ?_))
  rintro _ _ ⟨rfl, rfl⟩
  exact wp_op rfl ⟨rfl, rfl, rfl, rfl, rfl, rfl⟩

/-- A row that is released once more. -/
theorem Fills.twice {body : ℤ → ℕ → ℕ → Calls β} {cells : List CString}
    (hbody : Fills D past body cells b) :
    Fills D past (fun count i row => do
      let b ← body count i row
      dbpFetchRowFree row
      return b) cells b := by
  intro count i s row hi hat
  refine wp_bind.mpr ((hbody count i s row hi hat).mono ?_)
  rintro _ s' ⟨rfl, hleft⟩
  refine wp_op rfl ?_
  exact ⟨rfl, hleft⟩

variable {ρ : Type} {cells : ρ → List CString} {f : ρ → β} {n : ℕ} {body : ℤ → ℕ → ℕ → Calls β}
  {rs : List ρ}

theorem tidy_fetchRows {count : ℤ}
    (hbody : ∀ r ∈ rs, (cells r).length = n ∧ Fills D past body (cells r) (f r)) {i : ℕ}
    (hcount : (i + rs.length : ℕ) ≤ count) {fuel : ℕ} (hfuel : rs.length < fuel) {s : Provider δ}
    (hcursor : s.cursor = rs.map cells) (hfields : s.fields = n) :
    Tidy D past (fetchRows (body count) fuel i) (some (rs.map f)) s s.db := by
  induction rs generalizing i fuel s with
  | nil =>
    obtain ⟨fuel, rfl⟩ := Nat.exists_eq_succ_of_ne_zero (Nat.ne_of_gt hfuel)
    have hfetch : Provider.handle D past .fetchRow s = some (none, s.log .fetchFailed) := by
      rw [Provider.handle, hcursor]
      rfl
    exact wp_op hfetch ⟨rfl, rfl, rfl, rfl⟩
  | cons r rs ih =>
    obtain ⟨fuel, rfl⟩ := Nat.exists_eq_succ_of_ne_zero (by omega : fuel ≠ 0)
    obtain ⟨hlength, hfills⟩ := hbody r List.mem_cons_self
    rw [List.length_cons] at hcount hfuel
    refine wp_op (by rw [Provider.handle, hcursor]; rfl) (wp_bind.mpr ?_)
    have hi : (i : ℤ) < count := by omega
    refine (hfills count i _ _ hi (Provider.at_fetched (hfields.trans hlength.symm))).mono ?_
    rintro _ s' ⟨rfl, hdb, hcursor', hfields', hstray, hoverflow⟩
    have hrest : Tidy D past (fetchRows (body count) fuel (i + 1)) (some (rs.map f)) s' s'.db :=
      ih (fun r hr => hbody r (List.mem_cons_of_mem _ hr)) (by omega) (by omega) hcursor'
        (hfields'.trans hfields)
    refine wp.mono (hrest.map _) ?_
    rintro _ s'' ⟨rfl, hdb', hstray', hoverflow'⟩
    exact ⟨rfl, hdb'.trans hdb, hstray'.trans hstray, hoverflow'.trans hoverflow⟩

/-- A list function that counts the rows which it selects. -/
theorem tidy_getRows {counting : Statement} {rs : List ρ} {s : Provider δ}
    (hcounting : D.query counting s.db = (counted rs, s.db))
    (hquery : D.query st s.db = (⟨n, rs.map cells, false⟩, s.db)) (hint : rs.length < 2 ^ 31)
    (hbody : ∀ r ∈ rs, (cells r).length = n ∧ Fills D past body (cells r) (f r))
    (uninitialised : ℤ) {fuel : ℕ} (hfuel : rs.length < fuel) :
    Tidy D past (getRows counting uninitialised st n body fuel)
      (some (rs.length, rs.map f)) s s.db := by
  have hread : atoiText (integer rs.length) = rs.length := atoiText_integer ⟨by omega, by omega⟩
  have hcount : (counted rs).count = if (rs.length : ℤ) = 0 then none else some ↑rs.length := by
    simp only [Answer.count, counted, if_true, List.getD_cons_zero, hread]
  refine wp_bind.mpr ((countRows_wp uninitialised hcounting).mono ?_)
  rintro r s₁ ⟨hr, hdb, ⟨hstray, hoverflow⟩, -⟩
  rw [hr, hcount]
  cases rs with
  | nil => exact ⟨rfl, hdb, hstray, hoverflow⟩
  | cons r rs =>
    rw [if_neg (by simp; omega)]
    refine withRows_wp (hdb ▸ hquery) (fun hfailed => ?_) fun _ _ => ?_
    · simp at hfailed
    · refine wp_bind.mpr (wp.mono (tidy_fetchRows hbody (by simp) hfuel rfl rfl) ?_)
      rintro _ s₂ ⟨rfl, hdb', hstray', hoverflow'⟩
      exact ⟨rfl, hdb'.trans hdb, hstray'.trans hstray, hoverflow'.trans hoverflow⟩

/-- All rows are there for the handler, which makes `g` of them. -/
theorem tidy_elements {γ : Type} {counting : Statement} {rs : List ρ} {s : Provider δ}
    (hcounting : D.query counting s.db = (counted rs, s.db))
    (hquery : D.query st s.db = (⟨n, rs.map cells, false⟩, s.db)) (hint : rs.length < 2 ^ 31)
    (hbody : ∀ r ∈ rs, (cells r).length = n ∧ Fills D past body (cells r) (f r))
    (uninitialised : ℤ) {fuel : ℕ} (hfuel : rs.length < fuel) (g : Option (List β) → γ) :
    Tidy D past (getRows counting uninitialised st n body fuel >>= fun r => .ret (g (elements r)))
      (g (some (rs.map f))) s s.db := by
  have hrows : elements (some ((rs.length : ℤ), rs.map f)) = some (rs.map f) := by
    simp [elements]
  have htidy := tidy_getRows hcounting hquery hint hbody uninitialised hfuel
  exact hrows ▸ htidy.map fun r => g (elements r)

end Parts

/-! ## What fits -/

/-- The value of an `INTEGER` column. -/
def IsLong (n : ℤ) : Prop := -2 ^ 63 ≤ n ∧ n < 2 ^ 63

theorem isLong_toInt (x : BitVec 64) : IsLong x.toInt := ⟨x.le_toInt, x.toInt_lt⟩

theorem strtol_integer {n : ℤ} (hn : IsLong n) : strtol (integer n) = n := by
  obtain ⟨hlow, hhigh⟩ := hn
  cases n with
  | ofNat n => exact (strtol_integer_natCast n).trans (by simp at hhigh ⊢; omega)
  | negSucc n => exact (strtol_integer_negSucc n).trans (by omega)

/-- What is left of a large number that is read from its text. -/
theorem atoiText_long {n : ℤ} (hn : IsLong n) : atoiText (integer n) = atoi n := by
  rw [atoiText, strtol_integer hn]

structure BookFits (b : Book) : Prop where
  bookId : IsLong b.bookId
  seatId : IsLong b.seatId
  dishId : IsLong b.dishId
  comment : b.comment.bytes.length < 256
  acceptState : IsInt b.acceptState

section Rows

variable {δ : Type} {D : Database δ} {past : ℕ → ℕ → DbpRow}

theorem longColumn_wp {β : Type} {f : ℤ → Calls β} {Q : β → Provider δ → Prop} {n : ℤ}
    {s : Provider δ} {row i : ℕ} {cells : List CString} (hat : s.At row cells)
    (hi : cells[i]? = some (integer n)) (hn : IsLong n)
    (hf : (f (atoi n)).wp (Provider.handle D past) Q s) :
    (intColumn row i >>= f).wp (Provider.handle D past) Q s := by
  refine wp_bind.mpr (intColumn_wp (hat.readable hi) ?_)
  rwa [atoiText_long hn]

theorem reads_book (B : Backend) {b : Book} (hb : BookFits b) :
    Reads D past (readBook B.conv) (B.columns.cells b)
      (Server.readBook (B.columns.bookSql B.conv B.brokenBook) b) := by
  intro s row hat
  refine longColumn_wp hat rfl hb.bookId (longColumn_wp hat rfl hb.seatId ?_)
  refine longColumn_wp hat rfl hb.dishId (rowColumn_wp hat rfl ?_)
  refine copyColumn_wp hat rfl hb.comment (rowColumn_wp hat rfl ⟨?_, rfl⟩)
  rw [Server.readBook, B.atof_integer _ hb.acceptState, atoi_eq_self hb.acceptState]
  rfl

end Rows

namespace ServerTables

/-- All rows fit into the fields that they are read to. -/
structure Fits (t : ServerTables) : Prop extends t.toTables.Fits where
  books : ∀ b ∈ t.books, BookFits b

end ServerTables

/-- The numbers of rows are values of an `int`. -/
structure Countable (d : List Account × Menu × Unit) : Prop where
  accounts : d.1.length < 2 ^ 31
  dishes : d.2.1.dishes.length < 2 ^ 31
  seats : d.2.1.seats.length < 2 ^ 31
  books : d.2.1.books.length < 2 ^ 31

/-- The password can be hashed into its buffer, and put into a statement. -/
def Hashable (build : Build) (pwd : CString) : Prop :=
  QuoteFree (dbEncryptPwd build pwd) ∧ (dbEncryptPwd build pwd).bytes.length ≤ 40

/-- No quote breaks the statement of a call, and what it writes fits. -/
def Fine (build : Build) : DbOp → Prop
  | .accountGetOne uid | .accountDel uid => QuoteFree uid
  | .accountPwdCheck uid pwd | .accountUpdatePwd uid pwd => QuoteFree uid ∧ Hashable build pwd
  | .accountAdd a => AccountFits a ∧ wordToLower a.uid = a.uid ∧ QuoteFree a.uid ∧
      Hashable build a.pwd ∧ QuoteFree a.nick ∧ QuoteFree a.comment
  | .accountUpdateNick uid nick => QuoteFree uid ∧ QuoteFree nick ∧ nick.bytes.length < 65
  | .accountUpdateComment uid comment =>
    QuoteFree uid ∧ QuoteFree comment ∧ comment.bytes.length < 257
  | .bookAdd seatId dishId jinOrPlate comment => IsLong seatId ∧ IsLong dishId ∧
    jinOrPlate.finite ∧ QuoteFree comment ∧ comment.bytes.length < 256
  | .accountGet | .dishGetByCategory _ | .dishGetOne _ | .seatGetOne _ | .seatGet | .bookDel _
  | .bookGet _ => True

/-- The call may add a row. -/
def Grows : DbOp → Prop
  | .accountAdd _ | .bookAdd _ _ _ _ => True
  | _ => False

/-! ## What SQLite does -/

section Sqlite

variable {B : Backend} {t : ServerTables} {st : Statement}

theorem records_query {a : Answer} (hquery : t.toTables.query B.sqlite B.build st = some a)
    (hwhole : st.Whole B.build) : B.database.query st t = (a, t) := by
  have hrecords := recordsDb_query hquery hwhole
  cases st with
  | bookCount | bookSelect | bookGetOne => cases hquery
  | _ => exact congrArg (fun r : Answer × Tables => (r.1, { t with toTables := r.2 })) hrecords

theorem records_exec {r : Bool × Tables} (hexec : t.toTables.exec B.build st = some r)
    (hwhole : st.Whole B.build) : B.database.exec st t = (r.1, { t with toTables := r.2 }) := by
  have hrecords : (recordsDb B.sqlite B.build).exec st t.toTables = r := recordsDb_exec hexec hwhole
  cases st with
  | bookDel => cases hexec
  | build b =>
    cases b with
    | bookAdd => cases hexec
    | _ => exact congrArg (fun r : Bool × Tables => (r.1, { t with toTables := r.2 })) hrecords
  | _ => exact congrArg (fun r : Bool × Tables => (r.1, { t with toTables := r.2 })) hrecords

theorem select_rows {ρ : Type} (n : ℕ) (cells : ρ → List CString) (rows : List ρ) :
    B.sqlite.select n cells rows = ⟨n, rows.map cells, false⟩ := by
  rw [Sqlite.select, B.scan_eq]

theorem select_found {ρ κ : Type} [DecidableEq κ] {key : ρ → κ} (table : Table key) (k : κ) (n : ℕ)
    (cells : ρ → List CString) :
    B.sqlite.select n cells (table.rows.filter fun r => key r = k) =
      ⟨n, (table.find k).toList.map cells, false⟩ := by
  rw [select_rows, Table.filter_key]

/-- What an existence query finds. -/
theorem select_any {ρ : Type} (n : ℕ) (cells : ρ → List CString) (rows : List ρ) (p : ρ → Bool) :
    decide ((B.sqlite.select n cells (rows.filter p)).rows ≠ []) = rows.any p := by
  rw [Bool.eq_iff_iff, decide_eq_true_iff, select_rows, Ne, List.map_eq_nil_iff]
  simp

end Sqlite

/-! ## Calls -/

section Calls

variable {B : Backend} {op : DbOp} {t t' : ServerTables}

variable (B) in
/-- The call gives what it gives on tables, and rows that fit; it does not make more of them if
it is not there for that. -/
def Backend.CallAgrees (op : DbOp) (t : ServerTables) : Prop :=
  ∃ t', B.call op t = some ((B.onTables op t.view).1, t') ∧ t'.view = (B.onTables op t.view).2 ∧
    t'.Fits ∧ (¬ Grows op → Countable t'.view)

theorem call_of_tidy {r : op.Result}
    (htidy : Tidy B.database B.past (B.function t.rounds op) (some r) (.idle t) t') :
    B.call op t = some (r, t') := by
  obtain ⟨_, p, hexec, rfl, rfl, hstray, hoverflow⟩ := wp_iff_exec.mp htidy
  have hinside : (p.stray || p.overflow) = false := by
    rw [hstray, hoverflow]
    rfl
  simp only [Backend.call, hexec, Option.bind_eq_bind, Option.bind_some, hinside,
    Bool.false_eq_true, if_false, Option.map_some]

theorem agrees_of_tidy {r : op.Result}
    (htidy : Tidy B.database B.past (B.function t.rounds op) (some r) (.idle t) t')
    (hdb : B.onTables op t.view = (r, t'.view)) (hfits : t'.Fits)
    (hcount : ¬ Grows op → Countable t'.view) : B.CallAgrees op t := by
  refine ⟨t', ?_, ?_, hfits, hcount⟩
  · rw [call_of_tidy htidy, hdb]
  · rw [hdb]

/-! ### Accounts -/

variable (hfits : t.Fits)

include hfits

theorem agrees_accountGetOne (hcount : Countable t.view) {uid : CString} (huid : QuoteFree uid) :
    B.CallAgrees (.accountGetOne uid) t := by
  have hwhole : (Statement.build (.accountGetOne uid)).Whole B.build :=
    fun _ hs => List.mem_singleton.mp hs ▸ huid
  have hquery : B.database.query (.build (.accountGetOne uid)) t =
      (⟨5, (t.accounts.find uid).toList.map accountCells, false⟩, t) := by
    rw [records_query rfl hwhole, select_found]
  have hread : ∀ a ∈ t.accounts.find uid, (accountCells a).length = 5 ∧
      Reads B.database B.past readAccount (accountCells a) a :=
    fun a ha => ⟨rfl, reads_account (hfits.accounts a (Table.find_eq_some_iff.mp ha).1)⟩
  have htidy := (tidy_getOne (s := .idle t) hquery hread).map fun r =>
    if r.1 = 0 then some none else r.2.map some
  have hfound : (if (if (t.accounts.find uid).isSome then (1 : ℤ) else 0) = 0 then some none
      else (t.accounts.find uid).map some) = some (t.accounts.find uid) := by
    cases t.accounts.find uid <;> rfl
  rw [hfound] at htidy
  refine agrees_of_tidy htidy ?_ hfits fun _ => hcount
  simp only [Backend.onTables, accountDb, Server.dbAccountGetOne, huid, if_true, ServerTables.view,
    Table.find]

theorem agrees_accountPwdCheck (hcount : Countable t.view) {uid pwd : CString}
    (huid : QuoteFree uid) (hpwd : Hashable B.build pwd) :
    B.CallAgrees (.accountPwdCheck uid pwd) t := by
  have hwhole : (Statement.build (.accountPwdCheck uid pwd)).Whole B.build := by
    intro s hs
    rcases List.mem_append.mp hs with hs | hs
    · exact List.mem_singleton.mp hs ▸ huid
    · exact Builder.quoteFree_dbEncryptPwd.mp hpwd.1 s hs
  let found (a : Account) : Bool := a.uid = uid ∧ a.pwd = dbEncryptPwd B.build pwd
  have hquery : B.database.query (.build (.accountPwdCheck uid pwd)) t =
      (B.sqlite.select 5 accountCells (t.accounts.rows.filter found), t) := records_query rfl hwhole
  have htidy : Tidy B.database B.past (dbAccountPwdCheck B.build uid pwd)
      (t.accounts.rows.any found) (.idle t) t :=
    select_any 5 accountCells t.accounts.rows found ▸ tidy_hashed hpwd.2 (tidy_existsRow hquery)
  refine agrees_of_tidy (htidy.map some) ?_ hfits fun _ => hcount
  simp only [Backend.onTables, accountDb, Server.dbAccountPwdCheck, huid, hpwd.1, Bool.and_true,
    if_true, ServerTables.view, found, Bool.decide_and]

theorem agrees_accountAdd {a : Account} (ha : AccountFits a) (hlower : wordToLower a.uid = a.uid)
    (huid : QuoteFree a.uid) (hpwd : Hashable B.build a.pwd) (hnick : QuoteFree a.nick)
    (hcomment : QuoteFree a.comment) : B.CallAgrees (.accountAdd a) t := by
  have hwhole : (Statement.build (.accountAdd a)).Whole B.build := by
    have hinserted := Builder.quoteFree_dbEncryptPwd.mp hpwd.1
    simp only [Statement.Whole, Builder.inserted, List.forall_mem_append, List.forall_mem_cons]
    exact ⟨⟨⟨huid, List.forall_mem_nil _⟩, hinserted⟩, hnick, hcomment, List.forall_mem_nil _⟩
  let r := t.accounts.insert (stored B.build a)
  let t' : ServerTables := { t with accounts := r.2 }
  have hexec : B.database.exec (.build (.accountAdd a)) t = (r.1, t') := records_exec rfl hwhole
  have htidy : Tidy B.database B.past (dbAccountAdd B.build a) r.1 (.idle t) t' :=
    tidy_hashed hpwd.2 (tidy_exec hexec)
  refine agrees_of_tidy (htidy.map some) ?_ ⟨⟨?_, hfits.dishes, hfits.seats⟩, hfits.books⟩
    (absurd trivial)
  · have hstored : stored B.build a = { a with pwd := dbEncryptPwd B.build a.pwd } := by
      rw [stored, hlower]
    have hkey : a.uid ∈ t.accounts.rows.map Account.uid ↔
        t.accounts.rows.any (·.uid = a.uid) = true := by simp
    simp only [Backend.onTables, accountDb, Server.dbAccountAdd, huid, hpwd.1, hnick, hcomment,
      Bool.and_true, if_true, ServerTables.view, t', r, Table.insert, hstored, hkey]
    split_ifs <;> rfl
  · intro x hx
    rcases Table.mem_insert.mp hx with hx | ⟨-, rfl⟩
    · exact hfits.accounts x hx
    · exact ha.stored B.build

/-- The rows of a user are changed. -/
theorem agrees_update (hcount : Countable t.view) {op : DbOp} {ok : op.Result} {uid : CString}
    {f : Account → Account} {hf : ∀ a, (f a).uid = a.uid}
    (htidy : Tidy B.database B.past (B.function t.rounds op) (some ok) (.idle t)
      (t.changeAccount uid f hf)) (hfit : ∀ a, AccountFits a → AccountFits (f a))
    (hdb : B.onTables op t.view =
      (ok, t.accounts.rows.map (fun a => if a.uid = uid then f a else a), t.view.2)) :
    B.CallAgrees op t := by
  refine agrees_of_tidy htidy hdb ⟨⟨?_, hfits.dishes, hfits.seats⟩, hfits.books⟩ fun _ => ?_
  · intro x hx
    obtain ⟨a, ha, rfl⟩ := List.mem_map.mp hx
    split_ifs
    · exact hfit a (hfits.accounts a ha)
    · exact hfits.accounts a ha
  · refine ⟨?_, hcount.dishes, hcount.seats, hcount.books⟩
    exact (List.length_map _).trans_lt hcount.accounts

theorem agrees_accountUpdatePwd (hcount : Countable t.view) {uid newPwd : CString}
    (huid : QuoteFree uid) (hpwd : Hashable B.build newPwd) :
    B.CallAgrees (.accountUpdatePwd uid newPwd) t := by
  have hwhole : (Statement.build (.accountUpdatePwd uid newPwd)).Whole B.build := by
    intro s hs
    rcases List.mem_append.mp hs with hs | hs
    · exact Builder.quoteFree_dbEncryptPwd.mp hpwd.1 s hs
    · exact List.mem_singleton.mp hs ▸ huid
  have htidy : Tidy B.database B.past (dbAccountUpdatePwd B.build uid newPwd) true (.idle t)
      (t.changeAccount uid (fun a => { a with pwd := dbEncryptPwd B.build newPwd }) fun _ => rfl) :=
    tidy_hashed hpwd.2 (tidy_exec (records_exec rfl hwhole))
  refine agrees_update hfits hcount (htidy.map some) (fun a ha => ?_) ?_
  · have hsize : (dbEncryptPwd B.build newPwd).bytes.length < 129 := hpwd.2.trans_lt (by decide)
    exact { ha with pwd := hsize }
  · simp only [Backend.onTables, accountDb, Server.dbAccountUpdatePwd, updateColumn, hpwd.1, huid,
      Bool.and_true, if_true, ServerTables.view]

theorem agrees_accountUpdateNick (hcount : Countable t.view) {uid nick : CString}
    (huid : QuoteFree uid) (hnick : QuoteFree nick) (hsize : nick.bytes.length < 65) :
    B.CallAgrees (.accountUpdateNick uid nick) t := by
  have hwhole : (Statement.build (.accountUpdateNick uid nick)).Whole B.build := by
    simpa [Statement.Whole, Builder.inserted] using ⟨hnick, huid⟩
  have htidy : Tidy B.database B.past (dbAccountUpdateNick uid nick) true (.idle t)
      (t.changeAccount uid (fun a => { a with nick := nick }) fun _ => rfl) :=
    tidy_exec (records_exec rfl hwhole)
  refine agrees_update hfits hcount (htidy.map some) (fun a ha => { ha with nick := hsize }) ?_
  simp only [Backend.onTables, accountDb, Server.dbAccountUpdateNick, updateColumn, hnick, huid,
    Bool.and_true, if_true, ServerTables.view]

theorem agrees_accountUpdateComment (hcount : Countable t.view) {uid comment : CString}
    (huid : QuoteFree uid) (hcomment : QuoteFree comment) (hsize : comment.bytes.length < 257) :
    B.CallAgrees (.accountUpdateComment uid comment) t := by
  have hwhole : (Statement.build (.accountUpdateComment uid comment)).Whole B.build := by
    simpa [Statement.Whole, Builder.inserted] using ⟨hcomment, huid⟩
  have htidy : Tidy B.database B.past (dbAccountUpdateComment uid comment) true (.idle t)
      (t.changeAccount uid (fun a => { a with comment := comment }) fun _ => rfl) :=
    tidy_exec (records_exec rfl hwhole)
  refine agrees_update hfits hcount (htidy.map some) (fun a ha => { ha with comment := hsize }) ?_
  simp only [Backend.onTables, accountDb, Server.dbAccountUpdateComment, updateColumn, hcomment,
    huid, Bool.and_true, if_true, ServerTables.view]

theorem agrees_accountDel (hcount : Countable t.view) {uid : CString} (huid : QuoteFree uid) :
    B.CallAgrees (.accountDel uid) t := by
  have hwhole : (Statement.build (.accountDel uid)).Whole B.build :=
    fun _ hs => List.mem_singleton.mp hs ▸ huid
  have htidy : Tidy B.database B.past (dbAccountDel uid) true (.idle t)
      { t with accounts := t.accounts.delete uid } := tidy_exec (records_exec rfl hwhole)
  refine agrees_of_tidy (htidy.map some) ?_ ⟨⟨?_, hfits.dishes, hfits.seats⟩, hfits.books⟩
    fun _ => ?_
  · simp only [Backend.onTables, accountDb, Server.dbAccountDel, huid, if_true, ServerTables.view,
      Table.delete]
  · exact fun a ha => hfits.accounts a (Table.mem_delete.mp ha).1
  · refine ⟨?_, hcount.dishes, hcount.seats, hcount.books⟩
    exact (List.length_filter_le _ _).trans_lt hcount.accounts

section Lists

variable (hcount : Countable t.view)

include hcount

theorem agrees_accountGet : B.CallAgrees .accountGet t := by
  have hcounting : B.database.query .accountCount t = (counted t.accounts.rows, t) := rfl
  have hquery : B.database.query .accountSelect t =
      (⟨5, t.accounts.rows.map accountCells, false⟩, t) :=
    congrArg (·, t) (select_rows 5 accountCells t.accounts.rows)
  have hbody : ∀ a ∈ t.accounts.rows, (accountCells a).length = 5 ∧
      Fills B.database B.past (fillElement · readAccount) (accountCells a) a :=
    fun a ha => ⟨rfl, fills_fillElement (reads_account (hfits.accounts a ha))⟩
  have htidy := tidy_elements (f := fun a => a) (s := .idle t) hcounting hquery hcount.accounts
    hbody B.uninitialised t.rows_lt_rounds.1 id
  rw [List.map_id'] at htidy
  exact agrees_of_tidy htidy rfl hfits fun _ => hcount

theorem agrees_dishGetByCategory (category : ℤ) : B.CallAgrees (.dishGetByCategory category) t := by
  let rows := t.dishes.rows.filter (·.category = category)
  have hlength : rows.length ≤ t.dishes.rows.length := List.length_filter_le _ _
  have hcounting : B.database.query (.dishCount category) t = (counted rows, t) := rfl
  have hquery : B.database.query (.dishSelect category) t =
      (⟨8, rows.map fun d => dishCells (B.sqlite.created d) d, false⟩, t) :=
    congrArg (·, t) (select_rows 8 (fun d => dishCells (B.sqlite.created d) d) rows)
  have hbody : ∀ d ∈ rows, (dishCells (B.sqlite.created d) d).length = 8 ∧
      Fills B.database B.past (fillElement · readDish) (dishCells (B.sqlite.created d) d) d :=
    fun d hd => ⟨rfl, fills_fillElement (reads_dish (hfits.dishes d (List.mem_of_mem_filter hd)) _)⟩
  have htidy := tidy_elements (f := fun d => d) (s := .idle t) hcounting hquery
    (hlength.trans_lt hcount.dishes) hbody B.uninitialised (hlength.trans_lt t.rows_lt_rounds.2.1)
    (Option.map (List.map (·.toDish)))
  rw [List.map_id'] at htidy
  exact agrees_of_tidy htidy rfl hfits fun _ => hcount

theorem agrees_seatGet : B.CallAgrees .seatGet t := by
  have hcounting : B.database.query .seatCount t = (counted t.seats.rows, t) := rfl
  have hquery : B.database.query .seatSelect t =
      (⟨3, t.seats.rows.map seatCells, false⟩, t) :=
    congrArg (·, t) (select_rows 3 seatCells t.seats.rows)
  have hbody : ∀ s ∈ t.seats.rows, (seatCells s).length = 3 ∧
      Fills B.database B.past (fillElement · readSeat) (seatCells s) s :=
    fun s hs => ⟨rfl, fills_fillElement (reads_seat (hfits.seats s hs))⟩
  have htidy := tidy_elements (f := fun s => s) (s := .idle t) hcounting hquery hcount.seats hbody
    B.uninitialised t.rows_lt_rounds.2.2.1 id
  rw [List.map_id'] at htidy
  exact agrees_of_tidy htidy rfl hfits fun _ => hcount

theorem agrees_bookGet (seatId : ℤ) : B.CallAgrees (.bookGet seatId) t := by
  let rows := t.books.filter (·.seatId = seatId)
  have hlength : rows.length ≤ t.books.length := List.length_filter_le _ _
  have hcounting : B.database.query (.bookCount seatId) t = (counted rows, t) := rfl
  have hquery : B.database.query (.bookSelect seatId) t =
      (⟨6, rows.map B.columns.cells, false⟩, t) :=
    congrArg (·, t) (select_rows 6 B.columns.cells rows)
  have hread : ∀ b ∈ rows, Reads B.database B.past (readBook B.conv)
      (B.columns.cells b) (Server.readBook (B.columns.bookSql B.conv B.brokenBook) b) :=
    fun b hb => reads_book B (hfits.books b (List.mem_of_mem_filter hb))
  have htidy := tidy_elements (s := .idle t) hcounting hquery (hlength.trans_lt hcount.books)
    (fun b hb => ⟨rfl, (fills_fillElement (hread b hb)).twice⟩) B.uninitialised
    (hlength.trans_lt t.rows_lt_rounds.2.2.2) id
  exact agrees_of_tidy htidy rfl hfits fun _ => hcount

end Lists

/-! ### Dishes, seats and bookings -/

theorem agrees_dishGetOne (hcount : Countable t.view) (id : ℤ) :
    B.CallAgrees (.dishGetOne id) t := by
  have hquery : B.database.query (.dishGetOne id) t =
      (B.sqlite.select 8 (fun d => dishCells (B.sqlite.created d) d)
        (t.dishes.rows.filter (·.id = id)), t) := rfl
  have htidy : Tidy B.database B.past (existsRow (.dishGetOne id))
      (t.dishes.rows.any (·.id = id)) (.idle t) t := select_any 8 _ _ _ ▸ tidy_existsRow hquery
  exact agrees_of_tidy (tidy_found htidy) rfl hfits fun _ => hcount

theorem agrees_seatGetOne (hcount : Countable t.view) (id : ℤ) :
    B.CallAgrees (.seatGetOne id) t := by
  have hquery : B.database.query (.seatGetOne id) t =
      (B.sqlite.select 3 seatCells (t.seats.rows.filter (·.id = id)), t) := rfl
  have htidy : Tidy B.database B.past (existsRow (.seatGetOne id))
      (t.seats.rows.any (·.id = id)) (.idle t) t := select_any 3 _ _ _ ▸ tidy_existsRow hquery
  exact agrees_of_tidy (tidy_found htidy) rfl hfits fun _ => hcount

theorem agrees_bookAdd {seatId dishId : ℤ} {jinOrPlate : Amount} {comment : CString}
    (hseat : IsLong seatId) (hdish : IsLong dishId) (hjin : jinOrPlate.finite)
    (hcomment : QuoteFree comment) (hsize : comment.bytes.length < 256) :
    B.CallAgrees (.bookAdd seatId dishId jinOrPlate comment) t := by
  let b : Book := ⟨B.uninitialised, seatId, dishId, B.columns.double jinOrPlate, comment,
    bookAcceptStateIdle⟩
  have hexec : B.database.exec (.build (.bookAdd b)) t =
      (true, { t with books := t.books ++ [B.columns.stored t.books b] }) :=
    (if_pos hcomment).trans (if_neg (B.double_finite jinOrPlate hjin))
  have htidy : Tidy B.database B.past (dbBookAdd b) true (.idle t)
      { t with books := t.books ++ [B.columns.stored t.books b] } := tidy_exec hexec
  refine agrees_of_tidy (htidy.map some) ?_ ⟨hfits.toFits, ?_⟩ (absurd trivial)
  · simp only [Backend.onTables, accountDb, menuDb, dbBookAdd_of_finite hcomment hjin,
      ServerTables.view]
    rfl
  · intro x hx
    rcases List.mem_append.mp hx with hx | hx
    · exact hfits.books x hx
    · obtain rfl := List.mem_singleton.mp hx
      have hidle : IsInt bookAcceptStateIdle := ⟨by decide, by decide⟩
      exact ⟨isLong_toInt _, hseat, hdish, hsize, hidle⟩

theorem agrees_bookDel (hcount : Countable t.view) (bookId : ℤ) :
    B.CallAgrees (.bookDel bookId) t := by
  have htidy : Tidy B.database B.past (dbBookDel bookId) true (.idle t)
      { t with books := t.books.filter (·.bookId ≠ bookId) } := tidy_exec rfl
  refine agrees_of_tidy (htidy.map some) rfl ⟨hfits.toFits, ?_⟩ fun _ => ?_
  · exact fun b hb => hfits.books b (List.mem_of_mem_filter hb)
  · refine ⟨hcount.accounts, hcount.dishes, hcount.seats, ?_⟩
    exact (List.length_filter_le _ _).trans_lt hcount.books

omit hfits in
/-- A call whose arguments are fine, on rows that fit, gives what `serverDb` gives. -/
theorem call_agrees (hfits : t.Fits) (hcount : Countable t.view) {op : DbOp}
    (hfine : Fine B.build op) : B.CallAgrees op t := by
  cases op with
  | accountGetOne uid => exact agrees_accountGetOne hfits hcount hfine
  | accountPwdCheck uid pwd => exact agrees_accountPwdCheck hfits hcount hfine.1 hfine.2
  | accountAdd a =>
    obtain ⟨ha, hlower, huid, hpwd, hnick, hcomment⟩ := hfine
    exact agrees_accountAdd hfits ha hlower huid hpwd hnick hcomment
  | accountUpdatePwd uid newPwd => exact agrees_accountUpdatePwd hfits hcount hfine.1 hfine.2
  | accountUpdateNick uid nick =>
    exact agrees_accountUpdateNick hfits hcount hfine.1 hfine.2.1 hfine.2.2
  | accountUpdateComment uid comment =>
    exact agrees_accountUpdateComment hfits hcount hfine.1 hfine.2.1 hfine.2.2
  | accountDel uid => exact agrees_accountDel hfits hcount hfine
  | accountGet => exact agrees_accountGet hfits hcount
  | dishGetByCategory category => exact agrees_dishGetByCategory hfits hcount category
  | dishGetOne id => exact agrees_dishGetOne hfits hcount id
  | seatGetOne id => exact agrees_seatGetOne hfits hcount id
  | seatGet => exact agrees_seatGet hfits hcount
  | bookAdd seatId dishId jinOrPlate comment =>
    obtain ⟨hseat, hdish, hjin, hcomment, hsize⟩ := hfine
    exact agrees_bookAdd hfits hseat hdish hjin hcomment hsize
  | bookDel bookId => exact agrees_bookDel hfits hcount bookId
  | bookGet seatId => exact agrees_bookGet hfits hcount seatId

end Calls

end Youmenu.Server.Dbp
