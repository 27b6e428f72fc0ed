import Youmenu.Server.Handlers

/-!
# The account table: `db_account.c`

The functions build the text of an SQL statement with `sprintf` and do not escape
the strings in it. As long as these have no single quote, SQLite does what the
statement says. What it makes of other texts is left open.

## Main definitions

* `dbAccountGetOne`, `dbAccountPwdCheck`, … — the functions, on the rows of the table.
* `accountDb` — the database of the handlers with this table in it.
-/

namespace Youmenu.Server

open Eventpack

/-- What SQLite does with a statement that a quote has broken up. -/
structure BrokenSql where
  query : List UInt8 → List Account → List Account
  exec : List UInt8 → List Account → Bool × List Account

def QuoteFree (s : CString) : Bool := 0x27 ∉ s.bytes

theorem tolower_eq_quote {b : UInt8} : tolower b = 0x27 ↔ b = 0x27 := by
  unfold tolower
  split_ifs with hb
  · rw [UInt8.le_iff_toNat_le, UInt8.le_iff_toNat_le] at hb
    rw [← UInt8.toNat_inj, ← UInt8.toNat_inj]
    simp at hb ⊢
    omega
  · rfl

theorem quoteFree_wordToLower {s : CString} :
    QuoteFree (wordToLower s) = true ↔ QuoteFree s = true := by
  simp only [QuoteFree, decide_eq_true_eq, wordToLower, List.mem_map, tolower_eq_quote,
    exists_eq_right]

/-- A string between quotes. -/
def quoted (s : CString) : List UInt8 := 0x27 :: s.bytes ++ [0x27]

def sqlText (s : String) : List UInt8 := (lit s).bytes

/-- The decimal digits that `%d` prints. -/
def sqlInt (n : ℤ) : List UInt8 := sqlText (toString n)

section Table

variable (sql : BrokenSql) (encryptPwd : CString → CString) (rows : List Account)

def dbAccountGetOne (uid : CString) : Option Account :=
  if QuoteFree uid then rows.find? (·.uid = uid)
  else (sql.query (sqlText "SELECT * FROM t_db_account WHERE uid=" ++ quoted uid) rows).head?

def dbAccountPwdCheck (uid pwd : CString) : Bool :=
  let hashpwd := encryptPwd pwd
  if QuoteFree uid && QuoteFree hashpwd then rows.any fun a => a.uid = uid && a.pwd = hashpwd
  else sql.query (sqlText "SELECT * FROM t_db_account WHERE uid=" ++ quoted uid ++
    sqlText " AND pwd=" ++ quoted hashpwd) rows ≠ []

/-- The column `uid` is the primary key. -/
def dbAccountAdd (a : Account) : Bool × List Account :=
  let hashpwd := encryptPwd a.pwd
  if QuoteFree a.uid && QuoteFree hashpwd && QuoteFree a.nick && QuoteFree a.comment then
    if rows.any (·.uid = a.uid) then (false, rows)
    else (true, rows ++ [{ a with pwd := hashpwd }])
  else sql.exec (sqlText "INSERT INTO t_db_account (uid,type,pwd,nick,comment) VALUES (" ++
    quoted a.uid ++ sqlText "," ++ sqlInt a.type ++ sqlText "," ++ quoted hashpwd ++ sqlText "," ++
    quoted a.nick ++ sqlText "," ++ quoted a.comment ++ sqlText ")") rows

/-- `UPDATE t_db_account SET column='value' WHERE uid='…'`. -/
def updateColumn (column : String) (value uid : CString) (set : Account → Account) :
    Bool × List Account :=
  if QuoteFree value && QuoteFree uid then
    (true, rows.map fun a => if a.uid = uid then set a else a)
  else sql.exec (sqlText "UPDATE t_db_account SET " ++ sqlText column ++ sqlText "=" ++
    quoted value ++ sqlText " WHERE uid=" ++ quoted uid) rows

def dbAccountUpdatePwd (uid newPwd : CString) : Bool × List Account :=
  let hashpwd := encryptPwd newPwd
  updateColumn sql rows "pwd" hashpwd uid fun a => { a with pwd := hashpwd }

def dbAccountUpdateNick (uid nick : CString) : Bool × List Account :=
  updateColumn sql rows "nick" nick uid fun a => { a with nick := nick }

def dbAccountUpdateComment (uid comment : CString) : Bool × List Account :=
  updateColumn sql rows "comment" comment uid fun a => { a with comment := comment }

def dbAccountDel (uid : CString) : Bool × List Account :=
  if QuoteFree uid then (true, rows.filter (·.uid ≠ uid))
  else sql.exec (sqlText "DELETE FROM t_db_account WHERE uid=" ++ quoted uid) rows

end Table

/-- A database with a table of accounts, and `other` for the dishes, the seats and the
bookings. -/
def accountDb (sql : BrokenSql) (encryptPwd : CString → CString) {ρ : Type}
    (other : Db ρ) : Db (List Account × ρ)
  | .accountGetOne uid, d => (dbAccountGetOne sql d.1 uid, d)
  | .accountPwdCheck uid pwd, d => (dbAccountPwdCheck sql encryptPwd d.1 uid pwd, d)
  | .accountAdd a, d =>
    let r := dbAccountAdd sql encryptPwd d.1 a
    (r.1, r.2, d.2)
  | .accountUpdatePwd uid newPwd, d =>
    let r := dbAccountUpdatePwd sql encryptPwd d.1 uid newPwd
    (r.1, r.2, d.2)
  | .accountUpdateNick uid nick, d =>
    let r := dbAccountUpdateNick sql d.1 uid nick
    (r.1, r.2, d.2)
  | .accountUpdateComment uid comment, d =>
    let r := dbAccountUpdateComment sql d.1 uid comment
    (r.1, r.2, d.2)
  | .accountDel uid, d =>
    let r := dbAccountDel sql d.1 uid
    (r.1, r.2, d.2)
  | .accountGet, d => (d.1, d)
  | op, d =>
    let r := other op d.2
    (r.1, d.1, r.2)

/-! ## A small database -/

/-- A menu without dishes and a room without seats. -/
def emptyDb : Db Unit
  | .accountGetOne _, d => (none, d)
  | .accountGet, d => ([], d)
  | .dishGetByCategory _, d => ([], d)
  | .seatGet, d => ([], d)
  | .bookGet _, d => ([], d)
  | .accountPwdCheck _ _, d => (false, d)
  | .accountAdd _, d => (false, d)
  | .accountUpdatePwd _ _, d => (false, d)
  | .accountUpdateNick _ _, d => (false, d)
  | .accountUpdateComment _ _, d => (false, d)
  | .accountDel _, d => (false, d)
  | .dishGetOne _, d => (false, d)
  | .seatGetOne _, d => (false, d)
  | .bookAdd _ _ _ _, d => (true, d)
  | .bookDel _, d => (true, d)

/-- Statements that do not parse change nothing, and passwords are stored as they
are. -/
def smallDb : Db (List Account × Unit) :=
  accountDb ⟨fun _ _ => [], fun _ rows => (false, rows)⟩ id emptyDb

/-- The waiter `ann` with the password `tea`. -/
def ann : Account := ⟨accountMenu, lit "ann", lit "tea", lit "", lit ""⟩

def noJunk : Junk := ⟨fun _ => lit "", 0, 0, lit ""⟩

def loginRequest (fd : ℕ) (uid pwd : String) (junk : Junk) : Request :=
  ⟨.accountLogin, fd, some [⟨lit "uid", .string (lit uid)⟩, ⟨lit "pwd", .string (lit pwd)⟩], junk⟩

end Youmenu.Server
