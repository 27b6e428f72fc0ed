import Youmenu.Lib.PrimaryKey
import Youmenu.Server.Cursor

/-!
# Records through the database

What is added to the tables of the accounts, the dishes and the seats is to be found there
again. A dish is never found, as the number of its columns is compared with 1, and a seat is
found with a terminator that the length of a missing column places.

## Main definitions

* `Tables`, `recordsDb` — the tables, and what SQLite does with the statements.
* `Edits` — the tables after additions and deletions.
* `Clean` — the result of a run that stays inside its rows and fields.
* `Check`, `Check.Holds` — what is asked of the functions.

## Main statements

* `recordsRead_iff` — when it holds.
-/

namespace Youmenu.Server.Dbp

open Eventpack PrimaryKey Program

/-! ## Numbers in columns -/

theorem atoi_eq_self {n : ℤ} (hn : IsInt n) : atoi n = n := by
  obtain ⟨hlow, hhigh⟩ := hn
  rw [atoi, Int.bmod_eq_iff (by decide)]
  omega

/-- The text of a column of numbers. -/
def integer (n : ℤ) : CString := lit (toString n)

/-- Its digits. -/
def digits (n : ℕ) : List UInt8 := (Nat.toDigits 10 n).map fun c => UInt8.ofNat c.toNat

theorem toNat_digit {c : Char} (hc : c.isDigit) :
    48 ≤ c.toNat ∧ c.toNat ≤ 57 ∧ (UInt8.ofNat c.toNat).toNat = c.toNat := by
  obtain ⟨hlow, hhigh⟩ : 48 ≤ c.toNat ∧ c.toNat ≤ 57 := Char.isDigit_iff_toNat.mp hc
  refine ⟨hlow, hhigh, ?_⟩
  rw [UInt8.toNat_ofNat']
  omega

theorem isDigit_of_mem {n : ℕ} {c : Char} (hc : c ∈ Nat.toDigits 10 n) : c.isDigit :=
  Nat.isDigit_of_mem_toDigits (by decide) (by decide) hc

theorem mem_digits {n : ℕ} {b : UInt8} (hb : b ∈ digits n) : 0x30 ≤ b ∧ b ≤ 0x39 := by
  obtain ⟨c, hc, rfl⟩ := List.mem_map.mp hb
  obtain ⟨hlow, hhigh, hnat⟩ := toNat_digit (isDigit_of_mem hc)
  rw [UInt8.le_iff_toNat_le, UInt8.le_iff_toNat_le, hnat]
  exact ⟨hlow, hhigh⟩

theorem leadingNat_digits (n : ℕ) : leadingNat (digits n) = n := by
  have hall : (digits n).takeWhile (fun b => 0x30 ≤ b && b ≤ 0x39) = digits n := by
    rw [List.takeWhile_eq_self_iff]
    intro b hb
    simpa using mem_digits hb
  rw [leadingNat, hall, digits, List.foldl_map]
  have hfold : ∀ cs : List Char, (∀ c ∈ cs, c.isDigit) → ∀ k, cs.foldl
      (fun n c => 10 * n + ((UInt8.ofNat c.toNat).toNat - 0x30)) k = Nat.ofDigitChars 10 cs k := by
    intro cs hcs
    induction cs with
    | nil => intro k; rfl
    | cons c cs ih =>
      intro k
      rw [List.foldl_cons, (toNat_digit (hcs c (by simp))).2.2,
        ih fun c hc => hcs c (by simp [hc]), Nat.ofDigitChars_cons]
      rfl
  rw [hfold _ (fun c hc => isDigit_of_mem hc), Nat.ofDigitChars_ten_toDigits]

theorem integer_natCast (n : ℕ) : (integer n).bytes = digits n := by
  have hall : ∀ b ∈ digits n, b ≠ 0 := by
    rintro b hb rfl
    exact absurd (mem_digits hb).1 (by decide)
  have hread : (integer n).bytes = (digits n).takeWhile (· ≠ 0) := by
    simp [integer, lit, CString.read, digits, Int.toString_eq_repr, Int.repr_eq_if]
  rw [hread, List.takeWhile_eq_self_iff]
  simpa using hall

theorem integer_negSucc (n : ℕ) : (integer (.negSucc n)).bytes = 0x2d :: digits (n + 1) := by
  have h : (integer (.negSucc n)).bytes = sqlText "-" ++ (integer (n + 1 : ℕ)).bytes :=
    sqlInt_negSucc n
  rw [h, integer_natCast]
  rfl

theorem strtol_digits {s : CString} {n : ℕ} (hs : s.bytes = digits n) :
    strtol s = min (2 ^ 63 - 1) (n : ℤ) := by
  obtain ⟨b, bs, hcons⟩ : ∃ b bs, digits n = b :: bs :=
    List.exists_cons_of_ne_nil (by simp [digits])
  obtain ⟨hlow, hhigh⟩ := mem_digits (hcons ▸ List.mem_cons_self : b ∈ digits n)
  have hspace : ¬ SqlText.isSpace b = true := by
    simp only [SqlText.isSpace, UInt8.le_iff_toNat_le, ← UInt8.toNat_inj] at hlow hhigh ⊢
    simp at hlow hhigh ⊢
    omega
  rw [strtol, hs, hcons, List.dropWhile_cons_of_neg hspace]
  split
  · next heq =>
    obtain ⟨rfl, -⟩ := List.cons.inj heq
    exact absurd hlow (by decide)
  · next heq =>
    obtain ⟨rfl, -⟩ := List.cons.inj heq
    exact absurd hlow (by decide)
  · rw [← hcons, leadingNat_digits]

theorem strtol_integer_natCast (n : ℕ) : strtol (integer n) = min (2 ^ 63 - 1) (n : ℤ) :=
  strtol_digits (integer_natCast n)

theorem strtol_integer_negSucc (n : ℕ) :
    strtol (integer (.negSucc n)) = max (-2 ^ 63) (.negSucc n) := by
  rw [strtol, integer_negSucc, List.dropWhile_cons_of_neg (by decide)]
  simp only [leadingNat_digits]
  rfl

/-- An `int` is read back from its text. -/
theorem atoiText_integer {n : ℤ} (hn : IsInt n) : atoiText (integer n) = n := by
  have hlong : strtol (integer n) = n := by
    obtain ⟨hlow, hhigh⟩ := hn
    cases n with
    | ofNat n => exact (strtol_integer_natCast n).trans (by simp at hhigh ⊢; omega)
    | negSucc n => exact (strtol_integer_negSucc n).trans (by omega)
  rw [atoiText, hlong, atoi_eq_self hn]

/-! ## The tables -/

structure Tables where
  accounts : Table Account.uid
  dishes : Table fun d : DishRow => d.id
  seats : Table Seat.id

/-- What is left to SQLite: the order of the rows of a query, the time in the last column of a
dish, and the statements that a quote has broken or that are about bookings. -/
structure Sqlite where
  scan : {ρ : Type} → List ρ → List ρ
  scan_perm : ∀ {ρ : Type} (rows : List ρ), (scan rows).Perm rows
  created : DishRow → CString
  other : Database Tables

def accountCells (a : Account) : List CString := [a.uid, integer a.type, a.pwd, a.nick, a.comment]

def dishCells (created : CString) (d : DishRow) : List CString :=
  [integer d.id, integer d.category, d.name, d.summary, d.thumbnail, integer d.priceType,
    integer d.price, created]

def seatCells (s : Seat) : List CString := [integer s.id, s.summary, s.qrcode]

/-- The row of a new account. -/
def stored (build : Build) (a : Account) : Account :=
  { a with uid := wordToLower a.uid, pwd := dbEncryptPwd build a.pwd }

section Sqlite

variable (sqlite : Sqlite) (build : Build)

def Sqlite.select {ρ : Type} (n : ℕ) (cells : ρ → List CString) (rows : List ρ) : Answer :=
  ⟨n, (sqlite.scan rows).map cells, false⟩

/-- The answer to a count. -/
def counted {ρ : Type} (rows : List ρ) : Answer := ⟨1, [[integer rows.length]], false⟩

/-- No quote breaks the statement. -/
def Statement.Whole : Statement → Prop
  | .build b => ∀ s ∈ b.inserted build, QuoteFree s
  | _ => True

instance : DecidablePred (Statement.Whole build)
  | .build b => inferInstanceAs (Decidable (∀ s ∈ b.inserted build, QuoteFree s))
  | .create _ | .truncate _ | .accountCount | .accountSelect | .dishDel _ | .dishCount _
  | .dishSelect _ | .dishGetOne _ | .seatDel _ | .seatCount | .seatSelect | .seatGetOne _
  | .bookDel _ | .bookGetOne _ | .bookCount _ | .bookSelect _ | .bookModifyBook _ _ _
  | .bookModifyAccept _ _ _ => .isTrue trivial

/-- The queries. Columns come in the order of `CREATE TABLE`. -/
def Tables.query (t : Tables) : Statement → Option Answer
  | .build (.accountGetOne uid) =>
    some (sqlite.select 5 accountCells (t.accounts.rows.filter (·.uid = uid)))
  | .build (.accountPwdCheck uid pwd) => some (sqlite.select 5 accountCells
      (t.accounts.rows.filter fun a => a.uid = uid ∧ a.pwd = dbEncryptPwd build pwd))
  | .accountCount => some (counted t.accounts.rows)
  | .accountSelect => some (sqlite.select 5 accountCells t.accounts.rows)
  | .dishCount category => some (counted (t.dishes.rows.filter (·.category = category)))
  | .dishSelect category => some (sqlite.select 8 (fun d => dishCells (sqlite.created d) d)
      (t.dishes.rows.filter (·.category = category)))
  | .dishGetOne id => some (sqlite.select 8 (fun d => dishCells (sqlite.created d) d)
      (t.dishes.rows.filter (·.id = id)))
  | .seatCount => some (counted t.seats.rows)
  | .seatSelect => some (sqlite.select 3 seatCells t.seats.rows)
  | .seatGetOne id => some (sqlite.select 3 seatCells (t.seats.rows.filter (·.id = id)))
  | _ => none

def Tables.updateAccount (t : Tables) (uid : CString) (f : Account → Account)
    (hf : ∀ a, (f a).uid = a.uid) : Tables :=
  { t with accounts := t.accounts.update uid f hf }

/-- The changes. SQLite has no `TRUNCATE`. -/
def Tables.exec (t : Tables) : Statement → Option (Bool × Tables)
  | .create _ => some (true, t)
  | .truncate _ => some (false, t)
  | .build (.accountAdd a) =>
    let r := t.accounts.insert (stored build a)
    some (r.1, { t with accounts := r.2 })
  | .build (.accountUpdatePwd uid newPwd) =>
    some (true, t.updateAccount uid (fun a => { a with pwd := dbEncryptPwd build newPwd })
      fun _ => rfl)
  | .build (.accountUpdateNick uid nick) =>
    some (true, t.updateAccount uid (fun a => { a with nick := nick }) fun _ => rfl)
  | .build (.accountUpdateComment uid comment) =>
    some (true, t.updateAccount uid (fun a => { a with comment := comment }) fun _ => rfl)
  | .build (.accountDel uid) => some (true, { t with accounts := t.accounts.delete uid })
  | .build (.dishAdd d thumbnail) =>
    let r := t.dishes.insert ⟨d, thumbnail⟩
    some (r.1, { t with dishes := r.2 })
  | .dishDel id => some (true, { t with dishes := t.dishes.delete id })
  | .build (.seatAdd s) =>
    let r := t.seats.insert s
    some (r.1, { t with seats := r.2 })
  | .seatDel id => some (true, { t with seats := t.seats.delete id })
  | _ => none

def recordsDb : Database Tables where
  query st t :=
    match t.query sqlite build st with
    | some a => if st.Whole build then (a, t) else sqlite.other.query st t
    | none => sqlite.other.query st t
  exec st t :=
    match t.exec build st with
    | some r => if st.Whole build then r else sqlite.other.exec st t
    | none => sqlite.other.exec st t

variable {sqlite build} {t : Tables} {st : Statement}

theorem recordsDb_query {a : Answer} (hquery : t.query sqlite build st = some a)
    (hwhole : st.Whole build) : (recordsDb sqlite build).query st t = (a, t) := by
  simp only [recordsDb, hquery, if_pos hwhole]

theorem recordsDb_exec {r : Bool × Tables} (hexec : t.exec build st = some r)
    (hwhole : st.Whole build) : (recordsDb sqlite build).exec st t = r := by
  simp only [recordsDb, hexec, if_pos hwhole]

end Sqlite

/-! ### Additions and deletions -/

inductive Edit where
  | accountAdd (a : Account)
  | accountDel (uid : CString)
  | dishAdd (d : DishRow)
  | dishDel (id : ℤ)
  | seatAdd (s : Seat)
  | seatDel (id : ℤ)

namespace Edit

variable (build : Build)

def statement : Edit → Statement
  | accountAdd a => .build (.accountAdd a)
  | accountDel uid => .build (.accountDel uid)
  | dishAdd d => .build (.dishAdd d.toDish d.thumbnail)
  | dishDel id => .dishDel id
  | seatAdd s => .build (.seatAdd s)
  | seatDel id => .seatDel id

def run : Edit → Calls Bool
  | accountAdd a => dbAccountAdd build a
  | accountDel uid => dbAccountDel uid
  | dishAdd d => dbDishAdd d
  | dishDel id => dbDishDel id
  | seatAdd s => dbSeatAdd s
  | seatDel id => dbSeatDel id

/-- What the statement does to the tables. -/
def apply (t : Tables) : Edit → Bool × Tables
  | accountAdd a =>
    let r := t.accounts.insert (stored build a)
    (r.1, { t with accounts := r.2 })
  | accountDel uid => (true, { t with accounts := t.accounts.delete uid })
  | dishAdd d =>
    let r := t.dishes.insert d
    (r.1, { t with dishes := r.2 })
  | dishDel id => (true, { t with dishes := t.dishes.delete id })
  | seatAdd s =>
    let r := t.seats.insert s
    (r.1, { t with seats := r.2 })
  | seatDel id => (true, { t with seats := t.seats.delete id })

/-- The changes of one table among the edits. -/
def account : Edit × Bool → Option (Change Account CString × Bool)
  | (accountAdd a, ok) => some (.insert (stored build a), ok)
  | (accountDel uid, ok) => some (.delete uid, ok)
  | (dishAdd _, _) | (dishDel _, _) | (seatAdd _, _) | (seatDel _, _) => none

def dish : Edit × Bool → Option (Change DishRow ℤ × Bool)
  | (dishAdd d, ok) => some (.insert d, ok)
  | (dishDel id, ok) => some (.delete id, ok)
  | (accountAdd _, _) | (accountDel _, _) | (seatAdd _, _) | (seatDel _, _) => none

def seat : Edit × Bool → Option (Change Seat ℤ × Bool)
  | (seatAdd s, ok) => some (.insert s, ok)
  | (seatDel id, ok) => some (.delete id, ok)
  | (accountAdd _, _) | (accountDel _, _) | (dishAdd _, _) | (dishDel _, _) => none

end Edit

section Edits

/-- The hash is longer than the buffer that `db_account_add` has for it. -/
def Edit.Overflows (build : Build) : Edit → Prop
  | accountAdd a => 41 ≤ (dbEncryptPwd build a.pwd).bytes.length
  | _ => False

variable (sqlite : Sqlite) (build : Build) (past : ℕ → ℕ → DbpRow)

/-- Edits one after the other, with what they returned. -/
inductive Edits (t : Tables) : List (Edit × Bool) → Tables → Prop
  | nil : Edits t [] t
  | snoc {es : List (Edit × Bool)} {t' : Tables} (hedits : Edits t es t') (e : Edit)
      (hwhole : e.statement.Whole build) {ok : Bool} {s : Provider Tables}
      (hrun : (e.run build).exec (Provider.handle (recordsDb sqlite build) past)
        (Provider.idle t') = some (ok, s)) :
      Edits t (es ++ [(e, ok)]) s.db

variable {sqlite build past} {t t' : Tables} {es : List (Edit × Bool)}

theorem Edit.run_wp (e : Edit) (hwhole : e.statement.Whole build) :
    (e.run build).wp (Provider.handle (recordsDb sqlite build) past)
      (fun ok s => (ok, s.db) = e.apply build t ∧ (s.overflow = true ↔ e.Overflows build))
      (Provider.idle t) := by
  have hexec : t.exec build e.statement = some (e.apply build t) := by cases e <;> rfl
  have hdb : (recordsDb sqlite build).exec e.statement t = e.apply build t :=
    recordsDb_exec hexec hwhole
  cases e with
  | accountAdd a => exact wp_op rfl (wp_op rfl ⟨hdb, decide_eq_true_iff⟩)
  | accountDel | dishAdd | dishDel | seatAdd | seatDel =>
    exact wp_op rfl ⟨hdb, iff_of_false nofun id⟩

/-- The rows of the accounts are those that were inserted and not deleted. -/
theorem Edits.accounts (hedits : Edits sqlite build past t es t') :
    Ran t.accounts (es.filterMap (Edit.account build)) t'.accounts := by
  induction hedits with
  | nil => exact .nil
  | snoc hedits e hwhole hrun ih =>
    obtain ⟨hok, hdb⟩ := Prod.mk.inj ((e.run_wp hwhole).of_exec hrun).1
    rw [hdb, hok, List.filterMap_append]
    cases e with
    | accountAdd a => exact ih.snoc (.insert (stored build a))
    | accountDel uid => exact ih.snoc (.delete uid)
    | dishAdd | dishDel | seatAdd | seatDel =>
      simpa [List.filterMap_cons, Edit.account] using ih

theorem Edits.dishes (hedits : Edits sqlite build past t es t') :
    Ran t.dishes (es.filterMap Edit.dish) t'.dishes := by
  induction hedits with
  | nil => exact .nil
  | snoc hedits e hwhole hrun ih =>
    obtain ⟨hok, hdb⟩ := Prod.mk.inj ((e.run_wp hwhole).of_exec hrun).1
    rw [hdb, hok, List.filterMap_append]
    cases e with
    | dishAdd d => exact ih.snoc (.insert d)
    | dishDel id => exact ih.snoc (.delete id)
    | accountAdd | accountDel | seatAdd | seatDel =>
      simpa [List.filterMap_cons, Edit.dish] using ih

theorem Edits.seats (hedits : Edits sqlite build past t es t') :
    Ran t.seats (es.filterMap Edit.seat) t'.seats := by
  induction hedits with
  | nil => exact .nil
  | snoc hedits e hwhole hrun ih =>
    obtain ⟨hok, hdb⟩ := Prod.mk.inj ((e.run_wp hwhole).of_exec hrun).1
    rw [hdb, hok, List.filterMap_append]
    cases e with
    | seatAdd s => exact ih.snoc (.insert s)
    | seatDel id => exact ih.snoc (.delete id)
    | accountAdd | accountDel | dishAdd | dishDel =>
      simpa [List.filterMap_cons, Edit.seat] using ih

end Edits

/-! ## Reading a row -/

section Reading

variable {δ : Type} {D : Database δ} {past : ℕ → ℕ → DbpRow} {s : Provider δ} {row i : ℕ}
  {cells : List CString} {data : CString}

/-- The row has been fetched and not been released. -/
structure Provider.At (s : Provider δ) (row : ℕ) (cells : List CString) : Prop where
  live : s.live.lookup row = some cells
  fields : s.fields = cells.length

theorem Provider.At.readable (hat : s.At row cells) (hi : cells[i]? = some data) :
    s.readable row i = some data := by
  obtain ⟨hlt, -⟩ := List.getElem?_eq_some_iff.mp hi
  rw [Provider.readable, hat.live]
  dsimp only
  rw [if_pos (hat.fields ▸ hlt), List.getD_eq_getElem?_getD, hi, Option.getD_some]

theorem Provider.at_fetched {rows : List (List CString)} (hfields : s.fields = cells.length) :
    (s.fetched cells rows).At s.fresh cells :=
  ⟨by simp [Provider.fetched], hfields⟩

theorem rowColumn_wp {β : Type} {f : DbpRow → Calls β} {Q : β → Provider δ → Prop}
    (hat : s.At row cells) (hi : cells[i]? = some data)
    (hf : (f ⟨data, data.bytes.length⟩).wp (Provider.handle D past) Q s) :
    (rowColumn row i >>= f).wp (Provider.handle D past) Q s := by
  have hcolumn : Provider.handle D past (.column row i) s =
      some (⟨data, data.bytes.length⟩, s) := by rw [Provider.handle, hat.readable hi]
  exact wp_op hcolumn hf

/-- A string that fits into its field. -/
theorem storeField_wp {β : Type} {f : Unit → Calls β} {Q : β → Provider δ → Prop} {size : ℕ}
    (hsize : data.bytes.length < size) (hf : (f ()).wp (Provider.handle D past) Q s) :
    (storeField size data >>= f).wp (Provider.handle D past) Q s := by
  have hstore : Provider.handle D past (.store size data) s = some ((), s) := by
    rw [Provider.handle, decide_eq_false (not_le.mpr hsize), Bool.or_false]
  exact wp_op hstore hf

theorem copyColumn_wp {β : Type} {f : CString → Calls β} {Q : β → Provider δ → Prop} {size : ℕ}
    (hat : s.At row cells) (hi : cells[i]? = some data) (hsize : data.bytes.length < size)
    (hf : (f data).wp (Provider.handle D past) Q s) :
    (copyColumn row i size >>= f).wp (Provider.handle D past) Q s :=
  wp_bind.mpr (rowColumn_wp hat hi (storeField_wp hsize hf))

theorem numberColumn_wp {β : Type} {f : ℤ → Calls β} {Q : β → Provider δ → Prop} {n : ℤ}
    (hat : s.At row cells) (hi : cells[i]? = some (integer n)) (hn : IsInt n)
    (hf : (f n).wp (Provider.handle D past) Q s) :
    (intColumn row i >>= f).wp (Provider.handle D past) Q s := by
  refine wp_bind.mpr (intColumn_wp (hat.readable hi) ?_)
  rwa [atoiText_integer hn]

/-- The record is found in its cells, and everything is left as it was. -/
def Reads (D : Database δ) (past : ℕ → ℕ → DbpRow) {ρ : Type} (read : ℕ → Calls ρ)
    (cells : List CString) (r : ρ) : Prop :=
  ∀ (s : Provider δ) row, s.At row cells →
    (read row).wp (Provider.handle D past) (fun b s' => b = r ∧ s' = s) s

end Reading

/-- The fields are strings of the sizes that `public.h` gives them. -/
structure AccountFits (a : Account) : Prop where
  type : IsInt a.type
  uid : a.uid.bytes.length < 17
  pwd : a.pwd.bytes.length < 129
  nick : a.nick.bytes.length < 65
  comment : a.comment.bytes.length < 257

structure DishFits (d : DishRow) : Prop where
  id : IsInt d.id
  category : IsInt d.category
  name : d.name.bytes.length < 65
  summary : d.summary.bytes.length < 257
  thumbnail : d.thumbnail.bytes.length < 65
  priceType : IsInt d.priceType
  price : IsInt d.price

structure SeatFits (s : Seat) : Prop where
  id : IsInt s.id
  summary : s.summary.bytes.length < 257
  qrcode : s.qrcode.bytes.length < 65

theorem AccountFits.stored {a : Account} (ha : AccountFits a) (build : Build) :
    AccountFits (stored build a) where
  type := ha.type
  uid := by simpa [Dbp.stored, wordToLower] using ha.uid
  pwd := by
    cases build with
    | debug => exact ha.pwd
    | release tmpSha => exact (length_dbEncryptPwd_release tmpSha a.pwd).trans_lt (by decide)
  nick := ha.nick
  comment := ha.comment

section Rows

variable {δ : Type} {D : Database δ} {past : ℕ → ℕ → DbpRow}

theorem reads_account {a : Account} (ha : AccountFits a) :
    Reads D past readAccount (accountCells a) a := by
  intro s row hat
  refine copyColumn_wp hat rfl ha.uid (numberColumn_wp hat rfl ha.type ?_)
  refine copyColumn_wp hat rfl ha.pwd (copyColumn_wp hat rfl ha.nick ?_)
  exact copyColumn_wp hat rfl ha.comment ⟨rfl, rfl⟩

theorem reads_dish {d : DishRow} (hd : DishFits d) (created : CString) :
    Reads D past readDish (dishCells created d) d := by
  intro s row hat
  refine numberColumn_wp hat rfl hd.id (numberColumn_wp hat rfl hd.category ?_)
  refine copyColumn_wp hat rfl hd.name (copyColumn_wp hat rfl hd.summary ?_)
  refine copyColumn_wp hat rfl hd.thumbnail (numberColumn_wp hat rfl hd.priceType ?_)
  exact numberColumn_wp hat rfl hd.price ⟨rfl, rfl⟩

theorem reads_seat {s : Seat} (hs : SeatFits s) : Reads D past readSeat (seatCells s) s := by
  intro p row hat
  refine numberColumn_wp hat rfl hs.id (copyColumn_wp hat rfl hs.summary ?_)
  exact copyColumn_wp hat rfl hs.qrcode ⟨rfl, rfl⟩

/-- `db_seat_get_one` reads a fourth column of three. -/
theorem readSeatOne_strays {s : Seat} (hs : SeatFits s) (old : List UInt8) {p : Provider δ}
    {row : ℕ} (hat : p.At row (seatCells s)) :
    (readSeatOne old row).wp (Provider.handle D past) (fun _ p' => p'.stray = true) p := by
  refine numberColumn_wp hat rfl hs.id (rowColumn_wp hat rfl (storeField_wp hs.summary ?_))
  have houtside : p.readable row 3 = none := by
    rw [Provider.readable, hat.live, hat.fields]
    rfl
  have hcolumn : Provider.handle D past (.column row 3) p =
      some (past row 3, { p with stray := true }) := by rw [Provider.handle, houtside]
  have hat' : Provider.At { p with stray := true } row (seatCells s) := ⟨hat.live, hat.fields⟩
  exact wp_op hcolumn (copyColumn_wp hat' rfl hs.qrcode rfl)

end Rows

/-! ## What a function returns -/

section Results

variable {δ : Type} (D : Database δ) (past : ℕ → ℕ → DbpRow) {ρ : Type}

/-- The run ends with the result, and has stayed inside its rows, its fields and its array. -/
def Clean {β : Type} (db : δ) (p : Calls β) (b : β) : Prop :=
  p.wp (Provider.handle D past) (fun r s => r = b ∧ s.stray = false ∧ s.overflow = false)
    (Provider.idle db)

/-- If the record is added, it can be got. -/
def ReadBack (db : δ) (add : Calls Bool) (get : Calls (ℤ × Option ρ)) (r : ρ) : Prop :=
  add.wp (Provider.handle D past)
    (fun ok s => ok → s.overflow = false ∧ Clean D past s.db get (1, some r)) (Provider.idle db)

/-- The function returns 1. -/
def Found (db : δ) (get : Calls (ℤ × Option ρ)) : Prop :=
  get.wp (Provider.handle D past) (fun r _ => r.1 = 1) (Provider.idle db)

/-- Without an output and with one the function returns 1 if there is a row. -/
def FoundIff (db : δ) (get : Bool → Calls (ℤ × Option ρ)) (row : Prop) : Prop :=
  (Found D past db (get false) ↔ row) ∧ (Found D past db (get true) ↔ row)

/-- The list is got, whatever bound the loop has beyond some. -/
def Listed (db : δ) (get : ℕ → Calls (Option (ℤ × List ρ))) (rs : List ρ) : Prop :=
  ∃ enough, ∀ fuel, enough ≤ fuel → Clean D past db (get fuel) (some (rs.length, rs))

variable {D past} {db db' : δ} {st : Statement} {a : Answer} {n : ℕ} {read : ℕ → Calls ρ}

theorem getOne_empty (hquery : D.query st db = (a, db')) (hrows : a.rows = []) (out : Bool) :
    (getOne st n read out).wp (Provider.handle D past) (fun r _ => r = (0, none))
      (Provider.idle db) := by
  cases out with
  | false =>
    refine wp_bind.mpr (existsRow_wp hquery ?_)
    have hret : a.ret ≠ .row := by
      rw [Answer.ret, if_neg (not_not.mpr hrows)]
      cases a.error <;> decide
    rw [decide_eq_false hret]
    rfl
  | true => exact withRows_wp hquery (fun _ => rfl) fun hne => absurd hrows hne

theorem getOne_exists (hquery : D.query st db = (a, db')) (hrows : a.rows ≠ []) :
    (getOne st n read false).wp (Provider.handle D past) (fun r _ => r = (1, none))
      (Provider.idle db) := by
  refine wp_bind.mpr (existsRow_wp hquery ?_)
  rw [Answer.ret, if_pos hrows]
  rfl

/-- A wrong number of columns is as good as no row. -/
theorem getOne_fields (hquery : D.query st db = (a, db')) (hfields : a.fields ≠ n) :
    (getOne st n read true).wp (Provider.handle D past) (fun r _ => r = (0, none))
      (Provider.idle db) :=
  withRows_wp hquery (fun _ => rfl) fun _ hn => absurd hn hfields

/-- The row that is found is read. -/
theorem getOne_row {cells : List CString} (hquery : D.query st db = (a, db'))
    (hrows : a.rows = [cells]) (hfields : a.fields = n) (hcells : cells.length = n)
    {Q : ρ → Provider δ → Prop}
    (hread : ∀ s : Provider δ, ∀ row, s.At row cells → s.stray = false → s.overflow = false →
      (read row).wp (Provider.handle D past) Q s) :
    (getOne st n read true).wp (Provider.handle D past) (fun r s => r.1 = 1 ∧ ∃ b s',
      r.2 = some b ∧ Q b s' ∧ s.stray = s'.stray ∧ s.overflow = s'.overflow)
      (Provider.idle db) := by
  refine withRows_wp hquery (fun hfailed => ?_) fun hne hn => ?_
  · simp [hrows, hfields] at hfailed
  · have hqueried : ((Provider.idle db).queried a db').fields = cells.length :=
      (if_neg hne).trans (hn.trans hcells.symm)
    refine readRow_wp hrows (wp_bind.mpr ?_)
    refine (hread _ _ (Provider.at_fetched hqueried) rfl rfl).mono fun b s' hQ => ?_
    exact ⟨rfl, b, s', rfl, hQ, rfl, rfl⟩

theorem getOne_clean {cells : List CString} {r : ρ} (hquery : D.query st db = (a, db'))
    (hrows : a.rows = [cells]) (hfields : a.fields = n) (hcells : cells.length = n)
    (hread : Reads D past read cells r) :
    Clean D past db (getOne st n read true) (1, some r) := by
  have hquiet : ∀ s : Provider δ, ∀ row, s.At row cells → s.stray = false → s.overflow = false →
      (read row).wp (Provider.handle D past) (fun b s' => b = r ∧ s'.stray = false ∧
        s'.overflow = false) s := by
    intro s row hat hstray hoverflow
    refine (hread s row hat).mono ?_
    rintro b s' ⟨hb, rfl⟩
    exact ⟨hb, hstray, hoverflow⟩
  refine (getOne_row hquery hrows hfields hcells hquiet).mono ?_
  rintro ⟨ret, out⟩ s ⟨hret, b, s', hout, ⟨rfl, hstray, hoverflow⟩, hs, hs'⟩
  exact ⟨Prod.ext hret hout, hs.trans hstray, hs'.trans hoverflow⟩

/-! ### Lists -/

theorem fetchRows_records {cells : ρ → List CString} {count : ℤ} {rs : List ρ}
    (hcells : ∀ r ∈ rs, (cells r).length = n ∧ Reads D past read (cells r) r) {i : ℕ}
    (hcount : (i + rs.length : ℕ) ≤ count) {fuel : ℕ} (hfuel : rs.length < fuel) {s : Provider δ}
    (hcursor : s.cursor = rs.map cells) (hfields : s.fields = n) :
    (fetchRows (fillElement count read) fuel i).wp (Provider.handle D past) (fun r s' =>
      r = some rs ∧ s'.stray = s.stray ∧ s'.overflow = s.overflow) s := by
  induction rs generalizing i fuel s with
  | nil =>
    obtain ⟨fuel, rfl⟩ := Nat.exists_eq_succ_of_ne_zero (Nat.ne_of_gt hfuel)
    have hfetch : Provider.handle D past .fetchRow s = some (none, s.log .fetchFailed) := by
      rw [Provider.handle, hcursor]
      rfl
    exact wp_op hfetch ⟨rfl, rfl, rfl⟩
  | cons r rs ih =>
    obtain ⟨fuel, rfl⟩ := Nat.exists_eq_succ_of_ne_zero (by omega : fuel ≠ 0)
    obtain ⟨hlength, hread⟩ := hcells r (by simp)
    rw [List.length_cons] at hcount hfuel
    refine wp_op (by rw [Provider.handle, hcursor]; rfl) (wp_bind.mpr ?_)
    have helement : Provider.handle D past (.element count i) (s.fetched (cells r) (rs.map cells)) =
        some ((), s.fetched (cells r) (rs.map cells)) := by
      have hlt : ¬ count ≤ i := by omega
      rw [Provider.handle, decide_eq_false hlt, Bool.or_false]
    refine wp_op helement (wp_bind.mpr ?_)
    refine (hread _ _ (Provider.at_fetched (hfields.trans hlength.symm))).mono ?_
    rintro b s' ⟨rfl, rfl⟩
    refine wp_op rfl (wp_bind.mpr ?_)
    have hcount' : (i + 1 + rs.length : ℕ) ≤ count := by omega
    have hfuel' : rs.length < fuel := by omega
    refine wp.mono (ih (fun r hr => hcells r (by simp [hr])) hcount' hfuel' rfl hfields) ?_
    rintro bs s' ⟨rfl, hstray, hoverflow⟩
    exact ⟨rfl, hstray, hoverflow⟩

/-- A list function that counts the rows which it selects. -/
theorem getRows_clean {counting : Statement} {cells : ρ → List CString} {rs rs' : List ρ}
    (hcounting : D.query counting db = (counted rs', db)) (hlength : rs'.length = rs.length)
    (hquery : D.query st db = (⟨n, rs.map cells, false⟩, db)) (hint : rs.length < 2 ^ 31)
    (hcells : ∀ r ∈ rs, (cells r).length = n ∧ Reads D past read (cells r) r)
    (uninitialised : ℤ) {fuel : ℕ} (hfuel : rs.length < fuel) :
    Clean D past db (getRows counting uninitialised st n (fillElement · read) fuel)
      (some (rs.length, rs)) := by
  have hread : atoiText (integer rs'.length) = rs.length := by
    rw [hlength]
    exact atoiText_integer ⟨by omega, by omega⟩
  have hcount : (counted rs').count = if (rs.length : ℤ) = 0 then none else some ↑rs.length := by
    simp only [Answer.count, counted, if_true, List.getD_cons_zero, hread]
  refine wp_bind.mpr ((countRows_wp uninitialised hcounting).mono ?_)
  rintro r s ⟨hr, rfl, ⟨hstray, hoverflow⟩, -⟩
  rw [hr, hcount]
  cases rs with
  | nil => exact ⟨rfl, hstray, hoverflow⟩
  | cons r rs =>
    rw [if_neg (by simp; omega)]
    refine withRows_wp hquery (fun hfailed => ?_) fun _ _ => ?_
    · simp at hfailed
    · refine wp_bind.mpr ((fetchRows_records hcells (by simp) hfuel rfl rfl).mono ?_)
      rintro rs' s' ⟨rfl, hstray', hoverflow'⟩
      exact ⟨rfl, hstray'.trans hstray, hoverflow'.trans hoverflow⟩

theorem isInt_count {count : ℤ} (hcount : a.count = some count) : IsInt count := by
  unfold Answer.count at hcount
  split at hcount
  · cases hcount
  · dsimp only at hcount
    split_ifs at hcount
    exact Option.some.inj hcount ▸ isInt_atoi _

/-- Either nothing is returned or what was counted before. -/
theorem returns_selectRows (st : Statement) (n : ℕ) (count : ℤ) (body : ℕ → ℕ → Calls ρ)
    (fuel : ℕ) : (selectRows st n count body fuel).Returns fun r =>
      ∀ p, r = some p → p.1 = 0 ∨ p.1 = count := by
  have hnothing : ∀ p : ℤ × List ρ, some (0, []) = some p → p.1 = 0 ∨ p.1 = count := by
    rintro p hp
    exact .inl (Option.some.inj hp ▸ rfl)
  refine returns_perform fun ret => ?_
  split_ifs
  · exact returns_perform fun _ => hnothing
  · refine returns_perform fun fields => ?_
    split_ifs
    · exact returns_perform fun _ => hnothing
    · refine Returns.bind (Returns.bind (returns_true _) fun rows _ => ?_) fun r hr =>
        returns_perform fun _ => hr
      intro p hp
      obtain ⟨rs, -, rfl⟩ := Option.map_eq_some_iff.mp hp
      exact .inr rfl

/-- The number that a list function returns is an `int`. -/
theorem getRows_isInt {counting : Statement} {uninitialised : ℤ} {body : ℤ → ℕ → ℕ → Calls ρ}
    {fuel : ℕ} {Q : Option (ℤ × List ρ) → Provider δ → Prop} {s : Provider δ}
    (hwp : (getRows counting uninitialised st n body fuel).wp (Provider.handle D past) Q s) :
    ∃ r s', Q r s' ∧ ∀ p, r = some p → IsInt p.1 := by
  have hzero : IsInt 0 := ⟨by decide, by decide⟩
  obtain ⟨count, s₁, hrest, rfl, -⟩ := (wp_bind.mp hwp).and (countRows_wp uninitialised rfl)
  cases hcount : Answer.count _ with
  | none =>
    rw [hcount] at hrest
    refine ⟨_, _, hrest, ?_⟩
    rintro p hp
    exact Option.some.inj hp ▸ hzero
  | some count =>
    rw [hcount] at hrest
    obtain ⟨r, s', hexec, hQ⟩ := wp_iff_exec.mp hrest
    refine ⟨r, s', hQ, fun p hp => ?_⟩
    rcases (returns_selectRows _ _ _ _ _).exec hexec p hp with hnothing | hcounted
    · rwa [hnothing]
    · rw [hcounted]
      exact isInt_count hcount

/-! ### What is asked of the functions -/

theorem found_of_empty (hquery : D.query st db = (a, db')) (hrows : a.rows = []) (out : Bool) :
    ¬ Found D past db (getOne st n read out) := by
  intro hfound
  obtain ⟨r, s, hret, rfl⟩ := hfound.and (getOne_empty hquery hrows out)
  exact absurd hret (by simp)

theorem foundIff_of_row {row : Prop} (hquery : D.query st db = (a, db'))
    (hrow : a.rows ≠ [] ↔ row) (htrue : row → Found D past db (getOne st n read true)) :
    FoundIff D past db (getOne st n read) row := by
  rw [← hrow] at htrue ⊢
  by_cases hrows : a.rows = []
  · simp [FoundIff, found_of_empty hquery hrows, hrows]
  · have hfalse : Found D past db (getOne st n read false) :=
      (getOne_exists hquery hrows).mono fun r _ hr => by rw [hr]
    simp [FoundIff, hfalse, htrue hrows, hrows]

theorem foundIff_of_fields {row : Prop} (hquery : D.query st db = (a, db'))
    (hrow : a.rows ≠ [] ↔ row) (hfields : a.fields ≠ n) :
    FoundIff D past db (getOne st n read) row ↔ ¬ row := by
  rw [← hrow]
  by_cases hrows : a.rows = []
  · simp [FoundIff, found_of_empty hquery hrows, hrows]
  · have htrue : ¬ Found D past db (getOne st n read true) := by
      intro hfound
      obtain ⟨r, s, hret, rfl⟩ := hfound.and (getOne_fields hquery hfields)
      exact absurd hret (by simp)
    simp [FoundIff, htrue, hrows]

theorem getOne_found (hclean : ∃ r, Clean D past db (getOne st n read true) (1, some r)) :
    Found D past db (getOne st n read true) := by
  obtain ⟨r, hclean⟩ := hclean
  exact hclean.mono fun r _ hr => by rw [hr.1]

/-- A list is right as long as its length is an `int`. -/
theorem listed_iff {counting : Statement} {cells : ρ → List CString} {rs rs' : List ρ}
    (hperm : rs'.Perm rs) (hnodup : rs.Nodup) (hcounting : D.query counting db = (counted rs, db))
    (hquery : D.query st db = (⟨n, rs'.map cells, false⟩, db))
    (hcells : ∀ r ∈ rs, (cells r).length = n ∧ Reads D past read (cells r) r) (uninitialised : ℤ) :
    (∃ as : List ρ, as.Nodup ∧ (∀ r, r ∈ as ↔ r ∈ rs) ∧ Listed D past db
      (fun fuel => getRows counting uninitialised st n (fillElement · read) fuel) as) ↔
        rs.length < 2 ^ 31 := by
  constructor
  · rintro ⟨as, has, hmem, enough, hlisted⟩
    obtain ⟨r, s, ⟨rfl, -⟩, hint⟩ := getRows_isInt (hlisted enough le_rfl)
    have hlength : as.length = rs.length :=
      ((List.perm_ext_iff_of_nodup has hnodup).mpr hmem).length_eq
    have hbound := (hint _ rfl).2
    dsimp only at hbound
    omega
  · intro hint
    refine ⟨rs', hperm.nodup_iff.mpr hnodup, fun r => hperm.mem_iff, rs'.length + 1, ?_⟩
    intro fuel hfuel
    have hcells' : ∀ r ∈ rs', (cells r).length = n ∧ Reads D past read (cells r) r :=
      fun r hr => hcells r (hperm.mem_iff.mp hr)
    exact getRows_clean hcounting hperm.length_eq.symm hquery (hperm.length_eq ▸ hint) hcells'
      uninitialised hfuel

end Results

/-! ## Records -/

/-- A record that is added and got again, a key that is looked for, or a list. The other
arguments are those of the functions. -/
inductive Check where
  | accountAdd (a : Account)
  | dishAdd (d : DishRow)
  | seatAdd (s : Seat) (old : List UInt8)
  | accountKey (uid : CString)
  | dishKey (id : ℤ)
  | seatKey (id : ℤ) (old : List UInt8)
  | accountList
  | dishList (category : ℤ)
  | seatList

/-- All strings fit into their fields. -/
structure Tables.Fits (t : Tables) : Prop where
  accounts : ∀ a ∈ t.accounts.rows, AccountFits a
  dishes : ∀ d ∈ t.dishes.rows, DishFits d
  seats : ∀ s ∈ t.seats.rows, SeatFits s

namespace Check

/-- The strings fit and have no quotes in them. -/
def Valid (build : Build) : Check → Prop
  | accountAdd a => AccountFits a ∧ (Edit.accountAdd a).statement.Whole build
  | dishAdd d => DishFits d ∧ (Edit.dishAdd d).statement.Whole build
  | seatAdd s _ => SeatFits s ∧ (Edit.seatAdd s).statement.Whole build
  | accountKey uid => QuoteFree uid
  | dishKey _ | seatKey _ _ | accountList | dishList _ | seatList => True

section Holds

variable (sqlite : Sqlite) (build : Build) (past : ℕ → ℕ → DbpRow) (uninitialised : ℤ) (t : Tables)

/-- The rows of a list are those that were inserted and not deleted, in every history. -/
def Holds : Check → Prop
  | accountAdd a => ReadBack (recordsDb sqlite build) past t (dbAccountAdd build a)
      (dbAccountGetOne (wordToLower a.uid) true) (stored build a)
  | dishAdd d =>
    ReadBack (recordsDb sqlite build) past t (dbDishAdd d) (dbDishGetOne d.id true) d
  | seatAdd s old =>
    ReadBack (recordsDb sqlite build) past t (dbSeatAdd s) (dbSeatGetOne s.id old true) s
  | accountKey uid => FoundIff (recordsDb sqlite build) past t (dbAccountGetOne uid)
      (∃ a ∈ t.accounts.rows, a.uid = uid)
  | dishKey id => FoundIff (recordsDb sqlite build) past t (dbDishGetOne id)
      (∃ d ∈ t.dishes.rows, d.id = id)
  | seatKey id old => FoundIff (recordsDb sqlite build) past t (dbSeatGetOne id old)
      (∃ s ∈ t.seats.rows, s.id = id)
  | accountList => ∃ as : List Account, as.Nodup ∧
      (∀ t₀ es, Edits sqlite build past t₀ es t → ∀ a, a ∈ as ↔
        Stands Account.uid t₀.accounts.rows (es.filterMap (Edit.account build)) a) ∧
      Listed (recordsDb sqlite build) past t (dbAccountGet uninitialised) as
  | dishList category => ∃ ds : List DishRow, ds.Nodup ∧
      (∀ t₀ es, Edits sqlite build past t₀ es t → ∀ d, d ∈ ds ↔
        Stands (fun d : DishRow => d.id) t₀.dishes.rows (es.filterMap Edit.dish) d ∧
          d.category = category) ∧
      Listed (recordsDb sqlite build) past t (dbDishGetByCategory category uninitialised true) ds
  | seatList => ∃ ss : List Seat, ss.Nodup ∧
      (∀ t₀ es, Edits sqlite build past t₀ es t → ∀ s, s ∈ ss ↔
        Stands Seat.id t₀.seats.rows (es.filterMap Edit.seat) s) ∧
      Listed (recordsDb sqlite build) past t (dbSeatGet uninitialised) ss

/-- A dish or a seat can only be read back if it was not added; a dish is found only without an
output; and a hash may be too long for its buffer. -/
def Condition : Check → Prop
  | accountAdd a => t.accounts.find (wordToLower a.uid) = none →
      (dbEncryptPwd build a.pwd).bytes.length ≤ 40
  | dishAdd d => t.dishes.find d.id ≠ none
  | seatAdd s _ => t.seats.find s.id ≠ none
  | dishKey id => t.dishes.find id = none
  | accountKey _ | seatKey _ _ => True
  | accountList => t.accounts.rows.length < 2 ^ 31
  | dishList category => (t.dishes.rows.filter (·.category = category)).length < 2 ^ 31
  | seatList => t.seats.rows.length < 2 ^ 31

end Holds

end Check

section Records

variable {sqlite : Sqlite} {build : Build} {past : ℕ → ℕ → DbpRow} {uninitialised : ℤ} {t : Tables}

theorem Sqlite.scan_toList {ρ : Type} (o : Option ρ) : sqlite.scan o.toList = o.toList := by
  cases o with
  | none => exact List.perm_nil.mp (sqlite.scan_perm [])
  | some r => exact List.perm_singleton.mp (sqlite.scan_perm [r])

/-- What is found under a key. -/
theorem select_key {ρ κ : Type} [DecidableEq κ] {key : ρ → κ} (table : Table key) (k : κ) (n : ℕ)
    (cells : ρ → List CString) :
    (sqlite.select n cells (table.rows.filter fun r => key r = k)).rows =
      (table.find k).toList.map cells := by
  rw [Sqlite.select, Table.filter_key, sqlite.scan_toList]

theorem select_key_ne_nil {ρ κ : Type} [DecidableEq κ] {key : ρ → κ} (table : Table key) (k : κ)
    (n : ℕ) (cells : ρ → List CString) :
    (sqlite.select n cells (table.rows.filter fun r => key r = k)).rows ≠ [] ↔
      ∃ r ∈ table.rows, key r = k := by
  rw [select_key, ← Table.find_isSome_iff]
  cases table.find k <;> simp

/-- What is done first decides whether a record is to be read back. -/
theorem readBack_iff {ρ : Type} {e : Edit} (hwhole : e.statement.Whole build)
    {get : Calls (ℤ × Option ρ)} {r : ρ} :
    ReadBack (recordsDb sqlite build) past t (e.run build) get r ↔
      ((e.apply build t).1 → ¬ e.Overflows build ∧
        Clean (recordsDb sqlite build) past (e.apply build t).2 get (1, some r)) := by
  have hrun : (e.run build).wp (Provider.handle (recordsDb sqlite build) past)
      (fun ok s => (ok, s.db) = e.apply build t ∧ (s.overflow = true ↔ e.Overflows build))
      (Provider.idle t) := e.run_wp hwhole
  constructor
  · intro hread hok
    obtain ⟨ok, s, hread, hedit, hoverflow⟩ := hread.and hrun
    obtain ⟨rfl, hdb⟩ := Prod.mk.inj hedit
    obtain ⟨hfits, hclean⟩ := hread hok
    exact ⟨fun hlong => by simp [hoverflow.mpr hlong] at hfits, hdb ▸ hclean⟩
  · intro h
    refine hrun.mono ?_
    rintro ok s ⟨hedit, hoverflow⟩ hok
    obtain ⟨rfl, hdb⟩ := Prod.mk.inj hedit
    obtain ⟨hfits, hclean⟩ := h hok
    exact ⟨by simpa using mt hoverflow.mp hfits, hdb ▸ hclean⟩

theorem accountQuery {uid : CString} (huid : QuoteFree uid) :
    (recordsDb sqlite build).query (.build (.accountGetOne uid)) t =
      (sqlite.select 5 accountCells (t.accounts.rows.filter (·.uid = uid)), t) :=
  recordsDb_query rfl fun _ hs => List.mem_singleton.mp hs ▸ huid

theorem accountGetOne_clean {uid : CString} (huid : QuoteFree uid) {a : Account}
    (ha : AccountFits a) (hfind : t.accounts.find uid = some a) :
    Clean (recordsDb sqlite build) past t (dbAccountGetOne uid true) (1, some a) := by
  refine getOne_clean (accountQuery huid) ?_ rfl rfl (reads_account ha)
  rw [select_key, hfind]
  rfl

theorem accountAdd_iff {a : Account} (hvalid : (Check.accountAdd a).Valid build) :
    (Check.accountAdd a).Holds sqlite build past uninitialised t ↔
      (Check.accountAdd a).Condition build t := by
  obtain ⟨ha, hwhole⟩ := hvalid
  have hread : (Check.accountAdd a).Holds sqlite build past uninitialised t ↔
      ((Edit.accountAdd a).apply build t).1 → ¬ (Edit.accountAdd a).Overflows build ∧
        Clean (recordsDb sqlite build) past ((Edit.accountAdd a).apply build t).2
          (dbAccountGetOne (wordToLower a.uid) true) (1, some (stored build a)) :=
    readBack_iff hwhole
  have hclean : ((Edit.accountAdd a).apply build t).1 →
      Clean (recordsDb sqlite build) past ((Edit.accountAdd a).apply build t).2
        (dbAccountGetOne (wordToLower a.uid) true) (1, some (stored build a)) := by
    intro hok
    have huid : QuoteFree (wordToLower a.uid) :=
      quoteFree_wordToLower.mpr (hwhole a.uid (by simp [Builder.inserted]))
    exact accountGetOne_clean huid (ha.stored build) (Table.find_insert hok)
  have hadded : ((Edit.accountAdd a).apply build t).1 = true ↔
      t.accounts.find (wordToLower a.uid) = none := Table.insert_fst
  rw [hread, Check.Condition, ← hadded]
  refine forall_congr' fun hok => ?_
  rw [and_iff_left (hclean hok), Edit.Overflows]
  omega

theorem dishAdd_iff {d : DishRow} (hvalid : (Check.dishAdd d).Valid build) :
    (Check.dishAdd d).Holds sqlite build past uninitialised t ↔
      (Check.dishAdd d).Condition build t := by
  have hread : (Check.dishAdd d).Holds sqlite build past uninitialised t ↔
      ((Edit.dishAdd d).apply build t).1 → ¬ (Edit.dishAdd d).Overflows build ∧
        Clean (recordsDb sqlite build) past ((Edit.dishAdd d).apply build t).2
          (dbDishGetOne d.id true) (1, some d) :=
    readBack_iff hvalid.2
  have hadded : ((Edit.dishAdd d).apply build t).1 = true ↔ t.dishes.find d.id = none :=
    Table.insert_fst
  rw [hread, Check.Condition, Ne, ← hadded]
  refine ⟨fun h hok => ?_, fun h hok => absurd hok h⟩
  -- eight columns are not one
  obtain ⟨r, s, ⟨hr, -⟩, rfl⟩ := (h hok).2.and (getOne_fields (recordsDb_query rfl trivial)
    (by decide : (8 : ℕ) ≠ 1))
  cases hr

theorem seatQuery (id : ℤ) : (recordsDb sqlite build).query (.seatGetOne id) t =
    (sqlite.select 3 seatCells (t.seats.rows.filter (·.id = id)), t) :=
  recordsDb_query rfl trivial

theorem seatGetOne_strays {s : Seat} (hs : SeatFits s) (old : List UInt8)
    (hfind : t.seats.find s.id = some s) :
    (dbSeatGetOne s.id old true).wp (Provider.handle (recordsDb sqlite build) past)
      (fun r p => r.1 = 1 ∧ p.stray = true) (Provider.idle t) := by
  have hrows : (sqlite.select 3 seatCells (t.seats.rows.filter (·.id = s.id))).rows =
      [seatCells s] := by
    rw [select_key, hfind]
    rfl
  refine (getOne_row (seatQuery s.id) hrows rfl rfl fun p row hat _ _ =>
    readSeatOne_strays hs old hat).mono ?_
  rintro r p ⟨hret, b, p', -, hstray, hp, -⟩
  exact ⟨hret, hp.trans hstray⟩

theorem seatAdd_iff {s : Seat} {old : List UInt8} (hvalid : (Check.seatAdd s old).Valid build) :
    (Check.seatAdd s old).Holds sqlite build past uninitialised t ↔
      (Check.seatAdd s old).Condition build t := by
  have hread : (Check.seatAdd s old).Holds sqlite build past uninitialised t ↔
      ((Edit.seatAdd s).apply build t).1 → ¬ (Edit.seatAdd s).Overflows build ∧
        Clean (recordsDb sqlite build) past ((Edit.seatAdd s).apply build t).2
          (dbSeatGetOne s.id old true) (1, some s) :=
    readBack_iff hvalid.2
  have hadded : ((Edit.seatAdd s).apply build t).1 = true ↔ t.seats.find s.id = none :=
    Table.insert_fst
  rw [hread, Check.Condition, Ne, ← hadded]
  refine ⟨fun h hok => ?_, fun h hok => absurd hok h⟩
  obtain ⟨r, p, ⟨-, hinside, -⟩, -, hstray⟩ :=
    (h hok).2.and (seatGetOne_strays hvalid.1 old (Table.find_insert hok))
  rw [hinside] at hstray
  cases hstray

/-! ### Keys -/

theorem accountKey_holds (hfits : t.Fits) {uid : CString} (huid : QuoteFree uid) :
    (Check.accountKey uid).Holds sqlite build past uninitialised t := by
  refine foundIff_of_row (accountQuery huid) (select_key_ne_nil t.accounts uid 5 accountCells) ?_
  rintro ⟨a, ha, rfl⟩
  have hfind : t.accounts.find a.uid = some a := Table.find_eq_some_iff.mpr ⟨ha, rfl⟩
  exact getOne_found ⟨a, accountGetOne_clean huid (hfits.accounts a ha) hfind⟩

theorem dishKey_iff (id : ℤ) : (Check.dishKey id).Holds sqlite build past uninitialised t ↔
    t.dishes.find id = none := by
  rw [← Option.not_isSome_iff_eq_none, Table.find_isSome_iff]
  exact foundIff_of_fields (recordsDb_query rfl trivial) (select_key_ne_nil t.dishes id 8 _)
    (by decide : (8 : ℕ) ≠ 1)

theorem seatKey_holds (hfits : t.Fits) (id : ℤ) (old : List UInt8) :
    (Check.seatKey id old).Holds sqlite build past uninitialised t := by
  refine foundIff_of_row (seatQuery id) (select_key_ne_nil t.seats id 3 seatCells) ?_
  rintro ⟨s, hs, rfl⟩
  have hfind : t.seats.find s.id = some s := Table.find_eq_some_iff.mpr ⟨hs, rfl⟩
  exact (seatGetOne_strays (hfits.seats s hs) old hfind).mono fun r _ hr => hr.1

/-! ### Lists -/

theorem accountList_iff (hfits : t.Fits) : Check.accountList.Holds sqlite build past uninitialised
    t ↔ t.accounts.rows.length < 2 ^ 31 := by
  have hcounting : (recordsDb sqlite build).query .accountCount t =
      (counted t.accounts.rows, t) := recordsDb_query rfl trivial
  have hquery : (recordsDb sqlite build).query .accountSelect t =
      (sqlite.select 5 accountCells t.accounts.rows, t) := recordsDb_query rfl trivial
  rw [← listed_iff (sqlite.scan_perm t.accounts.rows) t.accounts.nodup_rows hcounting hquery
    (fun a ha => ⟨rfl, reads_account (hfits.accounts a ha)⟩) uninitialised]
  refine exists_congr fun as => and_congr_right fun _ => and_congr_left fun _ => ?_
  constructor
  · intro h a
    exact (h t [] .nil a).trans stands_nil
  · intro h t₀ es hedits a
    exact (h a).trans hedits.accounts.mem_iff

theorem dishList_iff (hfits : t.Fits) (category : ℤ) :
    (Check.dishList category).Holds sqlite build past uninitialised t ↔
      (t.dishes.rows.filter (·.category = category)).length < 2 ^ 31 := by
  have hcounting : (recordsDb sqlite build).query (.dishCount category) t =
      (counted (t.dishes.rows.filter (·.category = category)), t) := recordsDb_query rfl trivial
  have hquery : (recordsDb sqlite build).query (.dishSelect category) t =
      (sqlite.select 8 (fun d => dishCells (sqlite.created d) d)
        (t.dishes.rows.filter (·.category = category)), t) := recordsDb_query rfl trivial
  rw [← listed_iff (sqlite.scan_perm _) (t.dishes.nodup_rows.filter _) hcounting hquery
    (fun d hd => ⟨rfl, reads_dish (hfits.dishes d (List.mem_of_mem_filter hd)) _⟩) uninitialised]
  refine exists_congr fun ds => and_congr_right fun _ => and_congr_left fun _ => ?_
  simp only [List.mem_filter, decide_eq_true_eq]
  constructor
  · intro h d
    exact (h t [] .nil d).trans (and_congr_left' stands_nil)
  · intro h t₀ es hedits d
    exact (h d).trans (and_congr_left' hedits.dishes.mem_iff)

theorem seatList_iff (hfits : t.Fits) : Check.seatList.Holds sqlite build past uninitialised t ↔
    t.seats.rows.length < 2 ^ 31 := by
  have hcounting : (recordsDb sqlite build).query .seatCount t = (counted t.seats.rows, t) :=
    recordsDb_query rfl trivial
  have hquery : (recordsDb sqlite build).query .seatSelect t =
      (sqlite.select 3 seatCells t.seats.rows, t) := recordsDb_query rfl trivial
  rw [← listed_iff (sqlite.scan_perm t.seats.rows) t.seats.nodup_rows hcounting hquery
    (fun s hs => ⟨rfl, reads_seat (hfits.seats s hs)⟩) uninitialised]
  refine exists_congr fun ss => and_congr_right fun _ => and_congr_left fun _ => ?_
  constructor
  · intro h s
    exact (h t [] .nil s).trans stands_nil
  · intro h t₀ es hedits s
    exact (h s).trans hedits.seats.mem_iff

/-- Accounts are read back if their hash fits into its buffer, and keys of accounts and seats
are found. A dish or a seat that was added is never read back, and a dish that is there is only
found without an output. A list is right as long as its length is an `int`. -/
theorem recordsRead_iff (hfits : t.Fits) (c : Check) (hvalid : c.Valid build) :
    c.Holds sqlite build past uninitialised t ↔ c.Condition build t := by
  cases c with
  | accountAdd a => exact accountAdd_iff hvalid
  | dishAdd d => exact dishAdd_iff hvalid
  | seatAdd s old => exact seatAdd_iff hvalid
  | accountKey uid => exact iff_of_true (accountKey_holds hfits hvalid) trivial
  | dishKey id => exact dishKey_iff id
  | seatKey id old => exact iff_of_true (seatKey_holds hfits id old) trivial
  | accountList => exact accountList_iff hfits
  | dishList category => exact dishList_iff hfits category
  | seatList => exact seatList_iff hfits

end Records

/-- SQLite, with rows in the order of their insertion. -/
def plainSqlite : Sqlite where
  scan rows := rows
  scan_perm rows := .refl rows
  created _ := lit "2014-05-01 12:00:00"
  other := ⟨fun _ t => (⟨0, [], true⟩, t), fun _ t => (false, t)⟩

def noTables : Tables := ⟨⟨[], .nil⟩, ⟨[], .nil⟩, ⟨[], .nil⟩⟩

def tea : DishRow := ⟨⟨3, 1, lit "tea", lit "", 0, 12⟩, lit ""⟩

def window : Seat := ⟨3, lit "window", lit "qr"⟩

theorem recordsRead_account :
    let ann : Account := ⟨1, lit "Ann", lit "secret", lit "", lit ""⟩
    (Check.accountAdd ann).Holds plainSqlite .debug noRow 0 noTables := by
  intro ann
  have hfits : noTables.Fits := ⟨nofun, nofun, nofun⟩
  have hvalid : (Check.accountAdd ann).Valid .debug :=
    ⟨⟨⟨by decide, by decide⟩, by decide, by decide, by decide, by decide⟩, by decide⟩
  exact (recordsRead_iff hfits (Check.accountAdd ann) hvalid).mpr fun _ => by decide

/-- A dish that has just been added is not got, and a seat is got with a read of its fourth
column. -/
theorem added_not_read :
    ((dbDishAdd tea >>= fun _ => dbDishGetOne 3 true).exec
      (Provider.handle (recordsDb plainSqlite .debug) noRow) (Provider.idle noTables)).map
        (·.1.1) = some 0 ∧
    ((dbSeatAdd window >>= fun _ => dbSeatGetOne 3 [] true).exec
      (Provider.handle (recordsDb plainSqlite .debug) noRow) (Provider.idle noTables)).map
        (fun r => (r.1.1, r.2.stray)) = some (1, true) ∧
    ¬ (Check.dishAdd tea).Holds plainSqlite .debug noRow 0 noTables ∧
    ¬ (Check.seatAdd window []).Holds plainSqlite .debug noRow 0 noTables := by
  refine ⟨by decide, by decide, fun h => ?_, fun h => ?_⟩
  · have hvalid : (Check.dishAdd tea).Valid .debug :=
      ⟨⟨⟨by decide, by decide⟩, ⟨by decide, by decide⟩, by decide, by decide, by decide,
        ⟨by decide, by decide⟩, ⟨by decide, by decide⟩⟩, by decide⟩
    exact (dishAdd_iff hvalid).mp h rfl
  · have hvalid : (Check.seatAdd window []).Valid .debug :=
      ⟨⟨⟨by decide, by decide⟩, by decide, by decide⟩, by decide⟩
    exact (seatAdd_iff hvalid).mp h rfl

end Youmenu.Server.Dbp
