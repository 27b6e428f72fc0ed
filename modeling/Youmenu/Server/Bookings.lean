import Youmenu.Server.References

/-!
# Bookings: `db_book.c` under `res_dish_book` and `res_dish_cancel`

The two handlers on the tables of the dishes, the seats and the bookings. A table is
cancelled by the number of a booking, the comment of a booking is copied without its
terminator, and `db_book_get` releases every row twice.

## Main definitions

* `Menu`, `menuDb` — the tables, and the database of the handlers with these in it.
* `CancelsSeat` — what is asked of `res_dish_cancel`.
* `StoredAsOrdered`, `ListedAsOrdered` — what is asked of `res_dish_book`.
-/

namespace Youmenu.Server

open Eventpack Program

/-! ## The source -/

/-- The thumbnail is in the table, but no handler reads it. -/
structure DishRow extends Dish where
  thumbnail : CString

structure Menu where
  dishes : List DishRow
  seats : List Seat
  books : List Book

/-- What SQLite makes of a booking: the number that it gives to a new row, the value of
`jin_or_plate` in a new row, the value that `atof` reads from the text of such a column,
and what an `INSERT` does that a quote in the comment has broken up. -/
structure BookSql where
  bookId : List Book → ℤ
  store : Amount → BitVec 64
  load : BitVec 64 → BitVec 64
  exec : ℤ → ℤ → Amount → CString → List Book → Bool × List Book

/-- `book_accept_state_idle`. -/
def bookAcceptStateIdle : ℤ := 0

/-- `atoi` on the digits of a whole number. -/
def atoi (n : ℤ) : ℤ := n.bmod (2 ^ 32)

section Table

variable (sql : BookSql) (rows : List Book)

/-- SQLite refuses `inf` and `nan` in a statement. -/
def dbBookAdd (seatId dishId : ℤ) (jinOrPlate : Amount) (comment : CString) : Bool × List Book :=
  if QuoteFree comment then
    if jinOrPlate.finite then
      (true, rows ++ [⟨sql.bookId rows, seatId, dishId, sql.store jinOrPlate, comment,
        bookAcceptStateIdle⟩])
    else (false, rows)
  else sql.exec seatId dishId jinOrPlate comment rows

def dbBookDel (bookId : ℤ) : Bool × List Book := (true, rows.filter (·.bookId ≠ bookId))

/-- An element of the array that `db_book_get` fills. -/
def readBook (b : Book) : Book :=
  ⟨atoi b.bookId, atoi b.seatId, atoi b.dishId, sql.load b.jinOrPlate, b.comment,
    atoi b.acceptState⟩

/-- `dbp_fetch_row_free`, with the addresses of the rows that are allocated. `none` is a
read of a row that was released before. -/
def dbpFetchRowFree (live : List ℕ) (row : ℕ) : Option (List ℕ) :=
  if row ∈ live then some (live.erase row) else none

/-- The loop of `db_book_get`. `dbp_fetch_row` allocates a row, the comment and its
terminator have to fit into 256 bytes, and the row is released twice. -/
def readBooks (live : List ℕ) (next : ℕ) : List Book → Option (List Book)
  | [] => some []
  | b :: rows => do
    let live := next :: live
    if b.comment.bytes.length ≤ 255 then
      let live ← dbpFetchRowFree live next
      let live ← dbpFetchRowFree live next
      let books ← readBooks live (next + 1) rows
      return readBook sql b :: books
    else none

/-- `none`: the memory of the process is corrupted. -/
def dbBookGet (seatId : ℤ) : Option (List Book) :=
  let found := rows.filter (·.seatId = seatId)
  if found.length = 0 then some [] else readBooks sql [] 0 found

end Table

/-- A database with the tables of the menu, and `other` for the accounts. `res_dish_list`
gets what is in the array if the second release of the rows goes unnoticed. -/
def menuDb (sql : BookSql) {ρ : Type} (other : Db ρ) : Db (Menu × ρ)
  | .dishGetByCategory category, d =>
    ((d.1.dishes.filter (·.category = category)).map (·.toDish), d)
  | .dishGetOne id, d => (d.1.dishes.any (·.id = id), d)
  | .seatGetOne id, d => (d.1.seats.any (·.id = id), d)
  | .seatGet, d => (d.1.seats, d)
  | .bookAdd seatId dishId jinOrPlate comment, d =>
    let r := dbBookAdd sql d.1.books seatId dishId jinOrPlate comment
    (r.1, { d.1 with books := r.2 }, d.2)
  | .bookDel bookId, d =>
    let r := dbBookDel d.1.books bookId
    (r.1, { d.1 with books := r.2 }, d.2)
  | .bookGet seatId, d =>
    ((d.1.books.filter (·.seatId = seatId)).map (readBook sql), d)
  | op, d =>
    let r := other op d.2
    (r.1, d.1, r.2)

/-- The connection has a session of a menu or an administrator. -/
def MenuSession (m : SessionMod) (fd : ℕ) : Prop :=
  ∃ n ∈ m.sessionList, n.session.fd = fd ∧
    (n.session.aType = accountMenu ∨ n.session.aType = accountAdmin)

def SeatExists (menu : Menu) (seat : ℤ) : Prop := ∃ s ∈ menu.seats, s.id = seat

def DishExists (menu : Menu) (dish : ℤ) : Prop := ∃ d ∈ menu.dishes, d.id = dish

/-- What a client reads as `dish_r_ok`. -/
def AnswersOk (reply : Reply) : Prop := replyResult reply = some DishResult.ok.ctorIdx

instance (reply : Reply) : Decidable (AnswersOk reply) :=
  inferInstanceAs (Decidable (replyResult reply = some _))

section Handlers

variable {ρ δ : Type} {sql : BookSql} {other : Db ρ} {db : Db δ} {m : SessionMod} {fd : ℕ}

/-- A session of an allowed role is let through and everything is as it was. -/
theorem wp_checkPermission_allowed (hm : Settled (fun _ _ _ => True) m) {allowed : ℤ → Bool}
    (hsession : ∃ n ∈ m.sessionList, n.session.fd = fd ∧ allowed n.session.aType = true)
    {expired denied : PackOp} {d : δ} {Q : Reply → SessionMod × δ → Prop}
    {k : Option Reply → Handler Reply} (hk : (k none).wp (interp db) Q (m, d)) :
    (checkPermission fd allowed expired denied >>= k).wp (interp db) Q (m, d) := by
  obtain ⟨n, hn, hfd, hallowed⟩ := hsession
  rw [wp_bind]
  refine wp_refFd hm (fun hnone => absurd hfd (hnone n hn)) fun n' hn' hfd' => ?_
  obtain rfl := hm.session_unique hn hfd hn' hfd'
  rw [wp_read hm hn, wp_dref hm hn, hallowed]
  exact hk

theorem wp_checkMenuPermission (hm : Settled (fun _ _ _ => True) m) (hsession : MenuSession m fd)
    {d : δ} {Q : Reply → SessionMod × δ → Prop} {k : Option Reply → Handler Reply}
    (hk : (k none).wp (interp db) Q (m, d)) :
    (checkMenuPermission fd >>= k).wp (interp db) Q (m, d) := by
  obtain ⟨n, hn, hfd, htype⟩ := hsession
  exact wp_checkPermission_allowed hm ⟨n, hn, hfd, by simpa using htype⟩ hk

/-! ## Cancelling a table -/

/-- `res_dish_cancel` returns, and when it answers `dish_r_ok`, exactly the bookings of
other seats are left. -/
def CancelsSeat (sql : BookSql) (other : Db ρ) (s : SessionMod × Menu × ρ) (fd : ℕ) (pack : Pack)
    (seat : ℤ) : Prop :=
  ∃ reply m' menu' o', (resDishCancel fd pack).exec (interp (menuDb sql other)) s =
      some (reply, m', menu', o') ∧
    (AnswersOk reply → menu'.books = s.2.1.books.filter (·.seatId ≠ seat))

/-- What `res_dish_cancel` does for a seat that exists. -/
theorem wp_resDishCancel (sql : BookSql) (other : Db ρ) (o : ρ)
    (hm : Settled (fun _ _ _ => True) m) (hsession : MenuSession m fd)
    {menu : Menu} {pack : Pack} {seat : ℤ} (hpack : intParam pack "seat_id" (-1) = seat)
    (hseat : SeatExists menu seat) :
    (resDishCancel fd pack).wp (interp (menuDb sql other)) (fun reply s =>
      if seat < 0 then reply = [DishResult.illegalParameter.append]
      else reply = [DishResult.ok.append] ∧
        s = (m, { menu with books := menu.books.filter (·.bookId ≠ seat) }, o))
      (m, menu, o) := by
  subst hpack
  refine wp_checkMenuPermission hm hsession ?_
  by_cases hneg : intParam pack "seat_id" (-1) < 0
  · simp only [hneg, if_true]
    exact rfl
  · have hfound : menu.seats.any (·.id = intParam pack "seat_id" (-1)) = true := by
      simpa [SeatExists] using hseat
    simp only [hneg, if_false]
    refine wp_db.mpr ?_
    simp only [menuDb, hfound, Bool.not_true, Bool.false_eq_true, if_false]
    exact wp_db.mpr ⟨rfl, rfl⟩

theorem filter_bookId_eq_iff {books : List Book} {seat : ℤ} :
    books.filter (·.bookId ≠ seat) = books.filter (·.seatId ≠ seat) ↔
      ∀ b ∈ books, b.bookId = seat ↔ b.seatId = seat := by
  constructor
  · intro heq b hb
    have hmem : b ∈ books.filter (·.bookId ≠ seat) ↔ b ∈ books.filter (·.seatId ≠ seat) := by
      rw [heq]
    grind
  · intro hsame
    refine List.filter_congr fun b hb => ?_
    simp [hsame b hb]

/-- For every booking table and every seat that exists: a request of a menu or an
administrator to cancel the seat leaves exactly the bookings of the other seats if and
only if the bookings with that number are the bookings of that seat. -/
theorem cancelsSeat_iff (sql : BookSql) (other : Db ρ) (hm : Settled (fun _ _ _ => True) m)
    (hsession : MenuSession m fd) {menu : Menu} (o : ρ) {pack : Pack} {seat : ℤ}
    (hpack : intParam pack "seat_id" (-1) = seat) (hseat : SeatExists menu seat) :
    CancelsSeat sql other (m, menu, o) fd pack seat ↔
      (0 ≤ seat → ∀ b ∈ menu.books, b.bookId = seat ↔ b.seatId = seat) := by
  obtain ⟨reply, s', hexec, hreply⟩ :=
    wp_iff_exec.mp (wp_resDishCancel sql other o hm hsession hpack hseat)
  have hcancels : CancelsSeat sql other (m, menu, o) fd pack seat ↔
      (AnswersOk reply → s'.2.1.books = menu.books.filter (·.seatId ≠ seat)) := by
    constructor
    · rintro ⟨reply', m', menu', o', hexec', hok⟩
      obtain ⟨rfl, rfl⟩ := Prod.mk.inj (Option.some.inj (hexec'.symm.trans hexec))
      exact hok
    · exact fun hok => ⟨reply, s'.1, s'.2.1, s'.2.2, hexec, hok⟩
  rw [hcancels]
  by_cases hneg : seat < 0
  · rw [if_pos hneg] at hreply
    subst hreply
    have hnot : ¬ AnswersOk [DishResult.illegalParameter.append] := by decide
    exact ⟨fun _ h => absurd h (not_le.mpr hneg), fun _ h => absurd h hnot⟩
  · rw [if_neg hneg] at hreply
    obtain ⟨rfl, rfl⟩ := hreply
    have hok : AnswersOk [DishResult.ok.append] := by decide
    rw [← filter_bookId_eq_iff]
    exact ⟨fun h _ => h hok, fun h _ => h (not_lt.mp hneg)⟩

/-! ## Booking a dish -/

/-- The comment of the last element of that name. -/
def requestComment (pack : Pack) : CString :=
  (pack.getD []).foldl (fun c f => if f.key = lit "comment" then f.value.toCString else c) (lit "")

/-- What `strncpy(book.comment, comment, strlen(comment))` leaves in the booking. -/
def bookComment (junk : Junk) (comment : CString) : CString :=
  strncpy comment.bytes.length comment (junk.behind "book.comment")

/-- The request orders a dish of the menu on one of the tables, in a positive amount and
with a comment of at most 255 bytes and without a quote. -/
structure Orders (menu : Menu) (junk : Junk) (pack : Pack) (seat dish : ℤ) (comment : CString) :
    Prop where
  seatId : intParam pack "seat_id" (-1) = seat
  dishId : intParam pack "dish_id" (-1) = dish
  text : requestComment pack = comment
  seatExists : SeatExists menu seat
  dishExists : DishExists menu dish
  seatValid : 0 ≤ seat
  dishValid : 0 ≤ dish
  amount : (bookParam junk pack).jinOrPlate.nonpos = false
  short : comment.bytes.length ≤ 255
  unquoted : QuoteFree comment

/-- The booking is the order. -/
def IsOrder (seat dish : ℤ) (comment : CString) (b : Book) : Prop :=
  b.seatId = seat ∧ b.dishId = dish ∧ b.acceptState = bookAcceptStateIdle ∧ b.comment = comment

/-- The table of the bookings has exactly one more row, and this is the order. -/
def StoredAsOrdered (before after : List Book) (seat dish : ℤ) (comment : CString) : Prop :=
  ∃ b, after = before ++ [b] ∧ IsOrder seat dish comment b

/-- `db_book_get` returns the bookings that the seat had before and the order. -/
def ListedAsOrdered (sql : BookSql) (before after : List Book) (seat dish : ℤ)
    (comment : CString) : Prop :=
  ∃ b, dbBookGet sql after seat =
      some ((before.filter (·.seatId = seat)).map (readBook sql) ++ [b]) ∧
    IsOrder seat dish comment b

/-- `res_dish_book` returns, and when it answers `dish_r_ok`, the order is stored and
listed. -/
def BooksAsOrdered (sql : BookSql) (other : Db ρ) (s : SessionMod × Menu × ρ) (junk : Junk)
    (fd : ℕ) (pack : Pack) (seat dish : ℤ) (comment : CString) : Prop :=
  ∃ reply m' menu' o', (resDishBook junk fd pack).exec (interp (menuDb sql other)) s =
      some (reply, m', menu', o') ∧
    (AnswersOk reply → StoredAsOrdered s.2.1.books menu'.books seat dish comment ∧
      ListedAsOrdered sql s.2.1.books menu'.books seat dish comment)

theorem bookParam_comment (junk : Junk) (pack : Pack) :
    (bookParam junk pack).comment = strncpy 256 (requestComment pack) (junk.behind "comment") := by
  have hfold : ∀ (fields : List PackField) (p : BookParam) (c : CString),
      p.comment = strncpy 256 c (junk.behind "comment") →
      (fields.foldl (fun p f =>
        if f.key = lit "jin_or_plate" then { p with jinOrPlate := f.value.toAmount }
        else if f.key = lit "comment" then
          { p with comment := strncpy 256 f.value.toCString (junk.behind "comment") }
        else p) p).comment =
      strncpy 256 (fields.foldl (fun c f =>
        if f.key = lit "comment" then f.value.toCString else c) c) (junk.behind "comment") := by
    intro fields
    induction fields with
    | nil => exact fun p c h => h
    | cons f fields ih =>
      intro p c h
      refine ih _ _ ?_
      by_cases hjin : f.key = lit "jin_or_plate"
      · have hne : f.key ≠ lit "comment" := by
          rw [hjin]
          decide
        simpa only [if_pos hjin, if_neg hne] using h
      · by_cases hcomment : f.key = lit "comment"
        · simp only [if_neg hjin, if_pos hcomment]
        · simpa only [if_neg hjin, if_neg hcomment] using h
  exact hfold _ _ _ rfl

theorem bookComment_bytes (junk : Junk) (comment : CString) :
    (bookComment junk comment).bytes = comment.bytes ++ (junk.behind "book.comment").bytes := by
  simp [bookComment, strncpy]

/-- `db_book_get` never returns a booking: it has released the first row twice. -/
theorem dbBookGet_eq_nil (sql : BookSql) (rows : List Book) (seat : ℤ) {books : List Book}
    (hget : dbBookGet sql rows seat = some books) : books = [] := by
  simp only [dbBookGet] at hget
  split at hget
  · exact (Option.some.inj hget).symm
  · next hfound =>
    obtain ⟨b, rows', hrows⟩ := List.exists_cons_of_length_pos (Nat.pos_of_ne_zero hfound)
    rw [hrows] at hget
    simp [readBooks, dbpFetchRowFree] at hget

/-- What `res_dish_book` does with an order. -/
theorem wp_resDishBook (sql : BookSql) (other : Db ρ) (o : ρ)
    (hm : Settled (fun _ _ _ => True) m) (hsession : MenuSession m fd) {menu : Menu} {junk : Junk}
    {pack : Pack} {seat dish : ℤ} {comment : CString}
    (horder : Orders menu junk pack seat dish comment) :
    (resDishBook junk fd pack).wp (interp (menuDb sql other)) (fun reply s =>
      let r := dbBookAdd sql menu.books seat dish (bookParam junk pack).jinOrPlate
        (bookComment junk comment)
      reply = [if r.1 then DishResult.ok.append else DishResult.serviceUnavailable.append] ∧
        s.2.1.books = r.2)
      (m, menu, o) := by
  obtain ⟨rfl, rfl, rfl, hseat, hdish, hseat0, hdish0, hamount, hshort, -⟩ := horder
  have hcomment : (bookParam junk pack).comment = requestComment pack := by
    rw [bookParam_comment, strncpy, if_pos (by omega)]
  have hvalid : (intParam pack "seat_id" (-1) < 0 || intParam pack "dish_id" (-1) < 0 ||
      (bookParam junk pack).jinOrPlate.nonpos) = false := by
    simp [hamount, hseat0, hdish0]
  have hfoundDish : menu.dishes.any (·.id = intParam pack "dish_id" (-1)) = true := by
    simpa [DishExists] using hdish
  have hfoundSeat : menu.seats.any (·.id = intParam pack "seat_id" (-1)) = true := by
    simpa [SeatExists] using hseat
  refine wp_checkMenuPermission hm hsession ?_
  simp only [hvalid, Bool.false_eq_true, if_false]
  refine wp_db.mpr ?_
  simp only [menuDb, hfoundDish, Bool.not_true, Bool.false_eq_true, if_false]
  refine wp_db.mpr ?_
  simp only [menuDb, hfoundSeat, Bool.not_true, Bool.false_eq_true, if_false]
  refine wp_db.mpr ?_
  rw [hcomment]
  show Program.wp _ (if (dbBookAdd sql menu.books _ _ _ (bookComment junk _)).1 = true
    then _ else _) _ _
  split
  · exact ⟨rfl, rfl⟩
  · exact ⟨rfl, rfl⟩

theorem dbBookAdd_of_finite {sql : BookSql} {books : List Book} {seat dish : ℤ} {jin : Amount}
    {comment : CString} (hquote : QuoteFree comment) (hfinite : jin.finite = true) :
    dbBookAdd sql books seat dish jin comment =
      (true, books ++ [⟨sql.bookId books, seat, dish, sql.store jin, comment,
        bookAcceptStateIdle⟩]) := by
  rw [dbBookAdd, if_pos hquote, if_pos hfinite]

/-- A row that was inserted is the order exactly if nothing stood behind its comment. -/
theorem storedAsOrdered_iff {sql : BookSql} {books : List Book} {seat dish : ℤ} {jin : Amount}
    {junk : Junk} {comment : CString} (hquote : QuoteFree (bookComment junk comment))
    (hfinite : jin.finite = true) : StoredAsOrdered books
      (dbBookAdd sql books seat dish jin (bookComment junk comment)).2 seat dish comment ↔
        (junk.behind "book.comment").bytes = [] := by
  have hcomment : bookComment junk comment = comment ↔ (junk.behind "book.comment").bytes = [] := by
    constructor
    · intro heq
      have hbytes := bookComment_bytes junk comment
      rw [heq] at hbytes
      simpa using hbytes
    · intro hnil
      have hbytes := bookComment_bytes junk comment
      rw [hnil, List.append_nil] at hbytes
      exact CString.ext hbytes
  rw [← hcomment, dbBookAdd_of_finite hquote hfinite]
  constructor
  · rintro ⟨b, hrows, -, -, -, hb⟩
    obtain ⟨rfl⟩ := List.append_cancel_left hrows
    exact hb
  · exact fun heq => ⟨_, rfl, rfl, rfl, rfl, heq⟩

/-- For every order, whatever the stack holds: `res_dish_book` returns, and where it answers
`dish_r_ok`, the booking is never listed as ordered, since `db_book_get` releases every row
twice. The row alone is stored as ordered, where what stands behind the comment on the
stack does not break the statement and the amount is finite, if and only if nothing stands
there. -/
theorem order_not_booked (sql : BookSql) (other : Db ρ) (hm : Settled (fun _ _ _ => True) m)
    (hsession : MenuSession m fd) {menu : Menu} (o : ρ) {junk : Junk} {pack : Pack} {seat dish : ℤ}
    {comment : CString} (horder : Orders menu junk pack seat dish comment) :
    ∃ reply m' menu' o', (resDishBook junk fd pack).exec (interp (menuDb sql other))
        (m, menu, o) = some (reply, m', menu', o') ∧
      (AnswersOk reply →
        ¬ BooksAsOrdered sql other (m, menu, o) junk fd pack seat dish comment) ∧
      (QuoteFree (junk.behind "book.comment") → (bookParam junk pack).jinOrPlate.finite →
        AnswersOk reply ∧ (StoredAsOrdered menu.books menu'.books seat dish comment ↔
          (junk.behind "book.comment").bytes = [])) := by
  obtain ⟨reply, ⟨m', menu', o'⟩, hexec, hreply, hbooks⟩ :=
    wp_iff_exec.mp (wp_resDishBook sql other o hm hsession horder)
  refine ⟨reply, m', menu', o', hexec, fun hok hbooked => ?_, fun hquote hfinite => ?_⟩
  · obtain ⟨reply', m'', menu'', o'', hexec', h⟩ := hbooked
    obtain ⟨rfl, -⟩ := Prod.mk.inj (Option.some.inj (hexec'.symm.trans hexec))
    obtain ⟨-, b, hget, -⟩ := h hok
    have hnil := dbBookGet_eq_nil sql _ seat hget
    simp at hnil
  · have hfree : QuoteFree (bookComment junk comment) := by
      have hcomment := horder.unquoted
      simp only [QuoteFree, decide_eq_true_eq, bookComment_bytes, List.mem_append] at *
      tauto
    have hadded : (dbBookAdd sql menu.books seat dish (bookParam junk pack).jinOrPlate
        (bookComment junk comment)).1 = true := by
      rw [dbBookAdd_of_finite hfree hfinite]
    rw [show menu'.books = _ from hbooks]
    refine ⟨?_, storedAsOrdered_iff hfree hfinite⟩
    rw [hreply, if_pos hadded]
    decide

end Handlers

/-- A database that numbers the bookings one after the other, keeps whole numbers as they
are and refuses what it cannot read. -/
def plainSql : BookSql :=
  ⟨fun rows => rows.length + 1, fun _ => 0x3FF0000000000000#64, id,
    fun _ _ _ _ rows => (false, rows)⟩

theorem menuSession_annLoggedIn : MenuSession annLoggedIn 5 :=
  ⟨_, List.mem_singleton_self _, rfl, .inl rfl⟩

/-- Two tables and a dish, and one booking on one of the tables. -/
def smallMenu (bookId seatId : ℤ) : Menu :=
  ⟨[⟨⟨1, 0, lit "tea", lit "", 0, 2⟩, lit ""⟩], [⟨1, lit "", lit ""⟩, ⟨2, lit "", lit ""⟩],
    [⟨bookId, seatId, 1, 0x3FF0000000000000#64, lit "", bookAcceptStateIdle⟩]⟩

def cancelPack (seat : BitVec 32) : Pack := some [⟨lit "seat_id", .int seat⟩]

/-- Both tables are booked, each under its own number. -/
def bothBooked : Menu :=
  { smallMenu 1 1 with books := (smallMenu 1 1).books ++ (smallMenu 2 2).books }

/-- Table 1 is cancelled, and table 2 stays booked. -/
theorem cancelsSeat_first :
    CancelsSeat plainSql emptyDb (annLoggedIn, bothBooked, ()) 5 (cancelPack 1) 1 ∧
      bothBooked.books.filter (·.seatId ≠ 1) = (smallMenu 2 2).books :=
  ⟨(cancelsSeat_iff plainSql emptyDb settled_annLoggedIn menuSession_annLoggedIn () rfl
    ⟨⟨1, lit "", lit ""⟩, .head _, rfl⟩).mpr fun _ => by simp [bothBooked, smallMenu], rfl⟩

/-- The first booking is one of table 2, and table 1 is cancelled. -/
theorem cancelsSeat_other_table :
    ¬ CancelsSeat plainSql emptyDb (annLoggedIn, smallMenu 1 2, ()) 5 (cancelPack 1) 1 := by
  rintro ⟨reply, m', menu', o', hexec, hok⟩
  obtain ⟨rfl, hs⟩ := (wp_resDishCancel plainSql emptyDb () settled_annLoggedIn
    menuSession_annLoggedIn rfl ⟨⟨1, lit "", lit ""⟩, .head _, rfl⟩).of_exec hexec
  obtain ⟨-, hs⟩ := Prod.mk.inj hs
  obtain ⟨rfl, -⟩ := Prod.mk.inj hs
  have hlength := congrArg List.length (hok (by decide))
  exact absurd hlength (by decide)

/-- One portion of the dish on table 1. -/
def orderPack (comment : String) : Pack :=
  some [⟨lit "seat_id", .int 1⟩, ⟨lit "dish_id", .int 1⟩, ⟨lit "jin_or_plate", .int 1⟩,
    ⟨lit "comment", .string (lit comment)⟩]

/-- Behind the comment the stack holds the letter `x`. -/
def strayJunk : Junk := { noJunk with behind := fun _ => lit "x" }

theorem orders_orderPack (junk : Junk) :
    Orders (smallMenu 1 2) junk (orderPack "hot") 1 1 (lit "hot") :=
  ⟨rfl, rfl, rfl, ⟨⟨1, lit "", lit ""⟩, .head _, rfl⟩, ⟨_, .head _, rfl⟩, by decide, by decide, rfl,
    by decide, by decide⟩

/-- The order comes out as `hotx`. -/
theorem order_not_booked_stray :
    ∃ reply m' menu' o', (resDishBook strayJunk 5 (orderPack "hot")).exec
        (interp (menuDb plainSql emptyDb)) (annLoggedIn, smallMenu 1 2, ()) =
          some (reply, m', menu', o') ∧
      AnswersOk reply ∧
      ¬ StoredAsOrdered (smallMenu 1 2).books menu'.books 1 1 (lit "hot") := by
  obtain ⟨reply, m', menu', o', hexec, -, hstored⟩ := order_not_booked plainSql emptyDb
    settled_annLoggedIn menuSession_annLoggedIn () (orders_orderPack strayJunk)
  obtain ⟨hok, hiff⟩ := hstored (by decide) rfl
  exact ⟨reply, m', menu', o', hexec, hok, fun h => absurd (hiff.mp h) (by decide)⟩

/-- Even where nothing stands behind the comment, the bookings of the table cannot be read
back. -/
theorem order_hot_not_booked :
    ¬ BooksAsOrdered plainSql emptyDb (annLoggedIn, smallMenu 1 2, ()) noJunk 5 (orderPack "hot") 1
      1 (lit "hot") := by
  rintro ⟨reply, m', menu', o', hexec, h⟩
  obtain ⟨hreply, -⟩ := (wp_resDishBook plainSql emptyDb () settled_annLoggedIn
    menuSession_annLoggedIn (orders_orderPack noJunk)).of_exec hexec
  have hadded : (dbBookAdd plainSql (smallMenu 1 2).books 1 1
      (bookParam noJunk (orderPack "hot")).jinOrPlate (bookComment noJunk (lit "hot"))).1 = true := by
    rw [dbBookAdd_of_finite (by decide) rfl]
  rw [if_pos hadded] at hreply
  subst hreply
  obtain ⟨-, b, hget, -⟩ := h (by decide)
  have hnil := dbBookGet_eq_nil plainSql _ 1 hget
  simp at hnil

end Youmenu.Server
