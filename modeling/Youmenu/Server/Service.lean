import Youmenu.Server.Authentication
import Mathlib.Data.List.Induction

/-!
# The bookings of a whole run

The table of the bookings against the replies that the clients got: it is what the requests
make of it that were answered with `dish_r_ok`, in the order of their answers. A request that
was refused leaves no trace in it, and nothing else does.

## Main definitions

* `served` — the server, with all requests and their replies.
* `carryOut`, `replay` — what the requests that were answered with `dish_r_ok` are for.
* `Stands` — a booking that was made, or was there, and was not cancelled.
* `Menu.Sound` — the tables of the menu belong together.
-/

namespace Youmenu.Server

open Eventpack Transition Program

/-! ## What the replies say -/

/-- The row that an order is for, under the number that SQLite gives to the next row. -/
def Request.order (sql : BookSql) (rows : List Book) (r : Request) : Book :=
  ⟨sql.bookId rows, intParam r.pack "seat_id" (-1), intParam r.pack "dish_id" (-1),
    sql.store (bookParam r.junk r.pack).jinOrPlate, r.comment, bookAcceptStateIdle⟩

/-- An order that the client was told to be accepted. -/
def Accepted (x : Request × Reply) : Prop := x.1.kind = .dishBook ∧ AnswersOk x.2

/-- A cancellation of the number that the client was told to be accepted. -/
def Cancelled (number : ℤ) (x : Request × Reply) : Prop :=
  x.1.kind = .dishCancel ∧ AnswersOk x.2 ∧ intParam x.1.pack "seat_id" (-1) = number

instance (x : Request × Reply) : Decidable (Accepted x) :=
  inferInstanceAs (Decidable (_ ∧ _))

instance (number : ℤ) (x : Request × Reply) : Decidable (Cancelled number x) :=
  inferInstanceAs (Decidable (_ ∧ _ ∧ _))

/-- What a request and its reply mean for the bookings. -/
def carryOut (sql : BookSql) (rows : List Book) (x : Request × Reply) : List Book :=
  if Accepted x then rows ++ [x.1.order sql rows]
  else rows.filter fun b => ¬ Cancelled b.bookId x

/-- The bookings after all requests. -/
def replay (sql : BookSql) (rows : List Book) (w : List (Request × Reply)) : List Book :=
  w.foldl (carryOut sql) rows

/-- The booking was there at the start or an accepted order made it, and no accepted
cancellation of its number came later. -/
def Stands (sql : BookSql) (rows : List Book) (w : List (Request × Reply)) (b : Book) : Prop :=
  (b ∈ rows ∧ ∀ y ∈ w, ¬ Cancelled b.bookId y) ∨
    ∃ w₁ x w₂, w = w₁ ++ x :: w₂ ∧ Accepted x ∧ b = x.1.order sql (replay sql rows w₁) ∧
      ∀ y ∈ w₂, ¬ Cancelled b.bookId y

section Replay

variable {sql : BookSql} {rows : List Book} {w : List (Request × Reply)} {x : Request × Reply}
  {b : Book}

@[simp] theorem replay_nil : replay sql rows [] = rows := rfl

@[simp] theorem replay_snoc : replay sql rows (w ++ [x]) = carryOut sql (replay sql rows w) x := by
  simp [replay]

theorem Accepted.not_cancelled {number : ℤ} (h : Accepted x) : ¬ Cancelled number x := by
  rintro ⟨hkind, -⟩
  rw [h.1] at hkind
  cases hkind

theorem mem_carryOut : b ∈ carryOut sql rows x ↔
    (b ∈ rows ∧ ¬ Cancelled b.bookId x) ∨ Accepted x ∧ b = x.1.order sql rows := by
  unfold carryOut
  split
  · next haccepted => simp [haccepted, haccepted.not_cancelled]
  · next hother => simp [hother]

theorem stands_snoc : Stands sql rows (w ++ [x]) b ↔
    (Stands sql rows w b ∧ ¬ Cancelled b.bookId x) ∨
      Accepted x ∧ b = x.1.order sql (replay sql rows w) := by
  constructor
  · rintro (⟨hb, hkept⟩ | ⟨w₁, y, w₂, heq, haccepted, hb, hkept⟩)
    · obtain ⟨hw, hx⟩ := List.forall_mem_append.mp hkept
      exact .inl ⟨.inl ⟨hb, hw⟩, hx x (List.mem_singleton_self x)⟩
    · -- the order is the last request or came before it
      rcases List.eq_nil_or_concat w₂ with rfl | ⟨w₂, z, rfl⟩
      · obtain ⟨rfl, ⟨⟩⟩ := List.append_inj' heq rfl
        exact .inr ⟨haccepted, hb⟩
      · rw [List.concat_eq_append, ← List.cons_append, ← List.append_assoc] at heq
        rw [List.concat_eq_append] at hkept
        obtain ⟨rfl, ⟨⟩⟩ := List.append_inj' heq rfl
        obtain ⟨hw, hx⟩ := List.forall_mem_append.mp hkept
        exact .inl ⟨.inr ⟨w₁, y, w₂, rfl, haccepted, hb, hw⟩, hx x (List.mem_singleton_self x)⟩
  · rintro (⟨⟨hb, hkept⟩ | ⟨w₁, y, w₂, rfl, haccepted, hb, hkept⟩, hx⟩ | ⟨haccepted, hb⟩)
    · exact .inl ⟨hb, List.forall_mem_append.mpr ⟨hkept, List.forall_mem_singleton.mpr hx⟩⟩
    · refine .inr ⟨w₁, y, w₂ ++ [x], by simp, haccepted, hb, ?_⟩
      exact List.forall_mem_append.mpr ⟨hkept, List.forall_mem_singleton.mpr hx⟩
    · exact .inr ⟨w, x, [], rfl, haccepted, hb, nofun⟩

/-- The bookings after all requests are those that stand. -/
theorem mem_replay_iff : b ∈ replay sql rows w ↔ Stands sql rows w b := by
  induction w using List.reverseRecOn generalizing b with
  | nil =>
    constructor
    · exact fun hb => .inl ⟨hb, nofun⟩
    · rintro (⟨hb, -⟩ | ⟨w₁, x, w₂, heq, -⟩)
      · exact hb
      · simp at heq
  | append_singleton w x ih => rw [replay_snoc, mem_carryOut, ih, stands_snoc]

end Replay

/-! ## What the handlers do -/

/-- A request runs to its end, with its reply kept, or a connection is closed. -/
def served {δ : Type} (db : Db δ) (s : SessionMod × δ) :
    ServerEvent → Option ((SessionMod × δ) × List (Request × Reply))
  | .request r => (r.handler.exec (interp db) s).map fun x => (x.2, [(r, x.1)])
  | .disconnect fd => (disconnect s fd).map fun s' => (s', [])

section Handlers

variable {sql : BrokenSql} {encryptPwd : CString → CString} {bookSql : BookSql} {m m' : SessionMod}
  {rows : List Account} {menu : Menu} {r : Request}

theorem wlp_checkPermission {δ : Type} {db : Db δ} {d : δ} {fd : ℤ} {allowed : ℤ → Bool}
    {expired denied : PackOp} {k : Option Reply → Handler Reply} {Q : Reply → SessionMod × δ → Prop}
    (hrefused : ∀ op m', op = expired ∨ op = denied →
      (k (some [op])).wlp (interp db) Q (m', d))
    (hallowed : ∀ m', (k none).wlp (interp db) Q (m', d)) :
    (checkPermission fd allowed expired denied >>= k).wlp (interp db) Q (m, d) := by
  refine wlp_bind (wlp_call fun found s hcall => ?_)
  obtain ⟨⟨found, m₁⟩, -, ⟨⟩⟩ := Option.map_eq_some_iff.mp hcall
  cases found with
  | none => exact wlp_ret (hrefused expired m₁ (.inl rfl))
  | some session =>
    refine wlp_call fun s t hread => wlp_call fun u t' hdref => ?_
    obtain ⟨⟩ := Option.some.inj hread
    obtain ⟨⟩ := Option.some.inj hdref
    split
    · exact wlp_ret (hallowed _)
    · exact wlp_ret (hrefused denied _ (.inr rfl))

theorem wlp_db {δ : Type} {db : Db δ} {d : δ} {α : Type} {op : DbOp} {k : op.Result → Handler α}
    {Q : α → SessionMod × δ → Prop} (hk : (k (db op d).1).wlp (interp db) Q (m, (db op d).2)) :
    (Server.db op >>= k).wlp (interp db) Q (m, d) := by
  refine wlp_call fun x s hcall => ?_
  obtain ⟨⟩ := Option.some.inj hcall
  exact hk

/-- The tables after a request. An order is accepted for a dish and a table that exist. -/
structure Carried (bookSql : BookSql) (menu menu' : Menu) (x : Request × Reply) : Prop where
  books : menu'.books = carryOut bookSql menu.books x
  dishes : menu'.dishes = menu.dishes
  seats : menu'.seats = menu.seats
  seatExists : Accepted x → SeatExists menu (intParam x.1.pack "seat_id" (-1))
  dishExists : Accepted x → DishExists menu (intParam x.1.pack "dish_id" (-1))

theorem carryOut_of_not_ok {x : Request × Reply} (hok : ¬ AnswersOk x.2) (books : List Book) :
    carryOut bookSql books x = books := by
  have haccepted : ¬ Accepted x := fun h => hok h.2
  have hcancelled : ∀ number, ¬ Cancelled number x := fun _ h => hok h.2.1
  simp [carryOut, haccepted, hcancelled]

theorem carryOut_of_kind {x : Request × Reply} (hbook : x.1.kind ≠ .dishBook)
    (hcancel : x.1.kind ≠ .dishCancel) (books : List Book) : carryOut bookSql books x = books := by
  have haccepted : ¬ Accepted x := fun h => hbook h.1
  have hcancelled : ∀ number, ¬ Cancelled number x := fun _ h => hcancel h.1
  simp [carryOut, haccepted, hcancelled]

/-- A request that was refused changed nothing. -/
theorem Carried.refused {reply : Reply} (hok : ¬ AnswersOk reply) :
    Carried bookSql menu menu (r, reply) where
  books := (carryOut_of_not_ok hok _).symm
  dishes := rfl
  seats := rfl
  seatExists haccepted := (hok haccepted.2).elim
  dishExists haccepted := (hok haccepted.2).elim

theorem not_answersOk_append {r : DishResult} (hr : r ≠ .ok) : ¬ AnswersOk [r.append] := by
  cases r with
  | ok => exact (hr rfl).elim
  | _ => decide

theorem answersOk_ok : AnswersOk [DishResult.ok.append] := by decide

theorem carried_resDishBook (hkind : r.kind = .dishBook) (hplain : r.Plain encryptPwd) :
    (resDishBook r.junk r.fd r.pack).wlp (interp (serverDb sql encryptPwd bookSql))
      (fun reply s => Carried bookSql menu s.2.2.1 (r, reply)) (m, rows, menu, ()) := by
  simp only [Request.Plain, hkind] at hplain
  obtain ⟨hfree, hfinite⟩ := hplain
  refine wlp_checkPermission (fun op m₁ hop => wlp_ret ?_) fun m₁ => ?_
  · rcases hop with rfl | rfl <;> exact .refused (not_answersOk_append (by decide))
  simp only
  split
  · exact wlp_ret (.refused (not_answersOk_append (by decide)))
  refine wlp_db ?_
  split
  · exact wlp_ret (.refused (not_answersOk_append (by decide)))
  next hdish =>
  refine wlp_db ?_
  split
  · exact wlp_ret (.refused (not_answersOk_append (by decide)))
  next hseat =>
  -- the row is added
  have hadded : dbBookAdd bookSql menu.books (intParam r.pack "seat_id" (-1))
      (intParam r.pack "dish_id" (-1)) (bookParam r.junk r.pack).jinOrPlate r.comment =
        (true, menu.books ++ [r.order bookSql menu.books]) := dbBookAdd_of_finite hfree hfinite
  refine wlp_db ?_
  simp only [accountDb, menuDb]
  rw [show strncpy _ _ _ = r.comment from rfl, hadded]
  have haccepted : Accepted (r, [DishResult.ok.append]) := ⟨hkind, answersOk_ok⟩
  refine wlp_ret ⟨?_, rfl, rfl, fun _ => ?_, fun _ => ?_⟩
  · rw [carryOut, if_pos haccepted]
  · simpa [accountDb, menuDb, SeatExists] using hseat
  · simpa [accountDb, menuDb, DishExists] using hdish

theorem carried_resDishCancel (hkind : r.kind = .dishCancel) :
    (resDishCancel r.fd r.pack).wlp (interp (serverDb sql encryptPwd bookSql))
      (fun reply s => Carried bookSql menu s.2.2.1 (r, reply)) (m, rows, menu, ()) := by
  refine wlp_checkPermission (fun op m₁ hop => wlp_ret ?_) fun m₁ => ?_
  · rcases hop with rfl | rfl <;> exact .refused (not_answersOk_append (by decide))
  simp only
  split
  · exact wlp_ret (.refused (not_answersOk_append (by decide)))
  refine wlp_db ?_
  split
  · exact wlp_ret (.refused (not_answersOk_append (by decide)))
  refine wlp_db ?_
  have hother : ∀ reply, ¬ Accepted (r, reply) :=
    fun reply h => absurd (hkind.symm.trans h.1) (by decide)
  have hcancelled : ∀ number, Cancelled number (r, [DishResult.ok.append]) ↔
      intParam r.pack "seat_id" (-1) = number :=
    fun number => ⟨fun h => h.2.2, fun h => ⟨hkind, answersOk_ok, h⟩⟩
  refine wlp_ret ⟨?_, rfl, rfl, fun h => (hother _ h).elim, fun h => (hother _ h).elim⟩
  rw [carryOut, if_neg (hother _)]
  simp [hcancelled, accountDb, menuDb, dbBookDel, eq_comm]

/-- One request of any kind. -/
theorem Request.carried (hplain : r.Plain encryptPwd) {reply : Reply}
    {d d' : List Account × Menu × Unit}
    (hexec : r.handler.exec (interp (serverDb sql encryptPwd bookSql)) (m, d) =
      some (reply, m', d')) : Carried bookSql d.2.1 d'.2.1 (r, reply) := by
  obtain ⟨rows, menu, ⟨⟩⟩ := d
  by_cases hbook : r.kind = .dishBook
  · have hhandler : r.handler = resDishBook r.junk r.fd r.pack := by
      simp only [Request.handler, hbook]
    rw [hhandler] at hexec
    exact carried_resDishBook hbook hplain _ _ hexec
  by_cases hcancel : r.kind = .dishCancel
  · have hhandler : r.handler = resDishCancel r.fd r.pack := by
      simp only [Request.handler, hcancel]
    rw [hhandler] at hexec
    exact carried_resDishCancel hcancel _ _ hexec
  have hkept : d'.2 = (menu, ()) := Request.tables_kept hbook hcancel hexec
  rw [hkept]
  exact ⟨(carryOut_of_kind hbook hcancel _).symm, rfl, rfl, fun h => (hbook h.1).elim,
    fun h => (hbook h.1).elim⟩

end Handlers

/-! ## Whole runs -/

/-- Every booking is one of a table and a dish that exist, waits to be accepted, and has a
number of its own. -/
structure Menu.Sound (menu : Menu) : Prop where
  seats : ∀ b ∈ menu.books, SeatExists menu b.seatId
  dishes : ∀ b ∈ menu.books, DishExists menu b.dishId
  idle : ∀ b ∈ menu.books, b.acceptState = bookAcceptStateIdle
  numbers : (menu.books.map (·.bookId)).Nodup

/-- The number of a new row is the number of no other row: `book_id` is the primary key. -/
def BookSql.Numbers (sql : BookSql) : Prop := ∀ rows, ∀ b ∈ rows, b.bookId ≠ sql.bookId rows

section Runs

variable {sql : BrokenSql} {encryptPwd : CString → CString} {bookSql : BookSql}
  {menu menu' : Menu} {x : Request × Reply}

theorem Menu.Sound.carried (h : menu.Sound) (hnumbers : bookSql.Numbers)
    (hcarried : Carried bookSql menu menu' x) : menu'.Sound := by
  have hmem : ∀ b ∈ menu'.books,
      b ∈ menu.books ∨ Accepted x ∧ b = x.1.order bookSql menu.books := by
    intro b hb
    rw [hcarried.books, mem_carryOut] at hb
    exact hb.imp_left And.left
  refine ⟨fun b hb => ?_, fun b hb => ?_, fun b hb => ?_, ?_⟩
  · rw [SeatExists, hcarried.seats]
    rcases hmem b hb with hb | ⟨haccepted, rfl⟩
    · exact h.seats b hb
    · exact hcarried.seatExists haccepted
  · rw [DishExists, hcarried.dishes]
    rcases hmem b hb with hb | ⟨haccepted, rfl⟩
    · exact h.dishes b hb
    · exact hcarried.dishExists haccepted
  · rcases hmem b hb with hb | ⟨-, rfl⟩
    · exact h.idle b hb
    · rfl
  · rw [hcarried.books, carryOut]
    split
    · rw [List.map_append, List.nodup_append]
      refine ⟨h.numbers, List.pairwise_singleton _ _, ?_⟩
      rintro number hnumber _ hnew rfl
      obtain ⟨b, hb, heq⟩ := List.mem_map.mp hnumber
      exact hnumbers menu.books b hb (heq.trans (List.mem_singleton.mp hnew))
    · exact h.numbers.sublist (List.filter_sublist.map _)

/-- A step of the server and what it adds to the requests. -/
theorem served_step {s s' : SessionMod × List Account × Menu × Unit} {e : ServerEvent}
    {new : List (Request × Reply)} (hok : PlainStep encryptPwd s e)
    (hstep : served (serverDb sql encryptPwd bookSql) s e = some (s', new)) :
    (new = [] ∧ s'.2.2.1 = s.2.2.1) ∨
      ∃ x, new = [x] ∧ Carried bookSql s.2.2.1 s'.2.2.1 x := by
  obtain ⟨m, d⟩ := s
  cases e with
  | request r =>
    obtain ⟨⟨reply, m', d'⟩, hexec, ⟨⟩⟩ := Option.map_eq_some_iff.mp hstep
    exact .inr ⟨(r, reply), rfl, r.carried hok hexec⟩
  | disconnect fd =>
    obtain ⟨s', hdel, ⟨⟩⟩ := Option.map_eq_some_iff.mp hstep
    obtain ⟨⟨b, m'⟩, -, rfl⟩ := Option.map_eq_some_iff.mp hdel
    exact .inl ⟨rfl, rfl⟩

end Runs

/-- Over every run of plain requests of all kinds and of disconnects: the bookings are those that
follow from the requests and the replies that the clients got. A booking is in the table exactly
if it was there at the start or an order made it that was answered with `dish_r_ok`, and no
cancellation of its number was answered so later. -/
theorem bookings_replayed {sql : BrokenSql} {encryptPwd : CString → CString} {bookSql : BookSql}
    {freed : Session} {d₀ : List Account × Menu × Unit}
    {s : SessionMod × List Account × Menu × Unit} {w : List (Request × Reply)}
    (h : Reaches (traced (served (serverDb sql encryptPwd bookSql))) (PlainStep encryptPwd)
      ((.init freed, d₀), []) (s, w)) :
    s.2.2.1.books = replay bookSql d₀.2.1.books w ∧
      ∀ b, b ∈ s.2.2.1.books ↔ Stands bookSql d₀.2.1.books w b := by
  have hreplay : s.2.2.1.books = replay bookSql d₀.2.1.books w := by
    refine h.invariant (P := fun x => x.1.2.2.1.books = replay bookSql d₀.2.1.books x.2) rfl ?_
    rintro ⟨s, w⟩ e ⟨s', w'⟩ hs hok hstep
    obtain ⟨new, hserved, rfl⟩ := traced_eq_some.mp hstep
    rcases served_step hok hserved with ⟨rfl, hsame⟩ | ⟨x, rfl, hcarried⟩
    · simpa only [hsame, List.append_nil] using hs
    · simp only [replay_snoc, ← hs, hcarried.books]
  refine ⟨hreplay, fun b => ?_⟩
  rw [hreplay, mem_replay_iff]

/-- `ann` logs in, orders, and cancels the booking that was there. -/
def annServes : List ServerEvent :=
  [.request (loginRequest 5 "ann" "tea" noJunk), .request ⟨.dishBook, 5, orderPack "hot", noJunk⟩,
    .request ⟨.dishCancel, 5, cancelPack 1, noJunk⟩]

theorem bookings_replayed_ann :
    ∃ s w, Reaches (traced (served plainDb)) (PlainStep id)
        ((.init ⟨0, lit "", 0, .fd, lit "", 0⟩, [ann], smallMenu 1 2, ()), []) (s, w) ∧
      s.2.2.1.books.map (·.bookId) = [2] ∧
      ∀ b, b ∈ s.2.2.1.books ↔ Stands plainSql (smallMenu 1 2).books w b := by
  obtain ⟨s, w, hrun, hids⟩ : ∃ s w, Reaches (traced (served plainDb)) (PlainStep id)
        ((.init ⟨0, lit "", 0, .fd, lit "", 0⟩, [ann], smallMenu 1 2, ()), []) (s, w) ∧
      s.2.2.1.books.map (·.bookId) = [2] :=
    ⟨_, _, reaches_of_exec annServes rfl, rfl⟩
  exact ⟨s, w, hrun, hids, (bookings_replayed hrun).2⟩

/-- Over the same runs, from tables that belong together: every booking is one of a table
and a dish that exist, waits to be accepted, and has a number of its own. -/
theorem bookings_sound {sql : BrokenSql} {encryptPwd : CString → CString} {bookSql : BookSql}
    (hnumbers : bookSql.Numbers) {freed : Session} {d₀ : List Account × Menu × Unit}
    (hsound : d₀.2.1.Sound) {s : SessionMod × List Account × Menu × Unit}
    {w : List (Request × Reply)}
    (h : Reaches (traced (served (serverDb sql encryptPwd bookSql))) (PlainStep encryptPwd)
      ((.init freed, d₀), []) (s, w)) : s.2.2.1.Sound := by
  refine h.invariant (P := fun x => x.1.2.2.1.Sound) hsound ?_
  rintro ⟨s, w⟩ e ⟨s', w'⟩ hs hok hstep
  obtain ⟨new, hserved, rfl⟩ := traced_eq_some.mp hstep
  rcases served_step hok hserved with ⟨rfl, hsame⟩ | ⟨x, rfl, hcarried⟩
  · simpa only [hsame] using hs
  · exact hs.carried hnumbers hcarried

/-- New rows get the number after the largest one. -/
def countingSql : BookSql :=
  { plainSql with bookId := fun rows => rows.foldr (fun b n => max b.bookId n) 0 + 1 }

theorem countingSql_numbers : countingSql.Numbers := by
  have hle : ∀ (rows : List Book), ∀ b ∈ rows,
      b.bookId ≤ rows.foldr (fun b n => max b.bookId n) 0 := by
    intro rows
    induction rows with
    | nil => exact nofun
    | cons b' rows ih =>
      intro b hb
      rcases List.mem_cons.mp hb with rfl | hb
      · exact le_max_left _ _
      · exact (ih b hb).trans (le_max_right _ _)
  intro rows b hb heq
  have hlt : b.bookId < countingSql.bookId rows := Int.lt_add_one_of_le (hle rows b hb)
  exact absurd heq hlt.ne

theorem bookings_sound_ann :
    ∃ s w, Reaches (traced (served (serverDb ⟨fun _ _ => [], fun _ rows => (false, rows)⟩ id
        countingSql))) (PlainStep id)
        ((.init ⟨0, lit "", 0, .fd, lit "", 0⟩, [ann], smallMenu 1 2, ()), []) (s, w) ∧
      s.2.2.1.books.map (·.seatId) = [1] ∧ s.2.2.1.Sound := by
  have hsound : (smallMenu 1 2).Sound := by
    refine ⟨?_, ?_, ?_, ?_⟩
    · exact List.forall_mem_singleton.mpr ⟨_, List.mem_cons_of_mem _ List.mem_cons_self, rfl⟩
    · exact List.forall_mem_singleton.mpr ⟨_, List.mem_cons_self, rfl⟩
    · exact List.forall_mem_singleton.mpr rfl
    · exact List.pairwise_singleton _ _
  obtain ⟨s, w, hrun, hseats⟩ : ∃ s w,
      Reaches (traced (served (serverDb ⟨fun _ _ => [], fun _ rows => (false, rows)⟩ id
        countingSql))) (PlainStep id)
        ((.init ⟨0, lit "", 0, .fd, lit "", 0⟩, [ann], smallMenu 1 2, ()), []) (s, w) ∧
      s.2.2.1.books.map (·.seatId) = [1] :=
    ⟨_, _, reaches_of_exec annServes rfl, rfl⟩
  exact ⟨s, w, hrun, hseats, bookings_sound countingSql_numbers hsound hrun⟩

end Youmenu.Server
