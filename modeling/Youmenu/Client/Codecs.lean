import Youmenu.Client.Lists
import Youmenu.Server.Bookings
import Youmenu.Server.Passwords
import Youmenu.Server.Permission
import Youmenu.Server.Provider

/-!
# Lists from the server to the client

A list is written by a handler of the server and read by a function of the client, each
with its own names of the fields. Between them is the pack that the handler builds: the
client finds the elements that were appended if the pack can hold them.

## Main definitions

* `listElems` — a list as the handlers write it.
* `Returned` — the client has the list.
* `ListRead` — what is asked of a handler and the function that reads its list.
-/

namespace Youmenu.Client

open Eventpack Server Program Circular Records Bytes

/-! ## One list -/

/-- What the handlers append: the result, the number of records and, if there are any, an
array of objects. -/
def listElems (array one : String) (objs : List (List PackElem)) : List PackElem :=
  [.int (lit "result") 0, .int (lit "count") (BitVec.ofInt 32 objs.length)] ++
    if objs = [] then [] else [.sub .array (lit array) (objs.map (.sub .object (lit one)))]

theorem objectsOf_map (one : CString) (objs : List (List PackElem)) :
    objectsOf (objs.map (.sub .object one)) = some objs := by
  induction objs with
  | nil => rfl
  | cons elems objs ih => rw [List.map_cons, objectsOf, ih, Option.map_some]

theorem elemsOps_objects (one : CString) (objs : List (List PackElem)) :
    elemsOps (objs.map (.sub .object one)) =
      objs.flatMap fun elems => .start .object one :: (elemsOps elems ++ [.finish .object]) := by
  induction objs with
  | nil => rfl
  | cons elems objs ih =>
    rw [List.map_cons, elemsOps_cons, List.flatMap_cons, ih, PackElem.ops]

/-- The fields of a record with what they are to hold: the function returns ok, the right
count and, if there are records, an array with all of them in order. -/
structure Returned (d : ListDecoder) (out : ListOut) (recs : List (List (ℕ × List UInt8))) :
    Prop where
  result : out.result = 0
  count : out.count = recs.length
  inside : out.arr.outside = false
  pointer : recs ≠ [] → out.pointer = .array
  fields : ∀ (i : ℕ) ws, recs[i]? = some ws → ∀ w ∈ ws,
    cells out.arr.mem ((i : ℤ) * d.size + w.1) w.2.length = w.2

/-- A record of zeros holds the fields after the writes. -/
def Holds (ws fields : List (ℕ × List UInt8)) : Prop :=
  ∀ f ∈ fields, cells (fill (fun _ => 0) 0 ws) f.1 f.2.length = f.2

section OneList

variable {d : ListDecoder} {ρ : Type} {elems : ρ → List PackElem}
  {fields : ρ → List (ℕ × List UInt8)} {recs : List ρ}

/-- All objects are decoded, into an array for as many as the count says. -/
theorem clientList_listElems (array one : String) {type : ℤ} (hallowed : d.allowed type = true)
    (null : Bool) (count : ℤ) {objs : List (List PackElem)} (hobjs : objs ≠ []) {c : ℤ}
    (hc : (objs.length : ℤ).bmod (2 ^ 32) = c) :
    ∃ out : ListOut,
      clientList d ⟨some type, true, some (listElems array one objs)⟩ (.start null count) =
        if c = 0 then { out with count := 0, result := 0 }
        else ⟨(epCalloc (d.size * c)).pointer, c, 0, d.decodeAll (epCalloc (d.size * c)) 0 objs,
          objs.length⟩ := by
  have hlisted : listedObjects [.sub .array (lit array) (objs.map (.sub .object (lit one)))] =
      some objs := by
    simp [listedObjects, objectsOf_map]
  refine ⟨{ if d.resets then { ListOut.start null count with pointer := .null, count := 0 }
    else .start null count with result := 0 }, ?_⟩
  rw [listElems, if_neg hobjs]
  simp only [clientList, hallowed, if_true, List.cons_append, List.nil_append, ListDecoder.decode,
    ListDecoder.decodeCount, BitVec.toInt_ofInt, hc, ListDecoder.decodeArrays_eq _ _ hlisted]
  refine (if_pos rfl).trans ?_
  cases d.resets <;> simp [ListOut.start, Arr.pointer]

/-- For an empty list the function stops at the count. -/
theorem clientList_listElems_nil (array one : String) {type : ℤ} (hallowed : d.allowed type = true)
    (null : Bool) (count : ℤ) :
    clientList d ⟨some type, true, some (listElems array one [])⟩ (.start null count) =
      { if d.resets then { ListOut.start null count with pointer := .null, count := 0 }
        else .start null count with count := 0, result := 0 } := by
  simp only [clientList, hallowed, if_true, listElems, List.append_nil, ListDecoder.decode,
    ListDecoder.decodeCount]
  exact (if_pos rfl).trans (if_pos rfl)

/-- An array that does not fit into an `int` is too short for its last record. -/
theorem epCalloc_short {n size : ℕ} (hsize : size < 2 ^ 32) (h : 2 ^ 31 ≤ size * (n + 1)) :
    (epCalloc (size * ((n + 1 : ℕ) : ℤ))).size ≤ n * size := by
  have hprod : (size : ℤ) * ((n + 1 : ℕ) : ℤ) = ((n * size : ℕ) : ℤ) + size := by push_cast; ring
  have hlow : 2 ^ 31 ≤ n * size + size := by
    rw [Nat.mul_succ, Nat.mul_comm] at h
    exact h
  generalize n * size = before at hprod hlow ⊢
  have hlt := Int.bmod_lt (x := before + size) (m := 2 ^ 32) (by decide)
  have hself := Int.bmod_eq_self_sub_mul_bdiv (before + size) (2 ^ 32)
  rw [epCalloc, hprod]
  simp only
  omega

section Array

variable (hwrites : ∀ r ∈ recs, Confined d.size (d.writes (elems r)))

include hwrites

/-- A field of a record comes out of the writes of its object. -/
theorem cells_decodeAll (bytes : ℤ) {i : ℕ} {r : ρ} (hi : recs[i]? = some r) {off n : ℕ}
    (hoff : off + n ≤ d.size) :
    cells (d.decodeAll (epCalloc bytes) 0 (recs.map elems)).mem ((i : ℤ) * d.size + off) n =
      cells (fill (fun _ => 0) 0 (d.writes (elems r))) off n := by
  have hconfined : ∀ ws ∈ (recs.map elems).map d.writes, Confined d.size ws := by
    simpa using hwrites
  have hget : ((recs.map elems).map d.writes)[i]? = some (d.writes (elems r)) := by simp [hi]
  have hrecord := cells_fillAll (fun _ => 0) 0 hconfined hget hoff
  rw [Nat.zero_add] at hrecord
  rw [ListDecoder.mem_decodeAll]
  refine hrecord.trans (cells_congr fun j _ => ?_)
  have hshift : fill (fun _ => (0 : UInt8)) (i * d.size) (d.writes (elems r))
      (i * d.size + (off + j)) = fill (fun _ => 0) 0 (d.writes (elems r)) (0 + (off + j)) := by
    refine fill_shift _ _ ?_ _ _
    intro
    rfl
  simpa [Int.add_assoc] using hshift

/-- If the array has room for all records, every store is inside it. -/
theorem outside_decodeAll_of_room {bytes : ℤ}
    (hroom : d.size * recs.length ≤ (epCalloc bytes).size) :
    (d.decodeAll (epCalloc bytes) 0 (recs.map elems)).outside = false := by
  refine (ListDecoder.outside_decodeAll _ _ _).mpr ⟨rfl, fun k es hk w hw => ?_⟩
  obtain ⟨r, hr, rfl⟩ : ∃ r, recs[k]? = some r ∧ elems r = es := by simpa using hk
  have hlt : k + 1 ≤ recs.length := (List.getElem?_eq_some_iff.mp hr).1
  have hw' := hwrites r (List.mem_of_getElem? hr) w hw
  calc (0 + k) * d.size + w.1 + w.2.length ≤ (k + 1) * d.size := by
        rw [Nat.zero_add, Nat.succ_mul]
        omega
    _ ≤ recs.length * d.size := Nat.mul_le_mul_right _ hlt
    _ ≤ (epCalloc bytes).size := by rwa [Nat.mul_comm]

end Array

/-- If the array does not fit into an `int`, a store goes past it. -/
theorem outside_decodeAll_of_short (hsize : d.size < 2 ^ 32)
    (hsome : ∀ r ∈ recs, ∃ w ∈ d.writes (elems r), w.2 ≠ [])
    (h : 2 ^ 31 ≤ d.size * recs.length) :
    (d.decodeAll (epCalloc (d.size * recs.length)) 0 (recs.map elems)).outside = true := by
  obtain ⟨n, hn⟩ : ∃ n, recs.length = n + 1 := by
    refine Nat.exists_eq_succ_of_ne_zero fun hzero => ?_
    rw [hzero] at h
    omega
  obtain ⟨r, hr⟩ : ∃ r, recs[n]? = some r :=
    ⟨recs.get ⟨n, by omega⟩, List.getElem?_eq_getElem (by omega)⟩
  obtain ⟨w, hw, hne⟩ := hsome r (List.mem_of_getElem? hr)
  have hpos : 0 < w.2.length := List.length_pos_iff.mpr hne
  by_contra hinside
  rw [Bool.not_eq_true, ListDecoder.outside_decodeAll] at hinside
  have hlast := hinside.2 n (elems r) (by simp [hr]) w hw
  rw [hn] at h hlast
  have hshort := epCalloc_short hsize h
  rw [Nat.zero_add] at hlast
  omega

/-- What the client gets of a list: everything exactly if the array fits into an `int` and
each record comes out of its own writes. -/
theorem returned_iff (array one : String) {type : ℤ} (hallowed : d.allowed type = true)
    (null : Bool) (count : ℤ) (hsize : d.size < 2 ^ 32)
    (hwrites : ∀ r ∈ recs, Confined d.size (d.writes (elems r)))
    (hfields : ∀ r ∈ recs, Confined d.size (fields r))
    (hsome : ∀ r ∈ recs, ∃ w ∈ d.writes (elems r), w.2 ≠ []) :
    Returned d (clientList d ⟨some type, true, some (listElems array one (recs.map elems))⟩
        (.start null count)) (recs.map fields) ↔
      d.size * recs.length < 2 ^ 31 ∧ ∀ r ∈ recs, Holds (d.writes (elems r)) (fields r) := by
  by_cases hne : recs = []
  · subst hne
    refine iff_of_true ?_ ⟨by simp, by simp⟩
    rw [List.map_nil, List.map_nil, clientList_listElems_nil array one hallowed]
    exact ⟨rfl, rfl, by cases d.resets <;> rfl, by simp, by simp⟩
  have hobjs : recs.map elems ≠ [] := by simpa using hne
  have hpos : 0 < recs.length := List.length_pos_iff.mpr hne
  have hsizePos : 0 < d.size := by
    obtain ⟨r, hr⟩ := List.exists_mem_of_ne_nil recs hne
    obtain ⟨w, hw, hw0⟩ := hsome r hr
    have hlength := hwrites r hr w hw
    have := List.length_pos_iff.mpr hw0
    omega
  obtain ⟨out, hout⟩ := clientList_listElems array one hallowed null count hobjs rfl
  rw [hout, List.length_map]
  by_cases hlength : recs.length < 2 ^ 31
  · have hmod : (recs.length : ℤ).bmod (2 ^ 32) = recs.length :=
      Int.bmod_eq_of_le (by omega) (by omega)
    rw [hmod, if_neg (by omega)]
    constructor
    · intro hreturned
      have hroom : d.size * recs.length < 2 ^ 31 := by
        by_contra hshort
        have houtside := outside_decodeAll_of_short hsize hsome (not_lt.mp hshort)
        rw [hreturned.inside] at houtside
        cases houtside
      refine ⟨hroom, fun r hr f hf => ?_⟩
      obtain ⟨i, hi⟩ := List.getElem?_of_mem hr
      rw [← cells_decodeAll hwrites _ hi (hfields r hr f hf)]
      exact hreturned.fields i (fields r) (by simp [hi]) f hf
    · rintro ⟨hroom, hholds⟩
      have hbytes : (epCalloc (d.size * recs.length)).size = d.size * recs.length := by
        exact_mod_cast epCalloc_size (n := d.size * recs.length) (by positivity)
          (by exact_mod_cast hroom)
      refine ⟨rfl, by simp, outside_decodeAll_of_room hwrites hbytes.ge, fun _ => ?_, ?_⟩
      · have hroom0 : (epCalloc (d.size * recs.length)).size ≠ 0 := by
          rw [hbytes]
          exact (Nat.mul_pos hsizePos hpos).ne'
        simp only [Arr.pointer, hroom0, if_false]
      · intro i ws hi f hf
        obtain ⟨r, hr, rfl⟩ : ∃ r, recs[i]? = some r ∧ fields r = ws := by simpa using hi
        have hmem := List.mem_of_getElem? hr
        exact (cells_decodeAll hwrites _ hr (hfields r hmem f hf)).trans (hholds r hmem f hf)
  · have hlt : (recs.length : ℤ).bmod (2 ^ 32) < 2 ^ 31 := Int.bmod_lt (by decide)
    refine iff_of_false (fun hreturned => ?_) fun h => ?_
    · have hcount := hreturned.count
      rw [List.length_map] at hcount
      split_ifs at hcount with hzero
      · simp only at hcount
        omega
      · simp only at hcount
        omega
    · have := Nat.le_mul_of_pos_left recs.length hsizePos
      omega

end OneList

/-! ## The records -/

/-- A string with its terminator. -/
def strBytes (s : CString) : List UInt8 := s.bytes ++ [0]

/-- `strncpy` fills the rest of the field with zeros. -/
def paddedBytes (n : ℕ) (s : CString) : List UInt8 :=
  s.bytes.take n ++ List.replicate (n - s.bytes.length) 0

theorem paddedBytes_eq {n : ℕ} {s : CString} (h : s.bytes.length < n) :
    paddedBytes n s = strBytes s ++ List.replicate (n - s.bytes.length - 1) 0 := by
  obtain ⟨k, hk⟩ : ∃ k, n - s.bytes.length = k + 1 := ⟨n - s.bytes.length - 1, by omega⟩
  rw [paddedBytes, strBytes, List.take_of_length_le h.le, hk, List.replicate_succ]
  simp

theorem length_paddedBytes (n : ℕ) (s : CString) : (paddedBytes n s).length = n := by
  simp [paddedBytes]
  omega

@[simp] theorem length_intBytes (n : ℤ) : (intBytes n).length = 4 := length_leBytes 4 _

@[simp] theorem length_strBytes (s : CString) : (strBytes s).length = s.bytes.length + 1 := by
  simp [strBytes]

theorem intBytes_toInt (n : ℤ) : intBytes (BitVec.ofInt 32 n).toInt = intBytes n := by
  rw [intBytes, BitVec.ofInt_toInt, intBytes]

def intElem (key : String) (n : ℤ) : PackElem := .int (lit key) (BitVec.ofInt 32 n)

def strElem (key : String) (s : CString) : PackElem := .string (lit key) s

def seatElems (s : Seat) : List PackElem :=
  [intElem "id" s.id, strElem "summary" s.summary, strElem "qrcode" s.qrcode]

def seatRecord (s : Seat) : List (ℕ × List UInt8) :=
  [(0, intBytes s.id), (4, strBytes s.summary), (261, strBytes s.qrcode)]

theorem writes_seatElems (s : Seat) : seatList.writes (seatElems s) =
    [(0, intBytes s.id), (4, paddedBytes 257 s.summary), (261, paddedBytes 65 s.qrcode)] := by
  rw [← intBytes_toInt]
  rfl

/-- Each field is the front of a block that was written, and no two blocks meet. -/
theorem holds_of_pairwise {ws fields : List (ℕ × List UInt8)} (h : ws.Pairwise Apart)
    (hfields : ∀ f ∈ fields, ∃ tail, (f.1, f.2 ++ tail) ∈ ws) : Holds ws fields := by
  intro f hf
  obtain ⟨tail, hmem⟩ := hfields f hf
  simpa using cells_fill_of_mem (fun _ => 0) 0 h hmem

/-- The strings fit into their fields and are valid UTF-8. -/
structure SeatFits (s : Seat) : Prop where
  summary : s.summary.bytes.length ≤ 256 ∧ ValidUtf8 s.summary.bytes
  qrcode : s.qrcode.bytes.length ≤ 64 ∧ ValidUtf8 s.qrcode.bytes

theorem holds_seat {s : Seat} (hs : SeatFits s) :
    Holds (seatList.writes (seatElems s)) (seatRecord s) := by
  have hsummary := hs.summary.1
  have hqrcode := hs.qrcode.1
  rw [writes_seatElems]
  refine holds_of_pairwise ?_ ?_
  · simp [Apart, length_paddedBytes]
  · rw [paddedBytes_eq (by omega), paddedBytes_eq (by omega)]
    simp only [seatRecord, List.mem_cons, List.not_mem_nil, or_false]
    rintro f (rfl | rfl | rfl)
    · exact ⟨[], by simp⟩
    · exact ⟨_, .inr (.inl rfl)⟩
    · exact ⟨_, .inr (.inr rfl)⟩

def accountElems (a : Account) : List PackElem :=
  [intElem "type" a.type, strElem "uid" a.uid, strElem "nick" a.nick, strElem "comment" a.comment]

/-- The password is not among the fields. -/
def accountRecord (a : Account) : List (ℕ × List UInt8) :=
  [(0, intBytes a.type), (4, strBytes a.uid), (150, strBytes a.nick), (215, strBytes a.comment)]

theorem writes_accountElems (a : Account) : accountList.writes (accountElems a) =
    [(0, intBytes a.type), (4, paddedBytes 17 a.uid), (150, paddedBytes 65 a.nick),
      (215, paddedBytes 257 a.comment)] := by
  rw [← intBytes_toInt]
  rfl

structure AccountFits (a : Account) : Prop where
  uid : a.uid.bytes.length ≤ 16 ∧ ValidUtf8 a.uid.bytes
  nick : a.nick.bytes.length ≤ 64 ∧ ValidUtf8 a.nick.bytes
  comment : a.comment.bytes.length ≤ 256 ∧ ValidUtf8 a.comment.bytes

theorem holds_account {a : Account} (ha : AccountFits a) :
    Holds (accountList.writes (accountElems a)) (accountRecord a) := by
  have huid := ha.uid.1
  have hnick := ha.nick.1
  have hcomment := ha.comment.1
  rw [writes_accountElems]
  refine holds_of_pairwise ?_ ?_
  · simp [Apart, length_paddedBytes]
  · rw [paddedBytes_eq (by omega), paddedBytes_eq (by omega), paddedBytes_eq (by omega)]
    simp only [accountRecord, List.mem_cons, List.not_mem_nil, or_false]
    rintro f (rfl | rfl | rfl | rfl)
    · exact ⟨[], by simp⟩
    · exact ⟨_, .inr (.inl rfl)⟩
    · exact ⟨_, .inr (.inr (.inl rfl))⟩
    · exact ⟨_, .inr (.inr (.inr rfl))⟩

/-- The thumbnail is not sent. -/
def dishElems (d : DishRow) : List PackElem :=
  [intElem "id" d.id, intElem "category" d.category, strElem "name" d.name,
    strElem "summary" d.summary, intElem "price_type" d.priceType, intElem "price" d.price]

def dishRecord (d : DishRow) : List (ℕ × List UInt8) :=
  [(0, intBytes d.id), (4, intBytes d.category), (8, strBytes d.name), (73, strBytes d.summary),
    (330, strBytes d.thumbnail), (396, intBytes d.priceType), (400, intBytes d.price)]

theorem writes_dishElems (d : DishRow) : dishFetch.writes (dishElems d) =
    [(0, intBytes d.id), (4, intBytes d.category), (8, strBytes d.name), (73, strBytes d.summary),
      (396, intBytes d.priceType), (400, intBytes d.price)] := by
  rw [← intBytes_toInt d.id, ← intBytes_toInt d.category, ← intBytes_toInt d.priceType,
    ← intBytes_toInt d.price]
  rfl

structure DishFits (d : DishRow) : Prop where
  name : d.name.bytes.length ≤ 64 ∧ ValidUtf8 d.name.bytes
  summary : d.summary.bytes.length ≤ 256 ∧ ValidUtf8 d.summary.bytes
  thumbnail : d.thumbnail.bytes.length ≤ 64 ∧ ValidUtf8 d.thumbnail.bytes

/-- Where nothing was written, a record is zero. -/
theorem cells_fill_zero {ws : List (ℕ × List UInt8)} {w : ℕ × List UInt8}
    (h : ∀ w' ∈ ws, Apart w w') :
    cells (fill (fun _ => (0 : UInt8)) 0 ws) w.1 w.2.length = List.replicate w.2.length 0 := by
  rw [cells_fill_outside]
  · simp [cells, List.map_const']
  · intro w' hw'
    have := h w' hw'
    unfold Apart at this
    omega

theorem replicate_eq_strBytes_iff {s : CString} :
    List.replicate (strBytes s).length 0 = strBytes s ↔ s.bytes = [] := by
  constructor
  · intro heq
    refine List.eq_nil_iff_forall_not_mem.mpr fun b hb => s.ne_zero b hb ?_
    have hmem : b ∈ strBytes s := List.mem_append_left _ hb
    rw [← heq] at hmem
    exact List.eq_of_mem_replicate hmem
  · intro hnil
    simp [strBytes, hnil]

theorem holds_dish_iff {d : DishRow} (hd : DishFits d) :
    Holds (dishFetch.writes (dishElems d)) (dishRecord d) ↔ d.thumbnail.bytes = [] := by
  have hname := hd.name.1
  have hsummary := hd.summary.1
  have hthumbnail := hd.thumbnail.1
  have hunwritten : ∀ w ∈ dishFetch.writes (dishElems d), Apart (330, strBytes d.thumbnail) w := by
    rw [writes_dishElems]
    simp [Apart]
    omega
  rw [← replicate_eq_strBytes_iff]
  constructor
  · intro hholds
    rw [← cells_fill_zero hunwritten]
    exact hholds (330, strBytes d.thumbnail) (by simp [dishRecord])
  · intro hzero
    have hpairwise : (dishFetch.writes (dishElems d)).Pairwise Apart := by
      rw [writes_dishElems]
      simp [Apart]
      omega
    have hwritten : Holds (dishFetch.writes (dishElems d)) (dishFetch.writes (dishElems d)) :=
      holds_of_pairwise hpairwise fun f hf => ⟨[], by simpa using hf⟩
    intro f hf
    by_cases hthumb : f = (330, strBytes d.thumbnail)
    · rw [hthumb]
      exact (cells_fill_zero hunwritten).trans hzero
    · refine hwritten f ?_
      rw [writes_dishElems]
      simpa [dishRecord, hthumb] using hf

def bookElems (b : Book) : List PackElem :=
  [intElem "book_id" b.bookId, intElem "seat_id" b.seatId, intElem "dish_id" b.dishId,
    .double (lit "jin_or_plate") b.jinOrPlate, strElem "comment" b.comment,
    intElem "accept_state" b.acceptState]

def bookRecord (b : Book) : List (ℕ × List UInt8) :=
  [(0, intBytes b.bookId), (4, intBytes b.seatId), (8, intBytes b.dishId),
    (16, leBytes 8 b.jinOrPlate.toNat), (24, strBytes b.comment), (280, intBytes b.acceptState)]

theorem writes_bookElems (b : Book) : dishList.writes (bookElems b) =
    [(4, intBytes b.seatId), (8, intBytes b.dishId), (16, leBytes 8 b.jinOrPlate.toNat),
      (24, paddedBytes 256 b.comment), (8, intBytes b.acceptState)] := by
  rw [← intBytes_toInt b.seatId, ← intBytes_toInt b.dishId, ← intBytes_toInt b.acceptState]
  rfl

structure BookFits (b : Book) : Prop where
  bookId : IsInt b.bookId
  dishId : IsInt b.dishId
  acceptState : IsInt b.acceptState
  comment : b.comment.bytes.length ≤ 255 ∧ ValidUtf8 b.comment.bytes

theorem intBytes_inj {n n' : ℤ} (hn : IsInt n) (hn' : IsInt n') (h : intBytes n = intBytes n') :
    n = n' := by
  have hnat := congrArg fromLe h
  rw [intBytes, intBytes, fromLe_leBytes_of_lt (BitVec.isLt _), fromLe_leBytes_of_lt (BitVec.isLt _)]
    at hnat
  have hint := congrArg BitVec.toInt (BitVec.eq_of_toNat_eq hnat)
  rwa [BitVec.toInt_ofInt, BitVec.toInt_ofInt,
    Int.bmod_eq_of_le (by have := hn.1; omega) (by have := hn.2; omega),
    Int.bmod_eq_of_le (by have := hn'.1; omega) (by have := hn'.2; omega)] at hint

theorem replicate_eq_intBytes_iff {n : ℤ} (hn : IsInt n) :
    List.replicate (intBytes n).length 0 = intBytes n ↔ n = 0 := by
  have hzero : List.replicate (intBytes n).length 0 = intBytes 0 := by
    rw [length_intBytes]
    decide
  rw [hzero]
  exact ⟨fun h => (intBytes_inj ⟨by decide, by decide⟩ hn h).symm, fun h => by rw [h]⟩

/-- The number of the booking and its state are not decoded, and the state is found in the
place of the dish. -/
theorem holds_book_iff {b : Book} (hb : BookFits b) :
    Holds (dishList.writes (bookElems b)) (bookRecord b) ↔
      b.bookId = 0 ∧ b.dishId = 0 ∧ b.acceptState = 0 := by
  have hcomment := hb.comment.1
  let ws := dishList.writes (bookElems b)
  have hws : ws = _ := writes_bookElems b
  have hunwritten : (∀ w ∈ ws, Apart (0, intBytes b.bookId) w) ∧
      ∀ w ∈ ws, Apart (280, intBytes b.acceptState) w := by
    rw [hws]
    simp [Apart, length_paddedBytes]
  have hbookId := cells_fill_zero hunwritten.1
  have hstate := cells_fill_zero hunwritten.2
  have hwritten : ∀ ws₁ w ws₂, ws = ws₁ ++ w :: ws₂ → (∀ w' ∈ ws₂, Apart w w') →
      cells (fill (fun _ => (0 : UInt8)) 0 ws) w.1 w.2.length = w.2 := by
    rintro ws₁ w ws₂ hsplit hlater
    rw [hsplit]
    simpa using cells_fill_at (fun _ => (0 : UInt8)) 0 ws₁ w hlater
  have hseatId := hwritten [] (4, intBytes b.seatId) _ hws (by simp [Apart, length_paddedBytes])
  have hjin := hwritten [_, _] (16, leBytes 8 b.jinOrPlate.toNat) _ hws
    (by simp [Apart, length_paddedBytes])
  have hpad := hwritten [_, _, _] (24, paddedBytes 256 b.comment) _ hws
    (by simp [Apart, length_paddedBytes])
  -- the last write to the dish is that of the state
  have hdishId := hwritten [_, _, _, _] (8, intBytes b.acceptState) _ hws (by simp)
  constructor
  · intro hholds
    have h0 := hholds (0, intBytes b.bookId) (by simp [bookRecord])
    have h280 := hholds (280, intBytes b.acceptState) (by simp [bookRecord])
    have h8 := hholds (8, intBytes b.dishId) (by simp [bookRecord])
    have hzero : b.acceptState = 0 :=
      (replicate_eq_intBytes_iff hb.acceptState).mp (hstate.symm.trans h280)
    refine ⟨(replicate_eq_intBytes_iff hb.bookId).mp (hbookId.symm.trans h0), ?_, hzero⟩
    simp only [length_intBytes] at h8 hdishId
    rw [← hzero]
    exact intBytes_inj hb.dishId hb.acceptState (h8.symm.trans hdishId)
  · rintro ⟨h0, h8, h280⟩
    simp only [Holds, bookRecord, List.mem_cons, List.not_mem_nil, or_false]
    rintro f (rfl | rfl | rfl | rfl | rfl | rfl)
    · exact hbookId.trans ((replicate_eq_intBytes_iff hb.bookId).mpr h0)
    · exact hseatId
    · have hsame : b.dishId = b.acceptState := h8.trans h280.symm
      rw [hsame]
      exact hdishId
    · exact hjin
    · have hle : (strBytes b.comment).length ≤ (paddedBytes 256 b.comment).length := by
        rw [length_strBytes, length_paddedBytes]
        omega
      rw [← take_cells _ _ hle]
      refine (congrArg _ hpad).trans ?_
      rw [paddedBytes_eq (by omega), List.take_left]
    · exact hstate.trans ((replicate_eq_intBytes_iff hb.acceptState).mpr h280)

/-! ## The replies -/

/-- All keys and strings are valid UTF-8. -/
def ValidElems (elems : List PackElem) : Prop := ∀ op ∈ elemsOps elems, op.KeyOk ∧ op.ValueOk

theorem validElems_nil : ValidElems [] := by simp [ValidElems]

theorem validElems_cons {e : PackElem} {elems : List PackElem} :
    ValidElems (e :: elems) ↔ (∀ op ∈ e.ops, op.KeyOk ∧ op.ValueOk) ∧ ValidElems elems := by
  rw [ValidElems, elemsOps_cons, List.forall_mem_append, ValidElems]

theorem ValidElems.int {key : String} {n : ℤ} {elems : List PackElem} (h : ValidElems elems)
    (hkey : ValidUtf8 (lit key).bytes) : ValidElems (intElem key n :: elems) := by
  refine validElems_cons.mpr ⟨?_, h⟩
  simpa [intElem, PackElem.ops] using ⟨hkey, trivial⟩

theorem ValidElems.str {key : String} {data : CString} {elems : List PackElem}
    (h : ValidElems elems) (hkey : ValidUtf8 (lit key).bytes) (hdata : ValidUtf8 data.bytes) :
    ValidElems (strElem key data :: elems) := by
  refine validElems_cons.mpr ⟨?_, h⟩
  simpa [strElem, PackElem.ops] using ⟨hkey, hdata⟩

theorem ValidElems.sub {kind : PackKind} {key : String} {inner elems : List PackElem}
    (h : ValidElems elems) (hkey : ValidUtf8 (lit key).bytes) (hinner : ValidElems inner) :
    ValidElems (.sub kind (lit key) inner :: elems) := by
  refine validElems_cons.mpr ⟨?_, h⟩
  rw [PackElem.ops, List.forall_mem_cons, List.forall_mem_append]
  refine ⟨⟨hkey, trivial⟩, hinner, ?_⟩
  simpa using ⟨trivial, trivial⟩

theorem validElems_objects {one : String} (hone : ValidUtf8 (lit one).bytes)
    {objs : List (List PackElem)} (h : ∀ elems ∈ objs, ValidElems elems) :
    ValidElems (objs.map (.sub .object (lit one))) := by
  induction objs with
  | nil => exact validElems_nil
  | cons elems objs ih =>
    rw [List.forall_mem_cons] at h
    exact (ih h.2).sub hone h.1

theorem validElems_listElems {array one : String}
    (hkeys : ValidUtf8 (lit array).bytes ∧ ValidUtf8 (lit one).bytes)
    {objs : List (List PackElem)} (h : ∀ elems ∈ objs, ValidElems elems) :
    ValidElems (listElems array one objs) := by
  have harray : ValidElems
      (if objs = [] then [] else [.sub .array (lit array) (objs.map (.sub .object (lit one)))]) := by
    split_ifs
    · exact validElems_nil
    · exact validElems_nil.sub hkeys.1 (validElems_objects hkeys.2 h)
  have hcount : ValidElems (intElem "count" objs.length :: _) := harray.int (by decide)
  have hresult : ValidElems (intElem "result" 0 :: _) := hcount.int (by decide)
  exact hresult

theorem validElems_seat {s : Seat} (hs : SeatFits s) : ValidElems (seatElems s) :=
  ((validElems_nil.str (by decide) hs.qrcode.2).str (by decide) hs.summary.2).int (by decide)

theorem validElems_account {a : Account} (ha : AccountFits a) : ValidElems (accountElems a) :=
  (((validElems_nil.str (by decide) ha.comment.2).str (by decide) ha.nick.2).str (by decide)
    ha.uid.2).int (by decide)

theorem validElems_dish {d : DishRow} (hd : DishFits d) : ValidElems (dishElems d) :=
  (((((validElems_nil.int (by decide)).int (by decide)).str (by decide) hd.summary.2).str
    (by decide) hd.name.2).int (by decide)).int (by decide)

theorem validElems_book {b : Book} (hcomment : ValidUtf8 b.comment.bytes) :
    ValidElems (bookElems b) := by
  have hdouble : ∀ op ∈ (PackElem.double (lit "jin_or_plate") b.jinOrPlate).ops,
      op.KeyOk ∧ op.ValueOk := by
    simpa [PackElem.ops] using ⟨(by decide : ValidUtf8 (lit "jin_or_plate").bytes), trivial⟩
  have hback : ValidElems [strElem "comment" b.comment, intElem "accept_state" b.acceptState] :=
    (validElems_nil.int (by decide)).str (by decide) hcomment
  exact (((validElems_cons.mpr ⟨hdouble, hback⟩).int (by decide)).int (by decide)).int (by decide)

theorem elemsOps_listElems (array one : String) (objs : List (List PackElem)) :
    elemsOps (listElems array one objs) =
      if objs = [] then [DishResult.ok.append, appendInt "count" 0]
      else [DishResult.ok.append, appendInt "count" objs.length, .start .array (lit array)] ++
        objs.flatMap (fun elems => .start .object (lit one) :: (elemsOps elems ++
          [.finish .object])) ++ [.finish .array] := by
  rw [listElems]
  split_ifs with hobjs
  · subst hobjs
    rfl
  · simp only [List.cons_append, List.nil_append, elemsOps_cons, elemsOps_nil, PackElem.ops,
      elemsOps_objects, List.append_nil]
    rfl

section Replies

variable {δ : Type} {db : Db δ} {m : SessionMod} {d : δ} {fd : ℕ}

theorem wp_resSeatList_reply (hm : Settled (fun _ _ _ => True) m) (hsession : HasSession m fd) :
    (resSeatList fd).wp (interp db) (fun reply _ =>
      reply = elemsOps (listElems "seat" "seat_one" ((db .seatGet d).1.map seatElems)))
      (m, d) := by
  obtain ⟨n, hn, hfd⟩ := hsession
  refine wp_refFd hm (fun hnone => absurd hfd (hnone n hn)) fun n' hn' _ => ?_
  rw [wp_dref hm hn']
  refine wp_db.mpr ?_
  rw [elemsOps_listElems, List.flatMap_map, List.length_map]
  cases (db .seatGet d).1 with
  | nil => rfl
  | cons s seats => rfl

theorem wp_resAccountList_reply (hm : Settled (fun _ _ _ => True) m)
    (hsession : AdminSession m fd) :
    (resAccountList fd).wp (interp db) (fun reply _ => reply =
      elemsOps (listElems "account" "account_one" ((db .accountGet d).1.map accountElems)))
      (m, d) := by
  obtain ⟨n, hn, hfd, htype⟩ := hsession
  refine wp_checkPermission_allowed hm ⟨n, hn, hfd, by simpa using htype⟩ ?_
  refine wp_db.mpr ?_
  rw [elemsOps_listElems, List.flatMap_map, List.length_map]
  cases (db .accountGet d).1 with
  | nil => rfl
  | cons a accounts => rfl

end Replies

section MenuReplies

variable {ρ : Type} {sql : BookSql} {other : Db ρ} {m : SessionMod} {fd : ℕ} {menu : Menu} {o : ρ}

/-- The dishes of the category that a request asks for. -/
def dishesOf (menu : Menu) (pack : Pack) : List DishRow :=
  menu.dishes.filter (·.category = intParam pack "category" 0)

/-- The bookings of a seat, as `db_book_get` fills them in. -/
def booksOf (sql : BookSql) (menu : Menu) (seat : ℤ) : List Book :=
  (menu.books.filter (·.seatId = seat)).map (readBook sql)

theorem wp_resDishFetch_reply (hm : Settled (fun _ _ _ => True) m) (hsession : MenuSession m fd)
    (pack : Pack) :
    (resDishFetch fd pack).wp (interp (menuDb sql other)) (fun reply _ => reply =
      elemsOps (listElems "dish" "dish_one" ((dishesOf menu pack).map dishElems)))
      (m, menu, o) := by
  refine wp_checkMenuPermission hm hsession ?_
  refine wp_db.mpr ?_
  rw [elemsOps_listElems, List.flatMap_map, List.length_map]
  simp only [menuDb]
  rw [← dishesOf]
  cases dishesOf menu pack with
  | nil => rfl
  | cons d dishes =>
    show [_, appendInt "count" ((d :: dishes).map (·.toDish)).length, _] ++
      ((d :: dishes).map (·.toDish)).flatMap _ ++ _ = _
    rw [List.flatMap_map, List.length_map]
    rfl

theorem wp_resDishList_reply (hm : Settled (fun _ _ _ => True) m) (hsession : MenuSession m fd)
    {pack : Pack} {seat : ℤ} (hpack : intParam pack "seat_id" (-1) = seat) (hseat0 : 0 ≤ seat)
    (hseat : SeatExists menu seat) :
    (resDishList fd pack).wp (interp (menuDb sql other)) (fun reply _ => reply =
      elemsOps (listElems "book" "book_one" ((booksOf sql menu seat).map bookElems)))
      (m, menu, o) := by
  subst hpack
  have hfound : menu.seats.any (·.id = intParam pack "seat_id" (-1)) = true := by
    simpa [SeatExists] using hseat
  refine wp_checkMenuPermission hm hsession ?_
  simp only [not_lt.mpr hseat0, if_false]
  refine wp_db.mpr ?_
  simp only [menuDb, hfound, Bool.not_true, Bool.false_eq_true, if_false]
  refine wp_db.mpr ?_
  rw [elemsOps_listElems, List.flatMap_map, List.length_map]
  simp only [menuDb]
  rw [← booksOf]
  cases booksOf sql menu (intParam pack "seat_id" (-1)) with
  | nil => rfl
  | cons b books => rfl

end MenuReplies

/-! ## From the server to the client -/

/-- The handler returns, the pack that it builds holds all that it appended, and the client
function on this response returns ok and the list, and a null pointer for an empty list if it
sets the pointer at all. -/
def ListRead {δ : Type} (db : Db δ) (s : SessionMod × δ) (handler : Handler Reply)
    (client : Exchange → ListOut → ListOut) (d : ListDecoder) (type : ℤ) (null : Bool) (count : ℤ)
    (recs : List (List (ℕ × List UInt8))) : Prop :=
  ∃ reply s' elems, handler.exec (interp db) s = some (reply, s') ∧ reply = elemsOps elems ∧
    RoundTrips reply ∧ Returned d (client ⟨some type, true, some elems⟩ (.start null count)) recs ∧
    (recs = [] → d.resets →
      (client ⟨some type, true, some elems⟩ (.start null count)).pointer = .null)

/-- A handler that answers with a list is read exactly if the pack can hold the answer, the
array fits into an `int` and each record comes out of its own writes. -/
theorem listRead_iff {δ ρ : Type} {db : Db δ} {s : SessionMod × δ} {handler : Handler Reply}
    {d : ListDecoder} {array one : String} {recs : List ρ} {elems : ρ → List PackElem}
    {fields : ρ → List (ℕ × List UInt8)}
    (hwp : handler.wp (interp db) (fun reply _ =>
      reply = elemsOps (listElems array one (recs.map elems))) s)
    (hkeys : ValidUtf8 (lit array).bytes ∧ ValidUtf8 (lit one).bytes)
    (hvalid : ∀ r ∈ recs, ValidElems (elems r)) {type : ℤ} (hallowed : d.allowed type = true) (null : Bool) (count : ℤ)
    (hsize : d.size < 2 ^ 32) (hwrites : ∀ r ∈ recs, Confined d.size (d.writes (elems r)))
    (hfields : ∀ r ∈ recs, Confined d.size (fields r))
    (hsome : ∀ r ∈ recs, ∃ w ∈ d.writes (elems r), w.2 ≠ []) :
    ListRead db s handler (clientList d) d type null count (recs.map fields) ↔
      PackFits (listElems array one (recs.map elems)) ∧ d.size * recs.length < 2 ^ 31 ∧
        ∀ r ∈ recs, Holds (d.writes (elems r)) (fields r) := by
  obtain ⟨reply, s', hexec, hreply⟩ := wp_iff_exec.mp hwp
  have hlist : ValidElems (listElems array one (recs.map elems)) :=
    validElems_listElems hkeys (by simpa using hvalid)
  rw [← returned_iff array one hallowed null count hsize hwrites hfields hsome,
    ← roundTrips_elems_iff hlist]
  constructor
  · rintro ⟨reply', s'', elems', hexec', hreply', htrips, hreturned, -⟩
    obtain ⟨rfl, -⟩ := Prod.mk.inj (Option.some.inj (hexec'.symm.trans hexec))
    rw [hreply] at htrips
    rw [← elemsOps_injective (hreply'.symm.trans hreply)] at htrips ⊢
    exact ⟨htrips, hreturned⟩
  · rintro ⟨htrips, hreturned⟩
    refine ⟨reply, s', _, hexec, hreply, hreply ▸ htrips, hreturned, fun hnil hresets => ?_⟩
    obtain rfl : recs = [] := by simpa using hnil
    rw [List.map_nil, clientList_listElems_nil array one hallowed]
    simp [hresets]

section Lists

variable {ρ δ : Type} {m : SessionMod} {fd : ℕ} {menu : Menu} {type : ℤ}

/-- For every seat that exists and the bookings that the server holds for it: the client gets
the list exactly if the pack can hold it, the array fits into an `int` and all numbers, dishes
and states of bookings are zero. -/
theorem dishList_read_iff (sql : BookSql) (other : Db ρ) (o : ρ)
    (hm : Settled (fun _ _ _ => True) m) (hsession : MenuSession m fd) {pack : Pack} {seat : ℤ}
    (hpack : intParam pack "seat_id" (-1) = seat) (hseat0 : 0 ≤ seat)
    (hseat : SeatExists menu seat)
    (hcomments : ∀ b ∈ booksOf sql menu seat,
      b.comment.bytes.length ≤ 255 ∧ ValidUtf8 b.comment.bytes)
    (htype : dishList.allowed type = true) (null : Bool) (count : ℤ) :
    ListRead (menuDb sql other) (m, menu, o) (resDishList fd pack) clientDishList dishList type
        null count ((booksOf sql menu seat).map bookRecord) ↔
      PackFits (listElems "book" "book_one" ((booksOf sql menu seat).map bookElems)) ∧
        288 * (booksOf sql menu seat).length < 2 ^ 31 ∧
        ∀ b ∈ booksOf sql menu seat, b.bookId = 0 ∧ b.dishId = 0 ∧ b.acceptState = 0 := by
  have hfits : ∀ b ∈ booksOf sql menu seat, BookFits b := by
    intro b hb
    obtain ⟨b', -, rfl⟩ := List.mem_map.mp hb
    exact ⟨Dbp.isInt_atoi _, Dbp.isInt_atoi _, Dbp.isInt_atoi _, hcomments _ hb⟩
  refine (listRead_iff (wp_resDishList_reply hm hsession hpack hseat0 hseat) (by decide)
    (fun b hb => validElems_book (hcomments b hb).2) htype null count (by decide) ?_ ?_
    ?_).trans ?_
  · intro b hb
    rw [writes_bookElems]
    simp [Confined, dishList, length_paddedBytes]
  · intro b hb
    have := (hcomments b hb).1
    simp [Confined, bookRecord, dishList]
    omega
  · intro b hb
    refine ⟨(4, intBytes b.seatId), by simp [writes_bookElems], ?_⟩
    simp [← List.length_pos_iff]
  · refine and_congr_right fun _ => and_congr_right fun _ => forall₂_congr fun b hb => ?_
    exact holds_book_iff (hfits b hb)

/-- For every category and the dishes that the server holds in it: the client gets the list
exactly if the pack can hold it, the array fits into an `int` and no dish has a thumbnail. -/
theorem dishFetch_read_iff (sql : BookSql) (other : Db ρ) (o : ρ)
    (hm : Settled (fun _ _ _ => True) m) (hsession : MenuSession m fd) (pack : Pack)
    (hfits : ∀ d ∈ dishesOf menu pack, DishFits d) (htype : dishFetch.allowed type = true)
    (null : Bool) (count : ℤ) :
    ListRead (menuDb sql other) (m, menu, o) (resDishFetch fd pack) clientDishFetch dishFetch type
        null count ((dishesOf menu pack).map dishRecord) ↔
      PackFits (listElems "dish" "dish_one" ((dishesOf menu pack).map dishElems)) ∧
        404 * (dishesOf menu pack).length < 2 ^ 31 ∧
        ∀ d ∈ dishesOf menu pack, d.thumbnail.bytes = [] := by
  refine (listRead_iff (wp_resDishFetch_reply hm hsession pack) (by decide)
    (fun d hd => validElems_dish (hfits d hd)) htype null count (by decide) ?_ ?_ ?_).trans ?_
  · intro d hd
    have hname := (hfits d hd).name.1
    have hsummary := (hfits d hd).summary.1
    rw [writes_dishElems]
    simp [Confined, dishFetch]
    omega
  · intro d hd
    have hname := (hfits d hd).name.1
    have hsummary := (hfits d hd).summary.1
    have hthumbnail := (hfits d hd).thumbnail.1
    simp [Confined, dishRecord, dishFetch]
    omega
  · intro d hd
    refine ⟨(0, intBytes d.id), by simp [writes_dishElems], ?_⟩
    simp [← List.length_pos_iff]
  · refine and_congr_right fun _ => and_congr_right fun _ => forall₂_congr fun d hd => ?_
    exact holds_dish_iff (hfits d hd)

theorem seatList_read_iff (db : Db δ) (d : δ) (hm : Settled (fun _ _ _ => True) m)
    (hsession : HasSession m fd) (hfits : ∀ s ∈ (db .seatGet d).1, SeatFits s)
    (htype : seatList.allowed type = true) (null : Bool) (count : ℤ) :
    ListRead db (m, d) (resSeatList fd) clientSeatList seatList type null count
        ((db .seatGet d).1.map seatRecord) ↔
      PackFits (listElems "seat" "seat_one" ((db .seatGet d).1.map seatElems)) ∧
        328 * (db .seatGet d).1.length < 2 ^ 31 := by
  refine (listRead_iff (wp_resSeatList_reply hm hsession) (by decide)
    (fun s hs => validElems_seat (hfits s hs)) htype null count (by decide) ?_ ?_ ?_).trans ?_
  · intro s hs
    rw [writes_seatElems]
    simp [Confined, seatList, length_paddedBytes]
  · intro s hs
    have hsummary := (hfits s hs).summary.1
    have hqrcode := (hfits s hs).qrcode.1
    simp [Confined, seatRecord, seatList]
    omega
  · intro s hs
    refine ⟨(0, intBytes s.id), by simp [writes_seatElems], ?_⟩
    simp [← List.length_pos_iff]
  · exact and_congr_right fun _ => and_iff_left fun s hs => holds_seat (hfits s hs)

theorem accountList_read_iff (db : Db δ) (d : δ) (hm : Settled (fun _ _ _ => True) m)
    (hsession : AdminSession m fd) (hfits : ∀ a ∈ (db .accountGet d).1, AccountFits a)
    (null : Bool) (count : ℤ) :
    ListRead db (m, d) (resAccountList fd) clientAccountList accountList accountAdmin null count
        ((db .accountGet d).1.map accountRecord) ↔
      PackFits (listElems "account" "account_one" ((db .accountGet d).1.map accountElems)) ∧
        472 * (db .accountGet d).1.length < 2 ^ 31 := by
  refine (listRead_iff (wp_resAccountList_reply hm hsession) (by decide)
    (fun a ha => validElems_account (hfits a ha)) (by decide) null count (by decide) ?_ ?_
    ?_).trans ?_
  · intro a ha
    rw [writes_accountElems]
    simp [Confined, accountList, length_paddedBytes]
  · intro a ha
    have huid := (hfits a ha).uid.1
    have hnick := (hfits a ha).nick.1
    have hcomment := (hfits a ha).comment.1
    simp [Confined, accountRecord, accountList]
    omega
  · intro a ha
    refine ⟨(0, intBytes a.type), by simp [writes_accountElems], ?_⟩
    simp [← List.length_pos_iff]
  · exact and_congr_right fun _ => and_iff_left fun a ha => holds_account (hfits a ha)

/-- For every list of seats on a connection with a session, and every list of accounts on a
connection of an administrator: the client gets the list, and a null pointer if it is empty,
exactly if the pack can hold it and the array fits into an `int`. -/
theorem seats_and_accounts_read_iff (db : Db δ) (d : δ) (hm : Settled (fun _ _ _ => True) m)
    (fd : ℕ) (null : Bool) (count : ℤ) :
    (HasSession m fd → (∀ s ∈ (db .seatGet d).1, SeatFits s) →
        ∀ type, seatList.allowed type = true →
        (ListRead db (m, d) (resSeatList fd) clientSeatList seatList type null count
          ((db .seatGet d).1.map seatRecord) ↔
            PackFits (listElems "seat" "seat_one" ((db .seatGet d).1.map seatElems)) ∧
              328 * (db .seatGet d).1.length < 2 ^ 31)) ∧
      (AdminSession m fd → (∀ a ∈ (db .accountGet d).1, AccountFits a) →
        (ListRead db (m, d) (resAccountList fd) clientAccountList accountList accountAdmin null
          count ((db .accountGet d).1.map accountRecord) ↔
            PackFits (listElems "account" "account_one" ((db .accountGet d).1.map accountElems)) ∧
              472 * (db .accountGet d).1.length < 2 ^ 31)) :=
  ⟨fun hsession hseats _ htype => seatList_read_iff db d hm hsession hseats htype null count,
    fun hadmin haccounts => accountList_read_iff db d hm hadmin haccounts null count⟩

end Lists

/-! ## Small and large lists -/

/-- The bookings of table 1, all of them zero. -/
def zeroMenu : Menu := ⟨[], [⟨1, lit "", lit ""⟩], [⟨0, 1, 0, 0, lit "hot", 0⟩]⟩

theorem dishList_read_zero :
    ListRead (menuDb plainSql emptyDb) (annLoggedIn, zeroMenu, ()) (resDishList 5 (cancelPack 1))
      clientDishList dishList accountMenu false 7
      ((booksOf plainSql zeroMenu 1).map bookRecord) :=
  (dishList_read_iff plainSql emptyDb () settled_annLoggedIn menuSession_annLoggedIn rfl
    (by decide) ⟨⟨1, lit "", lit ""⟩, .head _, rfl⟩ (by decide) rfl false 7).mpr
    ⟨packFits_of_small (by decide), by decide, by decide⟩

/-- The first booking of table 1 comes without its number. -/
theorem dishList_not_read :
    ¬ ListRead (menuDb plainSql emptyDb) (annLoggedIn, smallMenu 1 1, ())
      (resDishList 5 (cancelPack 1)) clientDishList dishList accountMenu true 0
      ((booksOf plainSql (smallMenu 1 1) 1).map bookRecord) := by
  rintro ⟨reply, s', elems, hexec, hreply, -, hreturned, -⟩
  have hlist := (wp_resDishList_reply settled_annLoggedIn menuSession_annLoggedIn rfl (by decide)
    ⟨⟨1, lit "", lit ""⟩, .head _, rfl⟩).of_exec hexec
  obtain rfl := elemsOps_injective (hreply.symm.trans hlist)
  have hbookId := hreturned.fields 0 _ rfl (0, intBytes 1) (.head _)
  exact absurd hbookId (by decide)

/-- One dish, with a thumbnail or without. -/
def teaMenu (thumbnail : String) : Menu :=
  ⟨[⟨⟨1, 0, lit "tea", lit "green", 0, 2⟩, lit thumbnail⟩], [], []⟩

theorem dishFetch_read_tea :
    ListRead (menuDb plainSql emptyDb) (annLoggedIn, teaMenu "", ()) (resDishFetch 5 none)
      clientDishFetch dishFetch accountMenu false 7
      ((dishesOf (teaMenu "") none).map dishRecord) :=
  (dishFetch_read_iff plainSql emptyDb () settled_annLoggedIn menuSession_annLoggedIn none
    (by
      intro d hd
      obtain rfl : d = _ := List.mem_singleton.mp hd
      exact ⟨by decide, by decide, by decide⟩) rfl false 7).mpr
    ⟨packFits_of_small (by decide), by decide, by decide⟩

/-- The picture `p` of the tea does not arrive. -/
theorem dishFetch_not_read :
    ¬ ListRead (menuDb plainSql emptyDb) (annLoggedIn, teaMenu "p", ()) (resDishFetch 5 none)
      clientDishFetch dishFetch accountMenu true 0
      ((dishesOf (teaMenu "p") none).map dishRecord) := by
  rintro ⟨reply, s', elems, hexec, hreply, -, hreturned, -⟩
  have hlist := (wp_resDishFetch_reply settled_annLoggedIn menuSession_annLoggedIn none).of_exec
    hexec
  obtain rfl := elemsOps_injective (hreply.symm.trans hlist)
  have hthumbnail := hreturned.fields 0 _ rfl (330, strBytes (lit "p")) (by decide)
  exact absurd hthumbnail (by decide)

/-- A restaurant with `n` tables and no accounts but that of `ann`. -/
def tables (n : ℕ) : List Account × Menu × Unit :=
  ([ann], ⟨[], (List.range n).map fun i => ⟨i, lit "window", lit ""⟩, []⟩, ())

def tablesDb : Db (List Account × Menu × Unit) :=
  accountDb ⟨fun _ _ => [], fun _ rows => (false, rows)⟩ id (menuDb plainSql emptyDb)

theorem settled_youmenuLoggedIn : Settled (fun _ _ _ => True) youmenuLoggedIn :=
  ⟨rfl, fun _ => rfl, rfl, by simp [youmenuLoggedIn], by simp [youmenuLoggedIn],
    by simp [youmenuLoggedIn, Distinct], fun _ _ => trivial⟩

theorem seatFits_tables {n : ℕ} : ∀ s ∈ (tablesDb .seatGet (tables n)).1, SeatFits s := by
  intro s hs
  obtain ⟨i, -, rfl⟩ := List.mem_map.mp hs
  refine ⟨?_, ?_⟩
  · show (lit "window").bytes.length ≤ 256 ∧ ValidUtf8 (lit "window").bytes
    decide
  · show (lit "").bytes.length ≤ 64 ∧ ValidUtf8 (lit "").bytes
    decide

theorem length_seats_tables (n : ℕ) : (tablesDb .seatGet (tables n)).1.length = n := by
  simp [tablesDb, tables, accountDb, menuDb]

/-- The administrator lists one table and one account. -/
theorem seats_and_accounts_read_small :
    ListRead tablesDb (youmenuLoggedIn, tables 1) (resSeatList 5) clientSeatList seatList
        accountAdmin false 7 ((tablesDb .seatGet (tables 1)).1.map seatRecord) ∧
      ListRead tablesDb (youmenuLoggedIn, tables 1) (resAccountList 5) clientAccountList accountList
        accountAdmin false 7 ((tablesDb .accountGet (tables 1)).1.map accountRecord) := by
  obtain ⟨hseats, haccounts⟩ :=
    seats_and_accounts_read_iff tablesDb (tables 1) settled_youmenuLoggedIn 5 false 7
  have hsession : AdminSession youmenuLoggedIn 5 := ⟨_, List.mem_singleton_self _, rfl, rfl⟩
  refine ⟨(hseats ⟨_, List.mem_singleton_self _, rfl⟩ seatFits_tables accountAdmin rfl).mpr ?_,
    (haccounts hsession ?_).mpr ?_⟩
  · exact ⟨packFits_of_small (by decide), by decide⟩
  · intro a ha
    obtain rfl : a = ann := List.mem_singleton.mp ha
    exact ⟨by decide, by decide, by decide⟩
  · exact ⟨packFits_of_small (by decide), by decide⟩

/-- The size of an array of 6547207 seats is not an `int`. -/
theorem seatList_not_read :
    ¬ ListRead tablesDb (youmenuLoggedIn, tables 6547207) (resSeatList 5) clientSeatList seatList
      accountAdmin true 0 ((tablesDb .seatGet (tables 6547207)).1.map seatRecord) := by
  intro hread
  obtain ⟨-, hroom⟩ := (seatList_read_iff tablesDb (tables 6547207) settled_youmenuLoggedIn
    ⟨_, List.mem_singleton_self _, rfl⟩ seatFits_tables rfl true 0).mp hread
  rw [length_seats_tables] at hroom
  omega

end Youmenu.Client
