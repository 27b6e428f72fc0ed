import Youmenu.Eventpack.Elements
import Youmenu.Lib.Records
import Youmenu.Server.Refusals
import Youmenu.Server.Sql

/-!
# Lists on the client: `req_account.c`, `req_dish.c`, `req_seat.c`

The four functions that ask for a list read the response in the same way: the elements
`result` and `count`, then arrays of objects, whose fields are stored into an array that
was allocated for `count` records. The number of objects is never compared with `count`.

## Main definitions

* `ListDecoder`, `clientList` — the function that the four have in common.
* `clientAccountList`, `clientDishFetch`, `clientDishList`, `clientSeatList` — the four.
* `Consistent` — what is asked of the output parameters.
* `Coherent` — the responses for which a decoder does that.
-/

namespace Youmenu.Client

open Eventpack Server Bytes Circular Records

/-! ## The source -/

/-- The element as an iterator shows it. -/
def elemField : PackElem → PackField
  | .binary key data => ⟨key, .binary data⟩
  | .string key data => ⟨key, .string data⟩
  | .bool key value => ⟨key, .bool value⟩
  | .int key value => ⟨key, .int value⟩
  | .long key value => ⟨key, .long value⟩
  | .double key value => ⟨key, .double value⟩
  | .sub kind key _ => ⟨key, .sub kind⟩

/-- How a value gets into a field of a record. -/
inductive Copy where
  | int
  | double
  | strncpy (n : ℕ)
  | strcpy

def intBytes (n : ℤ) : List UInt8 := leBytes 4 (BitVec.ofInt 32 n).toNat

/-- The bytes that are stored. -/
def Copy.bytes (v : PackValue) : Copy → List UInt8
  | .int => intBytes v.toInt
  | .double => leBytes 8 (amountToDouble v.toAmount).toNat
  | .strncpy n => v.toCString.bytes.take n ++ List.replicate (n - v.toCString.bytes.length) 0
  | .strcpy => v.toCString.bytes ++ [0]

/-- A branch of the comparisons of the key. -/
structure FieldStore where
  key : String
  offset : ℕ
  copy : Copy

/-- What tells the four functions apart: the size of a record, the comparisons of the key in
their order, whether the output parameters are set first, the accounts that may call it, and
the values of its enumeration. -/
structure ListDecoder where
  size : ℕ
  fields : List FieldStore
  resets : Bool
  allowed : ℤ → Bool
  illegalParameter : ℤ
  noPermission : ℤ
  serviceUnavailable : ℤ
  noResponse : ℤ

/-- The allocated bytes, and whether a store went past them. A null pointer has none. -/
structure Arr where
  size : ℕ
  mem : ℤ → UInt8
  outside : Bool

/-- `ep_calloc(1, bytes)`: the size is passed as an `int`. -/
def epCalloc (bytes : ℤ) : Arr := ⟨(bytes.bmod (2 ^ 32)).toNat, fun _ => 0, false⟩

def Arr.store (a : Arr) (pos : ℕ) (bytes : List UInt8) : Arr :=
  { a with mem := copyIn a.mem pos bytes, outside := a.outside || a.size < pos + bytes.length }

/-- The value of the pointer: null, the array, or what the caller had in it. -/
inductive Pointer where
  | null
  | array
  | caller
deriving DecidableEq

def Arr.pointer (a : Arr) : Pointer := if a.size = 0 then .null else .array

/-- The output parameters, the array and the number of objects that were decoded. -/
structure ListOut where
  pointer : Pointer
  count : ℤ
  result : ℤ
  arr : Arr
  decoded : ℕ

namespace ListDecoder

variable (d : ListDecoder)

/-- The offset and the bytes that an element of an object is stored as. -/
def write (e : PackElem) : Option (ℕ × List UInt8) :=
  (d.fields.find? fun f => lit f.key = (elemField e).key).map fun f =>
    (f.offset, f.copy.bytes (elemField e).value)

/-- The loop over the elements of object number `i`. -/
def decodeObject (i : ℕ) (a : Arr) (elems : List PackElem) : Arr :=
  elems.foldl (fun a e =>
    match d.write e with
    | none => a
    | some w => a.store (i * d.size + w.1) w.2) a

/-- The loop over the objects of an array; `false` if something else is among them. -/
def decodeArray (a : Arr) (i : ℕ) : List PackElem → Arr × ℕ × Bool
  | [] => (a, i, true)
  | .sub .object _ elems :: rest => decodeArray (d.decodeObject i a elems) (i + 1) rest
  | _ :: _ => (a, i, false)

/-- The loop over what follows the count. -/
def decodeArrays (out : ListOut) : List PackElem → ListOut
  | [] => { out with result := 0 }
  | .sub .array _ objects :: rest =>
    match d.decodeArray out.arr out.decoded objects with
    | (a, i, true) => decodeArrays { out with arr := a, decoded := i, pointer := a.pointer } rest
    | (a, i, false) =>
      { out with arr := a, decoded := i, pointer := .null, result := d.serviceUnavailable }
  | _ :: _ => { out with pointer := .null, result := d.serviceUnavailable }

def decodeCount (out : ListOut) : List PackElem → ListOut
  | .int key count :: rest =>
    if key = lit "count" then
      if count.toInt = 0 then { out with count := 0, result := 0 }
      else d.decodeArrays { out with count := count.toInt
                                     arr := epCalloc (d.size * count.toInt) } rest
    else { out with result := d.serviceUnavailable }
  | _ => { out with result := d.serviceUnavailable }

def decode (out : ListOut) : List PackElem → ListOut
  | .int key result :: rest =>
    if key = lit "result" then
      if result.toInt = 0 then d.decodeCount { out with result := 0 } rest
      else { out with result := result.toInt }
    else { out with result := d.serviceUnavailable }
  | _ => { out with result := d.serviceUnavailable }

end ListDecoder

/-- What comes before the response: the account that is logged in, whether the other
parameters are as they should be, and the response if one came. -/
structure Exchange where
  session : Option ℤ
  parameters : Bool
  response : Option (List PackElem)

def clientList (d : ListDecoder) (x : Exchange) (out : ListOut) : ListOut :=
  let out := if d.resets then { out with pointer := .null, count := 0 } else out
  match x.session, x.parameters with
  | some type, true =>
    if d.allowed type then
      match x.response with
      | none => { out with result := d.noResponse }
      | some elems => d.decode out elems
    else { out with result := d.noPermission }
  | _, _ => { out with result := d.illegalParameter }

/-- `account_t`, of 472 bytes. -/
def accountList : ListDecoder where
  size := 472
  fields := [⟨"type", 0, .int⟩, ⟨"uid", 4, .strncpy 17⟩, ⟨"nick", 150, .strncpy 65⟩,
    ⟨"comment", 215, .strncpy 257⟩]
  resets := true
  allowed := fun t => t = accountAdmin
  illegalParameter := AccountResult.illegalParameter.ctorIdx
  noPermission := AccountResult.noPermission.ctorIdx
  serviceUnavailable := AccountResult.serviceUnavailable.ctorIdx
  noResponse := AccountResult.noResponse.ctorIdx

/-- `dish_t`, of 404 bytes. -/
def dishFetch : ListDecoder where
  size := 404
  fields := [⟨"id", 0, .int⟩, ⟨"category", 4, .int⟩, ⟨"name", 8, .strcpy⟩, ⟨"summary", 73, .strcpy⟩,
    ⟨"thumbnail", 330, .strcpy⟩, ⟨"price_type", 396, .int⟩, ⟨"price", 400, .int⟩]
  resets := false
  allowed := fun t => t = accountAdmin || t = accountMenu
  illegalParameter := DishResult.illegalParameter.ctorIdx
  noPermission := DishResult.noPermission.ctorIdx
  serviceUnavailable := DishResult.serviceUnavailable.ctorIdx
  noResponse := DishResult.noResponse.ctorIdx

/-- `book_t`, of 288 bytes. The element `accept_state` is stored as the dish, and
`book_id` is not looked for. -/
def dishList : ListDecoder where
  size := 288
  fields := [⟨"seat_id", 4, .int⟩, ⟨"dish_id", 8, .int⟩, ⟨"jin_or_plate", 16, .double⟩,
    ⟨"comment", 24, .strncpy 256⟩, ⟨"accept_state", 8, .int⟩]
  resets := true
  allowed := fun t => t = accountAdmin || t = accountMenu
  illegalParameter := DishResult.illegalParameter.ctorIdx
  noPermission := DishResult.noPermission.ctorIdx
  serviceUnavailable := DishResult.serviceUnavailable.ctorIdx
  noResponse := DishResult.noResponse.ctorIdx

/-- `seat_t`, of 328 bytes. -/
def seatList : ListDecoder where
  size := 328
  fields := [⟨"id", 0, .int⟩, ⟨"summary", 4, .strncpy 257⟩, ⟨"qrcode", 261, .strncpy 65⟩]
  resets := true
  allowed := fun t => t = accountAdmin || t = accountMenu
  illegalParameter := SeatResult.illegalParameter.ctorIdx
  noPermission := SeatResult.noPermission.ctorIdx
  serviceUnavailable := SeatResult.serviceUnavailable.ctorIdx
  noResponse := SeatResult.noResponse.ctorIdx

def clientAccountList : Exchange → ListOut → ListOut := clientList accountList

def clientDishFetch : Exchange → ListOut → ListOut := clientList dishFetch

def clientDishList : Exchange → ListOut → ListOut := clientList dishList

def clientSeatList : Exchange → ListOut → ListOut := clientList seatList

/-- Before the call: the caller's variables, of which the pointer may be null, and no array
yet. -/
def ListOut.start (null : Bool) (count : ℤ) : ListOut :=
  ⟨if null then .null else .caller, count, 0, ⟨0, fun _ => 0, false⟩, 0⟩

/-! ## Decoded objects -/

/-- The elements of each object, if there are only objects. -/
def objectsOf : List PackElem → Option (List (List PackElem))
  | [] => some []
  | .sub .object _ elems :: rest => (objectsOf rest).map (elems :: ·)
  | _ :: _ => none

/-- The objects of all arrays, if there are only arrays of objects. -/
def listedObjects : List PackElem → Option (List (List PackElem))
  | [] => some []
  | .sub .array _ objects :: rest => do
    let objs ← objectsOf objects
    let objs' ← listedObjects rest
    some (objs ++ objs')
  | _ :: _ => none

namespace ListDecoder

variable {d : ListDecoder}

/-- The writes that an object makes. -/
def writes (d : ListDecoder) (elems : List PackElem) : List (ℕ × List UInt8) :=
  elems.filterMap d.write

/-- Decode objects from number `i` on. -/
def decodeAll (d : ListDecoder) (a : Arr) (i : ℕ) : List (List PackElem) → Arr
  | [] => a
  | elems :: objs => decodeAll d (d.decodeObject i a elems) (i + 1) objs

theorem decodeObject_eq (i : ℕ) (a : Arr) (elems : List PackElem) :
    d.decodeObject i a elems =
      (d.writes elems).foldl (fun a w => a.store (i * d.size + w.1) w.2) a := by
  rw [decodeObject, writes]
  induction elems generalizing a with
  | nil => rfl
  | cons e elems ih =>
    rw [List.foldl_cons, List.filterMap_cons, ih]
    cases d.write e <;> rfl

theorem decodeAll_append (a : Arr) (i : ℕ) (objs objs' : List (List PackElem)) :
    d.decodeAll a i (objs ++ objs') = d.decodeAll (d.decodeAll a i objs) (i + objs.length) objs' := by
  induction objs generalizing a i with
  | nil => rfl
  | cons elems objs ih =>
    rw [List.cons_append, decodeAll, decodeAll, ih, List.length_cons]
    congr 1
    omega

theorem size_foldl_store (base : ℕ) (a : Arr) (ws : List (ℕ × List UInt8)) :
    (ws.foldl (fun a w => a.store (base + w.1) w.2) a).size = a.size := by
  induction ws generalizing a with
  | nil => rfl
  | cons w ws ih => exact ih _

@[simp] theorem size_decodeAll (a : Arr) (i : ℕ) (objs : List (List PackElem)) :
    (d.decodeAll a i objs).size = a.size := by
  induction objs generalizing a i with
  | nil => rfl
  | cons elems objs ih => rw [decodeAll, ih, decodeObject_eq, size_foldl_store]

theorem mem_foldl_store (base : ℕ) (a : Arr) (ws : List (ℕ × List UInt8)) :
    (ws.foldl (fun a w => a.store (base + w.1) w.2) a).mem = fill a.mem base ws := by
  induction ws generalizing a with
  | nil => rfl
  | cons w ws ih =>
    rw [List.foldl_cons, ih, fill_cons]
    simp only [Arr.store, Nat.cast_add]

theorem mem_decodeAll (a : Arr) (i : ℕ) (objs : List (List PackElem)) :
    (d.decodeAll a i objs).mem = fillAll d.size a.mem i (objs.map d.writes) := by
  induction objs generalizing a i with
  | nil => rfl
  | cons elems objs ih =>
    rw [decodeAll, ih, decodeObject_eq, mem_foldl_store, List.map_cons, fillAll, Nat.cast_mul]

theorem outside_foldl_store (base : ℕ) (a : Arr) (ws : List (ℕ × List UInt8)) :
    (ws.foldl (fun a w => a.store (base + w.1) w.2) a).outside = false ↔
      a.outside = false ∧ ∀ w ∈ ws, base + w.1 + w.2.length ≤ a.size := by
  induction ws generalizing a with
  | nil => simp
  | cons w ws ih =>
    rw [List.foldl_cons, ih]
    simp [Arr.store, and_assoc]

/-- No store went past the array exactly if every write of every object is inside it. -/
theorem outside_decodeAll (a : Arr) (i : ℕ) (objs : List (List PackElem)) :
    (d.decodeAll a i objs).outside = false ↔ a.outside = false ∧
      ∀ k elems, objs[k]? = some elems → ∀ w ∈ d.writes elems,
        (i + k) * d.size + w.1 + w.2.length ≤ a.size := by
  induction objs generalizing a i with
  | nil => simp [decodeAll]
  | cons elems objs ih =>
    rw [decodeAll, ih, decodeObject_eq, outside_foldl_store, size_foldl_store, and_assoc]
    refine and_congr_right fun _ => ?_
    constructor
    · rintro ⟨hfirst, hrest⟩ k elems' hk
      cases k with
      | zero =>
        obtain rfl : elems = elems' := by simpa using hk
        exact hfirst
      | succ k =>
        rw [← Nat.add_assoc, Nat.add_right_comm]
        exact hrest k elems' (by simpa using hk)
    · intro h
      refine ⟨h 0 elems rfl, fun k elems' hk => ?_⟩
      rw [Nat.add_right_comm]
      exact h (k + 1) elems' (by simpa using hk)

theorem decodeArray_eq (a : Arr) (i : ℕ) (es : List PackElem) :
    match objectsOf es with
    | some objs => d.decodeArray a i es = (d.decodeAll a i objs, i + objs.length, true)
    | none => (d.decodeArray a i es).2.2 = false := by
  fun_induction decodeArray d a i es with
  | case1 a i => simp [objectsOf, decodeAll]
  | case2 a i key elems rest ih =>
    rw [objectsOf]
    cases hrest : objectsOf rest with
    | none => simpa [hrest] using ih
    | some objs =>
      rw [hrest] at ih
      simp only [Option.map_some] at ih ⊢
      rw [ih, decodeAll, List.length_cons]
      simp only [Prod.mk.injEq, and_true, true_and]
      omega
  | case3 a i e rest hne =>
    have hnone : objectsOf (e :: rest) = none := by
      rw [objectsOf]
      intro key elems he
      exact hne key elems he
    rw [hnone]

/-- With arrays of objects only, all objects are decoded. -/
theorem decodeArrays_eq (out : ListOut) (rest : List PackElem) {objs : List (List PackElem)}
    (hobjs : listedObjects rest = some objs) :
    d.decodeArrays out rest = { out with
      arr := d.decodeAll out.arr out.decoded objs
      decoded := out.decoded + objs.length
      pointer := if rest = [] then out.pointer else (d.decodeAll out.arr out.decoded objs).pointer
      result := 0 } := by
  induction rest generalizing out objs with
  | nil =>
    obtain rfl := Option.some.inj hobjs
    rfl
  | cons e rest ih =>
    cases e with
    | sub kind key objects =>
      cases kind with
      | array =>
        obtain ⟨objs₁, h₁, h⟩ := Option.bind_eq_some_iff.mp hobjs
        obtain ⟨objs₂, h₂, h⟩ := Option.bind_eq_some_iff.mp h
        obtain rfl := Option.some.inj h
        have hdecode := decodeArray_eq (d := d) out.arr out.decoded objects
        rw [h₁] at hdecode
        simp only at hdecode
        simp only [decodeArrays, hdecode]
        rw [ih _ h₂]
        cases rest with
        | nil =>
          obtain rfl := Option.some.inj h₂
          simp [decodeAll]
        | cons e rest => simp [decodeAll_append, Nat.add_assoc]
      | object => simp [listedObjects] at hobjs
    | _ => simp [listedObjects] at hobjs

/-- With anything else among them, the count stays and the array is dropped. -/
theorem decodeArrays_bad (out : ListOut) (rest : List PackElem)
    (hobjs : listedObjects rest = none) :
    (d.decodeArrays out rest).count = out.count ∧ (d.decodeArrays out rest).pointer = .null ∧
      (d.decodeArrays out rest).result = d.serviceUnavailable := by
  induction rest generalizing out with
  | nil => cases hobjs
  | cons e rest ih =>
    cases e with
    | sub kind key objects =>
      cases kind with
      | array =>
        have hdecode := decodeArray_eq (d := d) out.arr out.decoded objects
        cases h₁ : objectsOf objects with
        | none =>
          rw [h₁] at hdecode
          rcases hresult : d.decodeArray out.arr out.decoded objects with ⟨a, i, ok⟩
          obtain rfl : ok = false := by simpa [hresult] using hdecode
          simp [decodeArrays, hresult]
        | some objs₁ =>
          rw [h₁] at hdecode
          simp only at hdecode
          simp only [decodeArrays, hdecode]
          refine ih _ (Option.eq_none_iff_forall_ne_some.mpr ?_)
          simpa [listedObjects, h₁] using hobjs
      | object => exact ⟨rfl, rfl, rfl⟩
    | _ => exact ⟨rfl, rfl, rfl⟩

end ListDecoder

/-! ## Any response -/

/-- No store goes past the array. Either the result is ok and the array has exactly `count`
decoded records, and is null if there are none, or the result is not ok, the array is null
and the count is zero. -/
def Consistent (d : ListDecoder) (out : ListOut) : Prop :=
  out.arr.outside = false ∧
    (out.result = 0 ∧ 0 ≤ out.count ∧
        (if out.count = 0 then out.pointer = .null
          else out.pointer = .array ∧ (out.arr.size : ℤ) = d.size * out.count ∧
            (out.decoded : ℤ) = out.count) ∨
      out.result ≠ 0 ∧ out.pointer = .null ∧ out.count = 0)

/-- The count and what follows it. -/
def announcedCount : List PackElem → Option (ℤ × List PackElem)
  | .int key count :: rest => if key = lit "count" then some (count.toInt, rest) else none
  | _ => none

/-- The count and what follows it, in a response that says ok. -/
def announced : List PackElem → Option (ℤ × List PackElem)
  | .int key result :: rest =>
    if key = lit "result" ∧ result.toInt = 0 then announcedCount rest else none
  | _ => none

/-- What the function finds announced, if it gets as far as that. -/
def Exchange.announced (x : Exchange) (d : ListDecoder) : Option (ℤ × List PackElem) :=
  match x.session, x.parameters, x.response with
  | some type, true, some elems => if d.allowed type then Client.announced elems else none
  | _, _, _ => none

/-- There are arrays, and in them nothing but objects, as many as announced. An array for
that many fits into an `int`, and no string reaches past its end. -/
def Delivered (d : ListDecoder) (count : ℤ) (rest : List PackElem) : Prop :=
  ∃ objs, listedObjects rest = some objs ∧ rest ≠ [] ∧ (objs.length : ℤ) = count ∧
    d.size * count < 2 ^ 31 ∧
    ∀ i elems, objs[i]? = some elems → ∀ w ∈ d.writes elems,
      i * d.size + w.1 + w.2.length ≤ d.size * objs.length

/-- Nothing is announced and the output parameters are null and zero; or no records are
announced and the pointer is null; or all that is announced is there. -/
def CoherentWith (d : ListDecoder) (null : Bool) (count : ℤ) :
    Option (ℤ × List PackElem) → Prop
  | none => null ∧ count = 0
  | some (announced, rest) => if announced = 0 then null = true else Delivered d announced rest

/-- The response is coherent with the output parameters as they are when it is read. -/
def Coherent (d : ListDecoder) (x : Exchange) (null : Bool) (count : ℤ) : Prop :=
  CoherentWith d (d.resets || null) (if d.resets then 0 else count) (x.announced d)

/-- The codes of the enumeration for failures are not the code for success. -/
structure Codes (d : ListDecoder) : Prop where
  illegalParameter : d.illegalParameter ≠ 0
  noPermission : d.noPermission ≠ 0
  serviceUnavailable : d.serviceUnavailable ≠ 0
  noResponse : d.noResponse ≠ 0

section Responses

variable {d : ListDecoder}

theorem epCalloc_size {n : ℤ} (h0 : 0 ≤ n) (h : n < 2 ^ 31) : ((epCalloc n).size : ℤ) = n := by
  have hmod : n.bmod (2 ^ 32) = n := Int.bmod_eq_of_le (by omega) (by omega)
  rw [epCalloc, hmod]
  exact Int.toNat_of_nonneg h0

theorem epCalloc_size_lt (n : ℤ) : ((epCalloc n).size : ℤ) < 2 ^ 31 := by
  have hlt := Int.bmod_lt (x := n) (m := 2 ^ 32) (by decide)
  simp only [epCalloc]
  omega

/-- What follows a count is decoded consistently exactly if it is what was announced. -/
theorem consistent_decodeArrays_iff (hcodes : Codes d) (hsize : 0 < d.size) {out : ListOut}
    {count : ℤ} (hcount : count ≠ 0) (rest : List PackElem)
    (hout : out.pointer ≠ .array ∧ out.decoded = 0) :
    Consistent d (d.decodeArrays
      { out with count := count, arr := epCalloc (d.size * count) } rest) ↔
      Delivered d count rest := by
  cases hobjs : listedObjects rest with
  | none =>
    obtain ⟨hcount', -, hresult⟩ := ListDecoder.decodeArrays_bad (d := d)
      { out with count := count, arr := epCalloc (d.size * count) } rest hobjs
    simp [Consistent, Delivered, hobjs, hcount', hresult, hcodes.serviceUnavailable, hcount]
  | some objs =>
    rw [ListDecoder.decodeArrays_eq _ _ hobjs]
    simp only [Consistent, Delivered, hobjs, hcount, if_false, hout.2, Nat.zero_add,
      ListDecoder.outside_decodeAll, ListDecoder.size_decodeAll]
    constructor
    · rintro ⟨⟨-, hinside⟩, ⟨-, h0, hpointer, hsize', hlength⟩ | ⟨h, -⟩⟩
      · have hroom := epCalloc_size_lt (d.size * count)
        refine ⟨objs, rfl, ?_, hlength, by omega, ?_⟩
        · rintro rfl
          exact hout.1 (by simpa using hpointer)
        · intro i elems hi w hw
          have hw' := hinside i elems hi w hw
          generalize (epCalloc (d.size * count)).size = size at hsize' hw'
          rw [← hlength] at hsize'
          have hsize'' : size = d.size * objs.length := by exact_mod_cast hsize'
          rw [← hsize'']
          exact hw'
      · exact absurd rfl h
    · rintro ⟨objs', ⟨⟩, hrest, hlength, hroom, hinside⟩
      have hpos : 0 < count := by omega
      have hsize' := epCalloc_size (n := d.size * count) (by positivity) hroom
      refine ⟨⟨rfl, ?_⟩, .inl ⟨trivial, hpos.le, ?_, hsize', hlength⟩⟩
      · intro i elems hi w hw
        have hw' := hinside i elems hi w hw
        generalize (epCalloc (d.size * count)).size = size at hsize' ⊢
        rw [← hlength] at hsize'
        have hsize'' : size = d.size * objs.length := by exact_mod_cast hsize'
        rw [hsize'']
        exact hw'
      · have hne : (epCalloc (d.size * count)).size ≠ 0 := by
          have : 0 < (d.size : ℤ) * count := by positivity
          omega
        simp [hrest, Arr.pointer, hne]

theorem consistent_failed_iff {null : Bool} {count r : ℤ} (hr : r ≠ 0) :
    Consistent d { ListOut.start null count with result := r } ↔ CoherentWith d null count none := by
  simp [Consistent, ListOut.start, CoherentWith, hr]

theorem consistent_decodeCount_iff (hcodes : Codes d) (hsize : 0 < d.size) (null : Bool)
    (count : ℤ) (elems : List PackElem) :
    Consistent d (d.decodeCount (.start null count) elems) ↔
      CoherentWith d null count (announcedCount elems) := by
  have hfail : Consistent d { ListOut.start null count with result := d.serviceUnavailable } ↔
      CoherentWith d null count none := consistent_failed_iff hcodes.serviceUnavailable
  rcases elems with - | ⟨e, rest⟩
  · exact hfail
  · cases e with
    | int key c =>
      rw [ListDecoder.decodeCount, announcedCount]
      split_ifs with hkey hc
      · simp [Consistent, ListOut.start, CoherentWith, hc]
      · have hstart : (ListOut.start null count).pointer ≠ .array := by
          cases null <;> simp [ListOut.start]
        rw [consistent_decodeArrays_iff hcodes hsize hc rest ⟨hstart, rfl⟩, CoherentWith, if_neg hc]
      · exact hfail
    | _ => exact hfail

theorem consistent_decode_iff (hcodes : Codes d) (hsize : 0 < d.size) (null : Bool)
    (count : ℤ) (elems : List PackElem) :
    Consistent d (d.decode (.start null count) elems) ↔
      CoherentWith d null count (announced elems) := by
  have hfail : Consistent d { ListOut.start null count with result := d.serviceUnavailable } ↔
      CoherentWith d null count none := consistent_failed_iff hcodes.serviceUnavailable
  rcases elems with - | ⟨e, rest⟩
  · exact hfail
  · cases e with
    | int key result =>
      rw [ListDecoder.decode, announced]
      by_cases hkey : key = lit "result"
      · by_cases hresult : result.toInt = 0
        · simp only [hkey, hresult, if_true, and_self]
          exact consistent_decodeCount_iff hcodes hsize null count rest
        · simp only [hkey, hresult, if_true, if_false, and_false]
          exact consistent_failed_iff hresult
      · simp only [hkey, if_false, false_and]
        exact hfail
    | _ => exact hfail

/-- One of the four functions is consistent exactly on the coherent exchanges. -/
theorem consistent_clientList_iff (hcodes : Codes d) (hsize : 0 < d.size) (x : Exchange)
    (null : Bool) (count : ℤ) :
    Consistent d (clientList d x (.start null count)) ↔ Coherent d x null count := by
  obtain ⟨session, parameters, response⟩ := x
  have hreset : (if d.resets then { ListOut.start null count with pointer := .null, count := 0 }
      else ListOut.start null count) =
      ListOut.start (d.resets || null) (if d.resets then 0 else count) := by
    cases d.resets <;> simp [ListOut.start]
  simp only [clientList, Coherent, hreset]
  cases session with
  | none => exact consistent_failed_iff hcodes.illegalParameter
  | some type =>
    cases parameters with
    | false => exact consistent_failed_iff hcodes.illegalParameter
    | true =>
      by_cases hallowed : d.allowed type = true
      · cases response with
        | none =>
          simp only [hallowed, if_true]
          exact consistent_failed_iff hcodes.noResponse
        | some elems =>
          simp only [hallowed, if_true, Exchange.announced]
          exact consistent_decode_iff hcodes hsize _ _ elems
      · have hnone : (Exchange.mk (some type) true response).announced d = none := by
          cases response <;> simp [Exchange.announced, hallowed]
        simp only [hallowed, hnone]
        exact consistent_failed_iff hcodes.noPermission

end Responses

/-- For every exchange and whatever the caller's variables held, each of the four functions
is consistent exactly if the exchange is coherent. -/
theorem lists_consistent_iff (x : Exchange) (null : Bool) (count : ℤ) :
    (Consistent accountList (clientAccountList x (.start null count)) ↔
        Coherent accountList x null count) ∧
      (Consistent dishFetch (clientDishFetch x (.start null count)) ↔
        Coherent dishFetch x null count) ∧
      (Consistent dishList (clientDishList x (.start null count)) ↔
        Coherent dishList x null count) ∧
      (Consistent seatList (clientSeatList x (.start null count)) ↔
        Coherent seatList x null count) := by
  have hiff : ∀ {d : ListDecoder}, Codes d → 0 < d.size →
      (Consistent d (clientList d x (.start null count)) ↔ Coherent d x null count) :=
    fun hcodes hsize => consistent_clientList_iff hcodes hsize x null count
  refine ⟨hiff ?_ (by decide), hiff ?_ (by decide), hiff ?_ (by decide), hiff ?_ (by decide)⟩
  · exact ⟨by decide, by decide, by decide, by decide⟩
  · exact ⟨by decide, by decide, by decide, by decide⟩
  · exact ⟨by decide, by decide, by decide, by decide⟩
  · exact ⟨by decide, by decide, by decide, by decide⟩

/-- One seat is announced and two come. -/
def twoSeats : List PackElem :=
  [.int (lit "result") 0, .int (lit "count") 1,
    .sub .array (lit "seat") [.sub .object (lit "seat_one") [.int (lit "id") 1],
      .sub .object (lit "seat_one") [.int (lit "id") 2]]]

/-- The second seat is stored past the array. -/
theorem clientSeatList_not_consistent :
    ¬ Consistent seatList (clientSeatList ⟨some accountMenu, true, some twoSeats⟩
      (.start true 0)) := by
  rintro ⟨hinside, -⟩
  exact absurd hinside (by decide)

end Youmenu.Client
