import Mathlib.Data.List.TakeWhile
import Mathlib.Tactic.Common
import Youmenu.Lib.Bytes

/-!
# The BSON builder and iterator

The vendored library, as far as packets use it. The builder appends to a growing
area whose first four bytes are reserved for the total size; a sub-document
reserves four bytes of its own, and its position is kept on a stack until it is
finished. Appending checks the room, the key and, for strings, the value; a
failed call leaves the document as it is and sets a bit of `err`.

An iterator is a pointer into the document, here the bytes from there on.

## Main definitions

* `Bson`, `bsonInit`, `bsonEnsureSpace`, `bsonAppendEstart`, `bsonFinish` — building.
* `BsonIterator`, `bsonIteratorNext` — iterating.
* `bsonCheckString`, `bsonCheckFieldName` — the UTF-8 checks of `encoding.c`.
-/

namespace Youmenu.Eventpack

open Bytes

/-- A C string: the bytes before the terminating zero. -/
@[ext]
structure CString where
  bytes : List UInt8
  ne_zero : ∀ b ∈ bytes, b ≠ 0
deriving DecidableEq

/-- The C string that starts at a pointer. -/
def CString.read (p : List UInt8) : CString where
  bytes := p.takeWhile (· ≠ 0)
  ne_zero := fun b hb => by simpa using List.mem_takeWhile_imp hb

theorem CString.read_append (s : CString) (rest : List UInt8) :
    CString.read (s.bytes ++ 0 :: rest) = s := by
  obtain ⟨bytes, hne⟩ := s
  have hall : ∀ b ∈ bytes, decide (b ≠ 0) = true := fun b hb => by simpa using hne b hb
  simp only [CString.read, CString.mk.injEq]
  rw [List.takeWhile_append_of_pos hall, List.takeWhile_cons_of_neg (by simp), List.append_nil]

/-! ## Types and error bits -/

def bsonEoo : UInt8 := 0
def bsonDouble : UInt8 := 1
def bsonString : UInt8 := 2
def bsonObject : UInt8 := 3
def bsonArray : UInt8 := 4
def bsonBindata : UInt8 := 5
def bsonUndefined : UInt8 := 6
def bsonOid : UInt8 := 7
def bsonBool : UInt8 := 8
def bsonDate : UInt8 := 9
def bsonNull : UInt8 := 10
def bsonRegex : UInt8 := 11
def bsonDbref : UInt8 := 12
def bsonCode : UInt8 := 13
def bsonSymbol : UInt8 := 14
def bsonCodewscope : UInt8 := 15
def bsonInt : UInt8 := 16
def bsonTimestamp : UInt8 := 17
def bsonLong : UInt8 := 18
def bsonMaxkey : UInt8 := 127
def bsonMinkey : UInt8 := 255

def bsonBinBinary : UInt8 := 0
def bsonBinBinaryOld : UInt8 := 2

def bsonSizeOverflow : BitVec 8 := 1
def bsonNotUtf8 : BitVec 8 := 2
def bsonFieldHasDot : BitVec 8 := 4
def bsonFieldInitDollar : BitVec 8 := 8
def bsonAlreadyFinished : BitVec 8 := 16
def bsonNotInSubobject : BitVec 8 := 32

def int32Max : ℕ := 2 ^ 31 - 1

/-! ## String checks -/

def trailingBytesForUtf8 (c : UInt8) : ℕ :=
  if c < 0xC0 then 0 else if c < 0xE0 then 1 else if c < 0xF0 then 2
  else if c < 0xF8 then 3 else if c < 0xFC then 4 else 5

/-- The cases of `isLegalUTF8` fall through from the last byte to the first. -/
def isLegalUtf8 (source : List UInt8) : Bool :=
  let lead (c : UInt8) := !(0x80 ≤ c && c < 0xC2) && c ≤ 0xF4
  let second (c a : UInt8) := a ≤ 0xBF &&
    (if c = 0xE0 then 0xA0 ≤ a else if c = 0xF0 then 0x90 ≤ a
      else if c = 0xF4 then a ≤ 0x8F else 0x80 ≤ a)
  let cont (a : UInt8) := 0x80 ≤ a && a ≤ 0xBF
  match source with
  | [c] => lead c
  | [c, a] => second c a && lead c
  | [c, a, x] => cont x && second c a && lead c
  | [c, a, x, y] => cont y && cont x && second c a && lead c
  | _ => false

def bsonStringIsDbRef (s : List UInt8) : Bool :=
  if 4 ≤ s.length then s.getD 1 0 = 0x72 && s.getD 2 0 = 0x65 && s.getD 3 0 = 0x66
  else if 3 ≤ s.length then
    (s.getD 1 0 = 0x69 && s.getD 2 0 = 0x64) || (s.getD 1 0 = 0x64 && s.getD 2 0 = 0x62)
  else false

/-- The loop over the sequences of a string, at most `fuel` of them. -/
def validateSequences (checkDot : Bool) : ℕ → List UInt8 → BitVec 8 → BitVec 8 × Bool
  | 0, _, err => (err, true)
  | _ + 1, [], err => (err, true)
  | fuel + 1, c :: rest, err =>
    let err := if checkDot && c = 0x2E then err ||| bsonFieldHasDot else err
    let n := trailingBytesForUtf8 c
    if rest.length < n then (err ||| bsonNotUtf8, false)
    else if !isLegalUtf8 (c :: rest.take n) then (err ||| bsonNotUtf8, false)
    else validateSequences checkDot fuel (rest.drop n) err

/-- Returns the new error bits and whether the string was accepted. -/
def bsonValidateString (err : BitVec 8) (s : List UInt8) (checkDot checkDollar : Bool) :
    BitVec 8 × Bool :=
  let err := if checkDollar && s.headD 0 = 0x24 && !bsonStringIsDbRef s
    then err ||| bsonFieldInitDollar else err
  validateSequences checkDot s.length s err

def bsonCheckString (err : BitVec 8) (s : List UInt8) : BitVec 8 × Bool :=
  bsonValidateString err s false false

def bsonCheckFieldName (err : BitVec 8) (s : List UInt8) : BitVec 8 × Bool :=
  bsonValidateString err s true true

/-! ## Building -/

/-- `data` is what lies between `b->data` and `b->cur`; `stack` has the positions
of the open sub-documents, innermost first. -/
structure Bson where
  data : List UInt8
  dataSize : ℕ
  stack : List ℕ
  err : BitVec 8
  finished : Bool

/-- The area is not cleared: `junk` is what its first four bytes happen to hold. -/
def bsonInit (junk : List UInt8) : Bson := ⟨junk.take 4, 128, [], 0, false⟩

/-- The new size of the area. A product beyond `INT_MAX` converts to `INT_MIN`,
which the source catches by comparing with the old size. -/
def bsonGrow (pos dataSize bytesNeeded : ℕ) : Option ℕ :=
  if pos + bytesNeeded ≤ dataSize then some dataSize
  else if 3 * (dataSize + bytesNeeded) / 2 ≤ int32Max then
    some (3 * (dataSize + bytesNeeded) / 2)
  else if dataSize + bytesNeeded < int32Max then some int32Max
  else none

def bsonEnsureSpace (b : Bson) (bytesNeeded : ℕ) : Bson × Bool :=
  match bsonGrow b.data.length b.dataSize bytesNeeded with
  | some size => ({ b with dataSize := size }, true)
  | none => ({ b with err := bsonSizeOverflow }, false)

/-- Type byte, key and terminating zero of an element. -/
def estartBytes (type : UInt8) (name : CString) : List UInt8 := type :: name.bytes ++ [0]

def bsonAppendEstart (b : Bson) (type : UInt8) (name : CString) (dataSize : ℕ) : Bson × Bool :=
  if b.finished then ({ b with err := b.err ||| bsonAlreadyFinished }, false)
  else
    match bsonEnsureSpace b (1 + (name.bytes.length + 1) + dataSize) with
    | (b, false) => (b, false)
    | (b, true) =>
      let check := bsonCheckFieldName b.err name.bytes
      if check.2 then
        ({ b with err := check.1, data := b.data ++ estartBytes type name }, true)
      else ({ b with err := check.1 }, false)

/-- An element whose value is a fixed string of bytes. -/
def bsonAppendValue (b : Bson) (type : UInt8) (name : CString) (value : List UInt8) :
    Bson × Bool :=
  match bsonAppendEstart b type name value.length with
  | (b, false) => (b, false)
  | (b, true) => ({ b with data := b.data ++ value }, true)

def bsonAppendInt (b : Bson) (name : CString) (i : BitVec 32) : Bson × Bool :=
  bsonAppendValue b bsonInt name (leBytes 4 i.toNat)

def bsonAppendLong (b : Bson) (name : CString) (i : BitVec 64) : Bson × Bool :=
  bsonAppendValue b bsonLong name (leBytes 8 i.toNat)

/-- A double is its 64-bit pattern. -/
def bsonAppendDouble (b : Bson) (name : CString) (d : BitVec 64) : Bson × Bool :=
  bsonAppendValue b bsonDouble name (leBytes 8 d.toNat)

def bsonAppendBool (b : Bson) (name : CString) (i : Bool) : Bson × Bool :=
  bsonAppendValue b bsonBool name [if i then 1 else 0]

def bsonAppendString (b : Bson) (name value : CString) : Bson × Bool :=
  let sl := value.bytes.length + 1
  if sl > int32Max then ({ b with err := bsonSizeOverflow }, false)
  else
    let check := bsonCheckString b.err value.bytes
    if check.2 then
      bsonAppendValue { b with err := check.1 } bsonString name
        (leBytes 4 sl ++ (value.bytes ++ [0]))
    else ({ b with err := check.1 }, false)

/-- With the subtype `BSON_BIN_BINARY`, the only one packets use. -/
def bsonAppendBinary (b : Bson) (name : CString) (str : List UInt8) : Bson × Bool :=
  bsonAppendValue b bsonBindata name (leBytes 4 str.length ++ (bsonBinBinary :: str))

def bsonAppendStart (b : Bson) (type : UInt8) (name : CString) : Bson × Bool :=
  match bsonAppendEstart b type name 5 with
  | (b, false) => (b, false)
  | (b, true) =>
    ({ b with stack := b.data.length :: b.stack, data := b.data ++ leBytes 4 0 }, true)

def bsonAppendStartObject (b : Bson) (name : CString) : Bson × Bool :=
  bsonAppendStart b bsonObject name

def bsonAppendStartArray (b : Bson) (name : CString) : Bson × Bool :=
  bsonAppendStart b bsonArray name

/-- Overwrite four bytes at a position. -/
def patch (data : List UInt8) (pos n : ℕ) : List UInt8 :=
  data.take pos ++ leBytes 4 n ++ data.drop (pos + 4)

def bsonAppendFinishObject (b : Bson) : Bson × Bool :=
  match b.stack with
  | [] => ({ b with err := bsonNotInSubobject }, false)
  | start :: stack =>
    match bsonEnsureSpace b 1 with
    | (b, false) => (b, false)
    | (b, true) =>
      let data := b.data ++ [0]
      if data.length - start ≥ int32Max then
        ({ b with data := data, stack := stack, err := bsonSizeOverflow }, false)
      else ({ b with data := patch data start (data.length - start), stack := stack }, true)

def bsonAppendFinishArray (b : Bson) : Bson × Bool := bsonAppendFinishObject b

/-- `none` stands for the exit of the process on an open sub-document. -/
def bsonFinish (b : Bson) : Option (Bson × Bool) :=
  if b.err &&& bsonNotUtf8 ≠ 0 then some (b, false)
  else if b.finished then some (b, true)
  else if b.stack ≠ [] then none
  else
    match bsonEnsureSpace b 1 with
    | (b, false) => some (b, false)
    | (b, true) =>
      let data := b.data ++ [0]
      if data.length ≥ int32Max then
        some ({ b with data := data, err := bsonSizeOverflow }, false)
      else some ({ b with data := patch data 0 data.length, finished := true }, true)

/-! ## Iterating -/

structure BsonIterator where
  cur : List UInt8
  first : Bool

def bsonIteratorFromBuffer (buffer : List UInt8) : BsonIterator := ⟨buffer.drop 4, true⟩

def bsonIteratorType (i : BsonIterator) : UInt8 := i.cur.headD 0

def bsonIteratorKey (i : BsonIterator) : CString := CString.read (i.cur.drop 1)

def bsonIteratorValue (i : BsonIterator) : List UInt8 :=
  i.cur.drop (1 + (bsonIteratorKey i).bytes.length + 1)

def bsonIteratorIntRaw (i : BsonIterator) : BitVec 32 :=
  BitVec.ofNat 32 (word 4 (bsonIteratorValue i))

def bsonIteratorLongRaw (i : BsonIterator) : BitVec 64 :=
  BitVec.ofNat 64 (word 8 (bsonIteratorValue i))

def bsonIteratorDoubleRaw (i : BsonIterator) : BitVec 64 :=
  BitVec.ofNat 64 (word 8 (bsonIteratorValue i))

def bsonIteratorBoolRaw (i : BsonIterator) : Bool := (bsonIteratorValue i).headD 0 ≠ 0

def bsonIteratorString (i : BsonIterator) : CString :=
  if bsonIteratorType i = bsonString ∨ bsonIteratorType i = bsonSymbol then
    CString.read ((bsonIteratorValue i).drop 4)
  else ⟨[], by simp⟩

def bsonIteratorBinType (i : BsonIterator) : UInt8 := (bsonIteratorValue i).getD 4 0

def bsonIteratorBinLen (i : BsonIterator) : ℤ :=
  if bsonIteratorBinType i = bsonBinBinaryOld then (bsonIteratorIntRaw i).toInt - 4
  else (bsonIteratorIntRaw i).toInt

def bsonIteratorBinData (i : BsonIterator) : List UInt8 :=
  if bsonIteratorBinType i = bsonBinBinaryOld then (bsonIteratorValue i).drop 9
  else (bsonIteratorValue i).drop 5

/-- How far the value of the current element reaches; `none` for an unknown type. -/
def bsonValueSize (i : BsonIterator) : Option ℤ :=
  let t := bsonIteratorType i
  if t = bsonUndefined ∨ t = bsonNull ∨ t = bsonMinkey ∨ t = bsonMaxkey then some 0
  else if t = bsonBool then some 1
  else if t = bsonInt then some 4
  else if t = bsonLong ∨ t = bsonDouble ∨ t = bsonTimestamp ∨ t = bsonDate then some 8
  else if t = bsonOid then some 12
  else if t = bsonString ∨ t = bsonSymbol ∨ t = bsonCode then
    some (4 + (bsonIteratorIntRaw i).toInt)
  else if t = bsonBindata then some (5 + (bsonIteratorIntRaw i).toInt)
  else if t = bsonObject ∨ t = bsonArray ∨ t = bsonCodewscope then
    some (bsonIteratorIntRaw i).toInt
  else if t = bsonDbref then some (4 + 12 + (bsonIteratorIntRaw i).toInt)
  else if t = bsonRegex then
    let pattern := CString.read (bsonIteratorValue i)
    let opts := CString.read ((bsonIteratorValue i).drop (pattern.bytes.length + 1))
    some (pattern.bytes.length + 1 + opts.bytes.length + 1)
  else none

/-- The iterator and the type it stands on. `none` is the exit on an unknown type,
and also a negative size, which would move the pointer out of the document. -/
def bsonIteratorNext (i : BsonIterator) : Option (BsonIterator × UInt8) :=
  if i.first then some ({ i with first := false }, bsonIteratorType i)
  else if bsonIteratorType i = bsonEoo then some (i, bsonEoo)
  else
    match bsonValueSize i with
    | none => none
    | some ds =>
      if ds < 0 then none
      else
        let i := { i with cur := (bsonIteratorValue i).drop ds.toNat }
        some (i, bsonIteratorType i)

/-! ## What a call can do -/

/-- The strings that the checks accept. -/
def ValidUtf8 (s : List UInt8) : Prop := (validateSequences false s.length s 0).2 = true

instance (s : List UInt8) : Decidable (ValidUtf8 s) := inferInstanceAs (Decidable (_ = true))

/-- No key or string was refused so far, or the bit was overwritten since. -/
def Clean (err : BitVec 8) : Prop := err &&& bsonNotUtf8 = 0

instance (err : BitVec 8) : Decidable (Clean err) := inferInstanceAs (Decidable (_ = _))

theorem Clean.or {err : BitVec 8} (h : Clean err) {bit : BitVec 8} (hb : Clean bit) :
    Clean (err ||| bit) := by
  unfold Clean at *
  rw [BitVec.and_comm, BitVec.and_or_distrib_left, BitVec.and_comm, h, BitVec.and_comm, hb]
  rfl

/-- Neither the dot warning nor the bits so far matter to the verdict. -/
theorem validateSequences_spec (checkDot : Bool) (fuel : ℕ) (s : List UInt8) (err err' : BitVec 8) :
    (validateSequences checkDot fuel s err).2 = (validateSequences false fuel s err').2 ∧
      (Clean err → (validateSequences checkDot fuel s err).2 = true →
        Clean (validateSequences checkDot fuel s err).1) := by
  induction fuel generalizing s err err' with
  | zero => exact ⟨rfl, fun h _ => h⟩
  | succ fuel ih =>
    cases s with
    | nil => exact ⟨rfl, fun h _ => h⟩
    | cons c rest =>
      have hdot : Clean bsonFieldHasDot := rfl
      have hnew : Clean err →
          Clean (if checkDot && c = 0x2E then err ||| bsonFieldHasDot else err) := by
        intro h
        split_ifs
        · exact h.or hdot
        · exact h
      simp only [validateSequences, Bool.false_and, Bool.false_eq_true, if_false]
      generalize (if checkDot && c = 0x2E then err ||| bsonFieldHasDot else err) = e at hnew ⊢
      split_ifs
      · exact ⟨rfl, fun _ h => by cases h⟩
      · exact ⟨rfl, fun _ h => by cases h⟩
      · exact ⟨(ih _ _ _).1, fun h => (ih _ _ err').2 (hnew h)⟩

theorem bsonCheckString_spec (err : BitVec 8) (s : List UInt8) :
    ((bsonCheckString err s).2 = true ↔ ValidUtf8 s) ∧
      (Clean err → (bsonCheckString err s).2 = true → Clean (bsonCheckString err s).1) := by
  obtain ⟨hok, hclean⟩ := validateSequences_spec false s.length s err 0
  exact ⟨by simp only [bsonCheckString, bsonValidateString, ValidUtf8, Bool.false_and,
    Bool.false_eq_true, if_false, hok], by
      simpa [bsonCheckString, bsonValidateString] using hclean⟩

theorem bsonCheckFieldName_spec (err : BitVec 8) (s : List UInt8) :
    ((bsonCheckFieldName err s).2 = true ↔ ValidUtf8 s) ∧
      (Clean err → (bsonCheckFieldName err s).2 = true → Clean (bsonCheckFieldName err s).1) := by
  have hdollar : Clean bsonFieldInitDollar := rfl
  unfold bsonCheckFieldName bsonValidateString ValidUtf8
  refine ⟨by rw [(validateSequences_spec true s.length s _ 0).1], fun h => ?_⟩
  apply (validateSequences_spec true s.length s _ 0).2
  split_ifs
  · exact h.or hdollar
  · exact h

theorem bsonGrow_eq_some {pos dataSize n size : ℕ} (h : bsonGrow pos dataSize n = some size)
    (hpos : pos ≤ dataSize) (hmax : dataSize ≤ int32Max) :
    pos + n ≤ size ∧ dataSize ≤ size ∧ size ≤ int32Max := by
  unfold bsonGrow at h
  split_ifs at h <;> (simp only [Option.some.injEq] at h; omega)

/-- The area of a builder holds what was written and has a size that is an `int`. -/
structure Bson.Roomy (b : Bson) : Prop where
  unfinished : b.finished = false
  room : b.data.length ≤ b.dataSize
  size_le : b.dataSize ≤ int32Max

/-- A call that failed: the document is as before. -/
structure Refused (b b' : Bson) : Prop where
  data : b'.data = b.data
  stack : b'.stack = b.stack
  roomy : b'.Roomy

/-- A call that succeeded and needed `need` bytes of room. -/
structure Grown (b b' : Bson) (need : ℕ) : Prop where
  grow : bsonGrow b.data.length b.dataSize need = some b'.dataSize
  unfinished : b'.finished = false
  clean : Clean b.err → Clean b'.err

theorem bsonEnsureSpace_spec (b : Bson) (n : ℕ) :
    (∃ size, bsonGrow b.data.length b.dataSize n = some size ∧
      bsonEnsureSpace b n = ({ b with dataSize := size }, true)) ∨
    (bsonGrow b.data.length b.dataSize n = none ∧
      bsonEnsureSpace b n = ({ b with err := bsonSizeOverflow }, false)) := by
  unfold bsonEnsureSpace
  cases hg : bsonGrow b.data.length b.dataSize n with
  | some size => exact .inl ⟨size, rfl, rfl⟩
  | none => exact .inr ⟨rfl, rfl⟩

/-- `bson_append_estart` succeeds exactly if there is room and the key is accepted. -/
theorem bsonAppendEstart_spec {b : Bson} (h : b.Roomy) (t : UInt8) (name : CString) (n : ℕ) :
    (∃ b', bsonAppendEstart b t name n = (b', true) ∧ ValidUtf8 name.bytes ∧
      Grown b b' (1 + (name.bytes.length + 1) + n) ∧
      b'.data = b.data ++ estartBytes t name ∧ b'.stack = b.stack) ∨
    (∃ b', bsonAppendEstart b t name n = (b', false) ∧ Refused b b' ∧
      ¬ (ValidUtf8 name.bytes ∧
        (bsonGrow b.data.length b.dataSize (1 + (name.bytes.length + 1) + n)).isSome)) := by
  unfold bsonAppendEstart
  rw [h.unfinished]
  obtain ⟨size, hgrow, henough⟩ | ⟨hgrow, hfull⟩ :=
    bsonEnsureSpace_spec b (1 + (name.bytes.length + 1) + n)
  · obtain ⟨hok, hclean⟩ := bsonCheckFieldName_spec b.err name.bytes
    obtain ⟨hroom, hge, hle⟩ := bsonGrow_eq_some hgrow h.room h.size_le
    simp only [Bool.false_eq_true, if_false, henough]
    by_cases hvalid : ValidUtf8 name.bytes
    · rw [if_pos (hok.mpr hvalid)]
      exact .inl ⟨_, rfl, hvalid, ⟨hgrow, h.unfinished, fun hc => hclean hc (hok.mpr hvalid)⟩,
        rfl, rfl⟩
    · rw [if_neg fun hc => hvalid (hok.mp hc)]
      refine .inr ⟨_, rfl, ⟨rfl, rfl, h.unfinished, ?_, hle⟩, fun hc => hvalid hc.1⟩
      simp only; omega
  · simp only [Bool.false_eq_true, if_false, hfull]
    exact .inr ⟨_, rfl, ⟨rfl, rfl, h.unfinished, h.room, h.size_le⟩, by simp [hgrow]⟩

end Youmenu.Eventpack
