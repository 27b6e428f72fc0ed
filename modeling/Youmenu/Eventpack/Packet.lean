import Youmenu.Eventpack.Bson

/-!
# Packets: `ep_packet.c`

A packet is a BSON document that is built by a sequence of append calls and read
back by iterators. The calls and what an iteration finds are written in the same
vocabulary, `PackOp`, so that the round trip is an equation between lists.

## Main definitions

* `PackOp`, `PackOp.apply` — the `ep_pack_append_*` calls.
* `epPackFinish`, `epPackCreate`, `packWalk` — finishing, receiving and iterating.
* `Doc` — the bytes that a well-nested list of calls stands for.
* `Open` — a document under construction.
-/

namespace Youmenu.Eventpack

open Bytes

/-! ## The source -/

/-- The two kinds of sub-document. -/
inductive PackKind where
  | array
  | object
deriving DecidableEq

def PackKind.type : PackKind → UInt8
  | .array => bsonArray
  | .object => bsonObject

/-- One call of the `ep_pack_append_*` family. -/
inductive PackOp where
  | binary (name : CString) (data : List UInt8)
  | string (name data : CString)
  | bool (name : CString) (value : Bool)
  | int (name : CString) (value : BitVec 32)
  | long (name : CString) (value : BitVec 64)
  | double (name : CString) (value : BitVec 64)
  | start (kind : PackKind) (name : CString)
  | finish (kind : PackKind)
deriving DecidableEq

/-- The call, with the result of the library function that it drops. -/
def PackOp.apply (b : Bson) : PackOp → Bson × Bool
  | .binary name data => bsonAppendBinary b name data
  | .string name data => bsonAppendString b name data
  | .bool name value => bsonAppendBool b name value
  | .int name value => bsonAppendInt b name value
  | .long name value => bsonAppendLong b name value
  | .double name value => bsonAppendDouble b name value
  | .start .array name => bsonAppendStartArray b name
  | .start .object name => bsonAppendStartObject b name
  | .finish .array => bsonAppendFinishArray b
  | .finish .object => bsonAppendFinishObject b

def packAppend (b : Bson) (ops : List PackOp) : Bson := ops.foldl (fun b op => (op.apply b).1) b

/-- `ep_pack_new`, the calls, and `ep_pack_finish`; `none` if the process exits. -/
def epPackFinish (junk : List UInt8) (ops : List PackOp) : Option Bson :=
  (bsonFinish (packAppend (bsonInit junk) ops)).map Prod.fst

def epPackData (b : Bson) : List UInt8 := b.data

def epPackSize (b : Bson) : ℤ := (BitVec.ofNat 32 (word 4 b.data)).toInt

/-- The first byte of the size must not be zero; `some none` is the null pointer. A document
that declares a negative size is none that `malloc` can give memory for, and `bson_malloc` makes
the process exit: `none`. -/
def epPackCreate (data : List UInt8) (len : ℤ) : Option (Option Bson) :=
  if data.headD 0 ≠ 0 ∧ len > 0 then
    let dataSize := (BitVec.ofNat 32 (word 4 data)).toInt
    if dataSize < 0 then none
    else some (some ⟨data.take dataSize.toNat, dataSize.toNat, [], 0, true⟩)
  else some none

inductive PackType where
  | bindata
  | string
  | bool
  | int
  | long
  | double
  | array
  | object
deriving DecidableEq

/-- `none` is `PACKET_UNKNOWN`. -/
def bsonTypeToEpPackType (t : UInt8) : Option PackType :=
  if t = bsonBindata then some .bindata
  else if t = bsonString then some .string
  else if t = bsonBool then some .bool
  else if t = bsonInt then some .int
  else if t = bsonLong then some .long
  else if t = bsonDouble then some .double
  else if t = bsonArray then some .array
  else if t = bsonObject then some .object
  else none

def epPackIteratorGet (b : Bson) : BsonIterator := bsonIteratorFromBuffer b.data

def epPackIteratorNext (i : BsonIterator) : Option (BsonIterator × Bool) :=
  (bsonIteratorNext i).map fun r => (r.1, (bsonTypeToEpPackType r.2).isSome)

def epPackInteratorArray (i : BsonIterator) : BsonIterator :=
  bsonIteratorFromBuffer (bsonIteratorValue i)

/-- Visit all elements, descending into sub-documents, at most `fuel` deep and
long; each element is written as the call that appends it. -/
def packWalk : ℕ → BsonIterator → Option (List PackOp)
  | 0, _ => none
  | fuel + 1, i =>
    match epPackIteratorNext i with
    | none => none
    | some (_, false) => some []
    | some (i, true) =>
      let key := bsonIteratorKey i
      let sub (kind : PackKind) : Option (List PackOp) := do
        let inner ← packWalk fuel (epPackInteratorArray i)
        let rest ← packWalk fuel i
        some (.start kind key :: (inner ++ .finish kind :: rest))
      let one (op : PackOp) : Option (List PackOp) := (packWalk fuel i).map (op :: ·)
      match bsonTypeToEpPackType (bsonIteratorType i) with
      | none => none
      | some .bindata =>
        one (.binary key ((bsonIteratorBinData i).take (bsonIteratorBinLen i).toNat))
      | some .string => one (.string key (bsonIteratorString i))
      | some .bool => one (.bool key (bsonIteratorBoolRaw i))
      | some .int => one (.int key (bsonIteratorIntRaw i))
      | some .long => one (.long key (bsonIteratorLongRaw i))
      | some .double => one (.double key (bsonIteratorDoubleRaw i))
      | some .array => sub .array
      | some .object => sub .object

/-! ## The format -/

/-- Type, key and value bytes of a call that appends one whole element. -/
def PackOp.element : PackOp → Option (UInt8 × CString × List UInt8)
  | .binary name data => some (bsonBindata, name, leBytes 4 data.length ++ (bsonBinBinary :: data))
  | .string name data =>
    some (bsonString, name, leBytes 4 (data.bytes.length + 1) ++ (data.bytes ++ [0]))
  | .bool name value => some (bsonBool, name, [if value then 1 else 0])
  | .int name value => some (bsonInt, name, leBytes 4 value.toNat)
  | .long name value => some (bsonLong, name, leBytes 8 value.toNat)
  | .double name value => some (bsonDouble, name, leBytes 8 value.toNat)
  | .start _ _ => none
  | .finish _ => none

/-- The elements of a document and their bytes. -/
inductive Doc : List PackOp → List UInt8 → Prop
  | nil : Doc [] []
  | value {op : PackOp} {t : UInt8} {name : CString} {v bs : List UInt8} {ops : List PackOp}
      (he : op.element = some (t, name, v)) (h : Doc ops bs) :
      Doc (op :: ops) (estartBytes t name ++ (v ++ bs))
  | sub {kind : PackKind} {name : CString} {inner ops : List PackOp} {ib bs : List UInt8}
      (hi : Doc inner ib) (h : Doc ops bs) :
      Doc (.start kind name :: (inner ++ .finish kind :: ops))
        (estartBytes kind.type name ++ (leBytes 4 (ib.length + 5) ++ (ib ++ 0 :: bs)))

/-! ## Iterating over a document -/

section Iterate

variable (t : UInt8) (name : CString) (rest : List UInt8) (first : Bool)

@[simp] theorem bsonIteratorType_estart :
    bsonIteratorType ⟨estartBytes t name ++ rest, first⟩ = t := rfl

@[simp] theorem bsonIteratorKey_estart :
    bsonIteratorKey ⟨estartBytes t name ++ rest, first⟩ = name := by
  simp [bsonIteratorKey, estartBytes, CString.read_append]

@[simp] theorem bsonIteratorValue_estart :
    bsonIteratorValue ⟨estartBytes t name ++ rest, first⟩ = rest := by
  rw [bsonIteratorValue, bsonIteratorKey_estart]
  exact List.drop_left' (by simp [estartBytes]; omega)

theorem bsonIteratorIntRaw_estart {n : ℕ} (hn : n < 2 ^ 31) :
    (bsonIteratorIntRaw ⟨estartBytes t name ++ (leBytes 4 n ++ rest), first⟩).toInt = n := by
  have hlt : n < 256 ^ 4 := by omega
  rw [bsonIteratorIntRaw, bsonIteratorValue_estart, word_leBytes_append hlt,
    BitVec.toInt_eq_toNat_of_lt (by simp; omega)]
  simp; omega

end Iterate

/-- The iterator steps over exactly the bytes that the call appended. -/
theorem bsonValueSize_element {op : PackOp} {t : UInt8} {name : CString} {v : List UInt8}
    (he : op.element = some (t, name, v)) (hv : v.length < 2 ^ 31) (rest : List UInt8)
    (first : Bool) :
    t ≠ bsonEoo ∧ (bsonTypeToEpPackType t).isSome ∧
      bsonValueSize ⟨estartBytes t name ++ (v ++ rest), first⟩ = some (v.length : ℤ) := by
  cases op with
  | binary n data =>
    simp only [PackOp.element, Option.some.injEq, Prod.mk.injEq] at he
    obtain ⟨rfl, rfl, rfl⟩ := he
    simp only [List.length_append, length_leBytes, List.length_cons] at hv
    refine ⟨by decide, by decide, ?_⟩
    simp only [bsonValueSize, bsonIteratorType_estart, List.append_assoc,
      bsonIteratorIntRaw_estart _ _ _ _ (show data.length < 2 ^ 31 by omega)]
    simp [bsonBindata, bsonUndefined, bsonNull, bsonMinkey, bsonMaxkey, bsonBool, bsonInt, bsonLong,
      bsonDouble, bsonTimestamp, bsonDate, bsonOid, bsonString, bsonSymbol, bsonCode]
    omega
  | string n data =>
    simp only [PackOp.element, Option.some.injEq, Prod.mk.injEq] at he
    obtain ⟨rfl, rfl, rfl⟩ := he
    simp only [List.length_append, length_leBytes, List.length_singleton] at hv
    refine ⟨by decide, by decide, ?_⟩
    simp only [bsonValueSize, bsonIteratorType_estart, List.append_assoc,
      bsonIteratorIntRaw_estart _ _ _ _ (show data.bytes.length + 1 < 2 ^ 31 by omega)]
    simp [bsonUndefined, bsonNull, bsonMinkey, bsonMaxkey, bsonBool, bsonInt, bsonLong,
      bsonDouble, bsonTimestamp, bsonDate, bsonOid, bsonString]
  | bool n value | int n value | long n value | double n value =>
    simp only [PackOp.element, Option.some.injEq, Prod.mk.injEq] at he
    obtain ⟨rfl, rfl, rfl⟩ := he
    refine ⟨by decide, by decide, ?_⟩
    simp [bsonValueSize, bsonUndefined, bsonNull, bsonMinkey, bsonMaxkey, bsonBool, bsonInt,
      bsonLong, bsonDouble]
  | start kind n => simp [PackOp.element] at he
  | finish kind => simp [PackOp.element] at he

theorem bsonIteratorNext_step {t : UInt8} {name : CString} {v rest : List UInt8}
    (ht : t ≠ bsonEoo)
    (hs : bsonValueSize ⟨estartBytes t name ++ (v ++ rest), false⟩ = some (v.length : ℤ)) :
    bsonIteratorNext ⟨estartBytes t name ++ (v ++ rest), false⟩ =
      some (⟨rest, false⟩, rest.headD 0) := by
  simp only [bsonIteratorNext, Bool.false_eq_true, if_false, bsonIteratorType_estart, if_neg ht, hs,
    bsonIteratorValue_estart, Int.toNat_natCast, List.drop_left]
  rw [if_neg (by omega)]
  rfl

/-- The two accessors of a binary element; what follows it is reached by the pointer too. -/
theorem bsonIteratorBin_element (name : CString) {data : List UInt8} (hdata : data.length < 2 ^ 31)
    (rest : List UInt8) (first : Bool) :
    let i : BsonIterator := ⟨estartBytes bsonBindata name ++
      ((leBytes 4 data.length ++ bsonBinBinary :: data) ++ rest), first⟩
    bsonIteratorBinLen i = data.length ∧ bsonIteratorBinData i = data ++ rest := by
  have hdrop : (leBytes 4 data.length ++ 0 :: (data ++ rest)).drop 5 = data ++ rest := by
    rw [List.drop_append, List.drop_of_length_le (by simp)]
    simp
  simp [bsonIteratorBinLen, bsonIteratorBinData, bsonIteratorBinType,
    bsonIteratorIntRaw_estart _ _ _ _ hdata, bsonBinBinary, bsonBinBinaryOld,
    List.getD_eq_getElem?_getD, hdrop]

theorem epPackIteratorNext_element {op : PackOp} {t : UInt8} {name : CString}
    {v rest : List UInt8} (he : op.element = some (t, name, v)) (hv : v.length < 2 ^ 31)
    {i : BsonIterator}
    (hi : bsonIteratorNext i = some (⟨estartBytes t name ++ (v ++ rest), false⟩, t)) :
    epPackIteratorNext i = some (⟨estartBytes t name ++ (v ++ rest), false⟩, true) := by
  obtain ⟨-, hknown, -⟩ := bsonValueSize_element he hv rest false
  rw [epPackIteratorNext, hi]
  simp [hknown]

/-- What the walk makes of one whole element. -/
theorem packWalk_element {op : PackOp} {t : UInt8} {name : CString} {v rest : List UInt8}
    (he : op.element = some (t, name, v)) (hv : v.length < 2 ^ 31) {i : BsonIterator} {fuel : ℕ}
    (hi : bsonIteratorNext i = some (⟨estartBytes t name ++ (v ++ rest), false⟩, t)) :
    packWalk (fuel + 1) i =
      (packWalk fuel ⟨estartBytes t name ++ (v ++ rest), false⟩).map (op :: ·) := by
  rw [packWalk, epPackIteratorNext_element he hv hi]
  simp only [bsonIteratorType_estart, bsonIteratorKey_estart]
  cases op with
  | binary n data =>
    simp only [PackOp.element, Option.some.injEq, Prod.mk.injEq] at he
    obtain ⟨rfl, rfl, rfl⟩ := he
    simp only [List.length_append, length_leBytes, List.length_cons] at hv
    obtain ⟨hlen, hbin⟩ := bsonIteratorBin_element n (show data.length < 2 ^ 31 by omega) rest
      false
    simp only [bsonTypeToEpPackType, if_true, hlen, hbin, Int.toNat_natCast, List.take_left]
  | string n data =>
    simp only [PackOp.element, Option.some.injEq, Prod.mk.injEq] at he
    obtain ⟨rfl, rfl, rfl⟩ := he
    have hread : CString.read (List.drop 4 (leBytes 4 (data.bytes.length + 1) ++
        (data.bytes ++ [0]) ++ rest)) = data := by
      rw [List.append_assoc, List.drop_left' (length_leBytes _ _), List.append_assoc]
      exact data.read_append rest
    simp only [bsonTypeToEpPackType, bsonIteratorString, bsonIteratorType_estart,
      bsonIteratorValue_estart, true_or, if_true, hread]
    simp [bsonString, bsonBindata]
  | bool n value =>
    simp only [PackOp.element, Option.some.injEq, Prod.mk.injEq] at he
    obtain ⟨rfl, rfl, rfl⟩ := he
    cases value <;> simp [bsonTypeToEpPackType, bsonIteratorBoolRaw, bsonBool, bsonBindata, bsonString]
  | int n value =>
    simp only [PackOp.element, Option.some.injEq, Prod.mk.injEq] at he
    obtain ⟨rfl, rfl, rfl⟩ := he
    have hword := word_leBytes_append (show value.toNat < 256 ^ 4 from value.isLt) rest
    simp [bsonTypeToEpPackType, bsonIteratorIntRaw, hword, bsonInt, bsonBool, bsonBindata, bsonString]
  | long n value =>
    simp only [PackOp.element, Option.some.injEq, Prod.mk.injEq] at he
    obtain ⟨rfl, rfl, rfl⟩ := he
    have hword := word_leBytes_append (show value.toNat < 256 ^ 8 from value.isLt) rest
    simp [bsonTypeToEpPackType, bsonIteratorLongRaw, hword, bsonLong, bsonInt, bsonBool, bsonBindata,
      bsonString]
  | double n value =>
    simp only [PackOp.element, Option.some.injEq, Prod.mk.injEq] at he
    obtain ⟨rfl, rfl, rfl⟩ := he
    have hword := word_leBytes_append (show value.toNat < 256 ^ 8 from value.isLt) rest
    simp [bsonTypeToEpPackType, bsonIteratorDoubleRaw, hword, bsonDouble, bsonLong, bsonInt, bsonBool,
      bsonBindata, bsonString]
  | start kind n => simp [PackOp.element] at he
  | finish kind => simp [PackOp.element] at he

/-- The walk over a document finds its elements, whatever follows the document. -/
theorem packWalk_doc {ops : List PackOp} {bs : List UInt8} (h : Doc ops bs) {fuel : ℕ}
    (hfuel : ops.length < fuel) (hlen : bs.length + 5 < 2 ^ 31) {i : BsonIterator}
    {rest : List UInt8}
    (hi : bsonIteratorNext i = some (⟨bs ++ 0 :: rest, false⟩, (bs ++ 0 :: rest).headD 0)) :
    packWalk fuel i = some ops := by
  induction h generalizing fuel i rest with
  | nil =>
    obtain ⟨fuel, rfl⟩ : ∃ k, fuel = k + 1 := ⟨fuel - 1, by omega⟩
    simp [packWalk, epPackIteratorNext, hi, bsonTypeToEpPackType, bsonBindata, bsonString, bsonBool,
      bsonInt, bsonLong, bsonDouble, bsonArray, bsonObject]
  | @value op t name v bs ops he hdoc ih =>
    obtain ⟨fuel, rfl⟩ : ∃ k, fuel = k + 1 := ⟨fuel - 1, by omega⟩
    simp only [List.length_append, List.length_cons] at hlen hfuel
    have hv : v.length < 2 ^ 31 := by omega
    obtain ⟨ht, -, hsize⟩ := bsonValueSize_element he hv (bs ++ 0 :: rest) false
    simp only [List.append_assoc] at hi
    rw [packWalk_element he hv hi, ih (by omega) (by omega) (bsonIteratorNext_step ht hsize)]
    rfl
  | @sub kind name inner ops ib bs hinner hdoc ihi ih =>
    obtain ⟨fuel, rfl⟩ : ∃ k, fuel = k + 1 := ⟨fuel - 1, by omega⟩
    simp only [List.length_append, List.length_cons] at hlen hfuel
    -- the value of the element is the whole sub-document
    have hform : estartBytes kind.type name ++ (leBytes 4 (ib.length + 5) ++ (ib ++ 0 :: bs)) ++
        0 :: rest = estartBytes kind.type name ++
          ((leBytes 4 (ib.length + 5) ++ (ib ++ [0])) ++ (bs ++ 0 :: rest)) := by simp
    rw [hform] at hi
    have htype : kind.type ≠ bsonEoo := by cases kind <;> decide
    have hlen' : (leBytes 4 (ib.length + 5) ++ (ib ++ [0])).length = ib.length + 5 := by
      simp; omega
    have hsize : bsonValueSize ⟨estartBytes kind.type name ++
        ((leBytes 4 (ib.length + 5) ++ (ib ++ [0])) ++ (bs ++ 0 :: rest)), false⟩ =
          some ((leBytes 4 (ib.length + 5) ++ (ib ++ [0])).length : ℤ) := by
      rw [hlen']
      simp only [bsonValueSize, bsonIteratorType_estart, List.append_assoc,
        bsonIteratorIntRaw_estart _ _ _ _ (show ib.length + 5 < 2 ^ 31 by omega)]
      cases kind <;> simp [PackKind.type, bsonArray, bsonObject, bsonUndefined, bsonNull, bsonMinkey,
        bsonMaxkey, bsonBool, bsonInt, bsonLong, bsonDouble, bsonTimestamp, bsonDate, bsonOid,
        bsonString, bsonSymbol, bsonCode, bsonBindata]
    have hsub : bsonIteratorNext (epPackInteratorArray ⟨estartBytes kind.type name ++
        ((leBytes 4 (ib.length + 5) ++ (ib ++ [0])) ++ (bs ++ 0 :: rest)), false⟩) =
          some (⟨ib ++ 0 :: (bs ++ 0 :: rest), false⟩, (ib ++ 0 :: (bs ++ 0 :: rest)).headD 0) := by
      rw [epPackInteratorArray, bsonIteratorValue_estart, bsonIteratorFromBuffer, List.append_assoc,
        List.drop_left' (length_leBytes _ _)]
      simp [bsonIteratorNext, bsonIteratorType]
    have hnext : epPackIteratorNext i = some (⟨estartBytes kind.type name ++
        ((leBytes 4 (ib.length + 5) ++ (ib ++ [0])) ++ (bs ++ 0 :: rest)), false⟩, true) := by
      rw [epPackIteratorNext, hi]
      cases kind <;> rfl
    rw [packWalk, hnext]
    simp only [bsonIteratorType_estart, bsonIteratorKey_estart]
    rw [ihi (by omega) (by omega) hsub, ih (by omega) (by omega) (bsonIteratorNext_step htype hsize)]
    cases kind <;> rfl

/-! ## One call -/

/-- The room a call asks for. Opening a sub-document asks for its last byte too. -/
def PackOp.need (op : PackOp) : ℕ :=
  match op.element, op with
  | some (_, name, v), _ => 1 + (name.bytes.length + 1) + v.length
  | none, .start _ name => 1 + (name.bytes.length + 1) + 5
  | none, _ => 1

/-- The bytes a call adds to the document. -/
def PackOp.size (op : PackOp) : ℕ :=
  match op.element, op with
  | some (_, name, v), _ => 1 + (name.bytes.length + 1) + v.length
  | none, .start _ name => 1 + (name.bytes.length + 1) + 4
  | none, _ => 1

/-- The key is valid UTF-8. -/
def PackOp.KeyOk : PackOp → Prop
  | .binary name _ | .string name _ | .bool name _ | .int name _ | .long name _ | .double name _
  | .start _ name => ValidUtf8 name.bytes
  | .finish _ => True

/-- A string value is valid UTF-8. -/
def PackOp.ValueOk : PackOp → Prop
  | .string _ data => ValidUtf8 data.bytes
  | _ => True

instance : DecidablePred PackOp.KeyOk
  | .binary name _ | .string name _ | .bool name _ | .int name _ | .long name _ | .double name _
  | .start _ name => inferInstanceAs (Decidable (ValidUtf8 name.bytes))
  | .finish _ => .isTrue trivial

instance : DecidablePred PackOp.ValueOk
  | .string _ data => inferInstanceAs (Decidable (ValidUtf8 data.bytes))
  | .binary _ _ | .bool _ _ | .int _ _ | .long _ _ | .double _ _ | .start _ _ | .finish _ =>
    .isTrue trivial

theorem bsonAppendValue_spec {b : Bson} (h : b.Roomy) (t : UInt8) (name : CString)
    (v : List UInt8) :
    (∃ b', bsonAppendValue b t name v = (b', true) ∧ ValidUtf8 name.bytes ∧
      Grown b b' (1 + (name.bytes.length + 1) + v.length) ∧
      b'.data = b.data ++ (estartBytes t name ++ v) ∧ b'.stack = b.stack) ∨
    (∃ b', bsonAppendValue b t name v = (b', false) ∧ Refused b b' ∧
      ¬ (ValidUtf8 name.bytes ∧
        (bsonGrow b.data.length b.dataSize (1 + (name.bytes.length + 1) + v.length)).isSome)) := by
  unfold bsonAppendValue
  obtain ⟨b', hb', hvalid, hgrown, hdata, hstack⟩ | ⟨b', hb', hrefused, hwhy⟩ :=
    bsonAppendEstart_spec h t name v.length
  · rw [hb']
    exact .inl ⟨_, rfl, hvalid, ⟨hgrown.grow, hgrown.unfinished, hgrown.clean⟩,
      by simp [hdata], hstack⟩
  · rw [hb']
    exact .inr ⟨b', rfl, hrefused, hwhy⟩

/-- A whole element is appended exactly if there is room and its strings are valid. -/
theorem PackOp.apply_element {b : Bson} (h : b.Roomy) {op : PackOp} {t : UInt8} {name : CString}
    {v : List UInt8} (he : op.element = some (t, name, v)) :
    (∃ b', op.apply b = (b', true) ∧ op.KeyOk ∧ op.ValueOk ∧ Grown b b' op.need ∧
      b'.data = b.data ++ (estartBytes t name ++ v) ∧ b'.stack = b.stack) ∨
    (∃ b', op.apply b = (b', false) ∧ Refused b b' ∧
      ¬ (op.KeyOk ∧ op.ValueOk ∧ (bsonGrow b.data.length b.dataSize op.need).isSome)) := by
  have hneed : op.need = 1 + (name.bytes.length + 1) + v.length := by simp only [PackOp.need, he]
  rw [hneed]
  cases op with
  | string n data =>
    simp only [PackOp.element, Option.some.injEq, Prod.mk.injEq] at he
    obtain ⟨rfl, rfl, rfl⟩ := he
    simp only [PackOp.apply, PackOp.KeyOk, PackOp.ValueOk, bsonAppendString]
    by_cases hlong : data.bytes.length + 1 > int32Max
    · rw [if_pos hlong]
      refine .inr ⟨_, rfl, ⟨rfl, rfl, h.unfinished, h.room, h.size_le⟩, fun hc => ?_⟩
      obtain ⟨size, hsize⟩ := Option.isSome_iff_exists.mp hc.2.2
      obtain ⟨hroom, -, hle⟩ := bsonGrow_eq_some hsize h.room h.size_le
      simp only [List.length_append, List.length_singleton, length_leBytes] at hroom
      omega
    · rw [if_neg hlong]
      obtain ⟨hok, hclean⟩ := bsonCheckString_spec b.err data.bytes
      by_cases hvalid : ValidUtf8 data.bytes
      · rw [if_pos (hok.mpr hvalid)]
        have hroomy : ({ b with err := (bsonCheckString b.err data.bytes).1 } : Bson).Roomy :=
          ⟨h.unfinished, h.room, h.size_le⟩
        obtain ⟨b', hb', hkey, hgrown, hdata, hstack⟩ | ⟨b', hb', hrefused, hwhy⟩ :=
          bsonAppendValue_spec hroomy bsonString n
            (leBytes 4 (data.bytes.length + 1) ++ (data.bytes ++ [0]))
        · exact .inl ⟨b', hb', hkey, hvalid, ⟨hgrown.grow, hgrown.unfinished,
            fun hc => hgrown.clean (hclean hc (hok.mpr hvalid))⟩, hdata, hstack⟩
        · exact .inr ⟨b', hb', ⟨hrefused.data, hrefused.stack, hrefused.roomy⟩,
            fun hc => hwhy ⟨hc.1, hc.2.2⟩⟩
      · rw [if_neg fun hc => hvalid (hok.mp hc)]
        exact .inr ⟨_, rfl, ⟨rfl, rfl, h.unfinished, h.room, h.size_le⟩, fun hc => hvalid hc.2.1⟩
  | binary n data | bool n data | int n data | long n data | double n data =>
    simp only [PackOp.element, Option.some.injEq, Prod.mk.injEq] at he
    obtain ⟨rfl, rfl, rfl⟩ := he
    simpa only [PackOp.apply, PackOp.KeyOk, PackOp.ValueOk, true_and, bsonAppendBinary,
      bsonAppendBool, bsonAppendInt, bsonAppendLong, bsonAppendDouble] using
      bsonAppendValue_spec h _ n _
  | start kind n => simp [PackOp.element] at he
  | finish kind => simp [PackOp.element] at he

theorem PackOp.apply_start {b : Bson} (h : b.Roomy) (kind : PackKind) (name : CString) :
    (∃ b', (PackOp.start kind name).apply b = (b', true) ∧ (PackOp.start kind name).KeyOk ∧
      Grown b b' (PackOp.start kind name).need ∧
      b'.data = b.data ++ estartBytes kind.type name ++ leBytes 4 0 ∧
      b'.stack = (b.data ++ estartBytes kind.type name).length :: b.stack) ∨
    (∃ b', (PackOp.start kind name).apply b = (b', false) ∧ Refused b b' ∧
      ¬ ((PackOp.start kind name).KeyOk ∧
        (bsonGrow b.data.length b.dataSize (PackOp.start kind name).need).isSome)) := by
  have happly : (PackOp.start kind name).apply b = bsonAppendStart b kind.type name := by
    cases kind <;> rfl
  rw [happly]
  unfold bsonAppendStart
  obtain ⟨b', hb', hvalid, hgrown, hdata, hstack⟩ | ⟨b', hb', hrefused, hwhy⟩ :=
    bsonAppendEstart_spec h kind.type name 5
  · rw [hb']
    exact .inl ⟨_, rfl, hvalid, ⟨hgrown.grow, hgrown.unfinished, hgrown.clean⟩, by simp [hdata],
      by simp [hdata, hstack]⟩
  · rw [hb']
    exact .inr ⟨b', rfl, hrefused, hwhy⟩

/-- Closing the innermost sub-document needs room for one byte. -/
theorem PackOp.apply_finish {b : Bson} (h : b.Roomy) (kind : PackKind) {start : ℕ}
    {stack : List ℕ} (hs : b.stack = start :: stack) (hpos : 4 ≤ start) :
    (∃ b', (PackOp.finish kind).apply b = (b', true) ∧ Grown b b' 1 ∧
      b'.data = patch (b.data ++ [0]) start (b.data.length + 1 - start) ∧ b'.stack = stack) ∨
    (∃ b', (PackOp.finish kind).apply b = (b', false) ∧ Refused b b' ∧
      ¬ (bsonGrow b.data.length b.dataSize 1).isSome) := by
  have happly : (PackOp.finish kind).apply b = bsonAppendFinishObject b := by cases kind <;> rfl
  rw [happly]
  simp only [bsonAppendFinishObject, hs]
  obtain ⟨size, hgrow, henough⟩ | ⟨hgrow, hfull⟩ := bsonEnsureSpace_spec b 1
  · obtain ⟨hroom, -, hle⟩ := bsonGrow_eq_some hgrow h.room h.size_le
    have hsmall : ¬ (b.data ++ [0]).length - start ≥ int32Max := by
      simp only [List.length_append, List.length_singleton]
      unfold int32Max at *
      omega
    simp only [henough, if_neg hsmall]
    exact .inl ⟨_, rfl, ⟨hgrow, h.unfinished, id⟩, by simp, rfl⟩
  · simp only [hfull]
    exact .inr ⟨_, rfl, ⟨rfl, by simp [hs], h.unfinished, h.room, h.size_le⟩, by simp [hgrow]⟩

/-! ## A document under construction -/

theorem Doc.append {ops ops' : List PackOp} {bs bs' : List UInt8} (h : Doc ops bs)
    (h' : Doc ops' bs') : Doc (ops ++ ops') (bs ++ bs') := by
  induction h with
  | nil => exact h'
  | value he _ ih =>
    rw [List.cons_append, List.append_assoc, List.append_assoc]
    exact .value he ih
  | sub hi _ _ ih =>
    simp only [List.cons_append, List.append_assoc]
    exact .sub hi ih

/-- The bytes so far, the positions and kinds of the open sub-documents, and the
calls that took effect. The size of an open sub-document is still zero. -/
inductive Open (junk : List UInt8) : List UInt8 → List ℕ → List PackKind → List PackOp → Prop
  | root {ops : List PackOp} {bs : List UInt8} (h : Doc ops bs) : Open junk (junk ++ bs) [] [] ops
  | sub {data bs : List UInt8} {stack : List ℕ} {ks : List PackKind} {pre ops : List PackOp}
      (kind : PackKind) (name : CString) (ho : Open junk data stack ks pre) (h : Doc ops bs) :
      Open junk (data ++ estartBytes kind.type name ++ (leBytes 4 0 ++ bs))
        ((data ++ estartBytes kind.type name).length :: stack) (kind :: ks)
        (pre ++ .start kind name :: ops)

theorem length_patch {data : List UInt8} {pos n : ℕ} (h : pos + 4 ≤ data.length) :
    (patch data pos n).length = data.length := by
  simp [patch]; omega

section Open

variable {junk data bs : List UInt8} {stack : List ℕ} {ks : List PackKind} {pre ops : List PackOp}

theorem Open.append (ho : Open junk data stack ks pre) (h : Doc ops bs) :
    Open junk (data ++ bs) stack ks (pre ++ ops) := by
  cases ho with
  | root h₀ =>
    rw [List.append_assoc]
    exact .root (h₀.append h)
  | @sub data bs₀ stack ks pre ops₀ kind name ho h₀ =>
    have hsub := Open.sub kind name ho (h₀.append h)
    simpa only [List.append_assoc, List.cons_append] using hsub

theorem Open.junk_le (ho : Open junk data stack ks pre) : junk.length ≤ data.length := by
  induction ho with
  | root h => simp
  | sub kind name ho h ih => simp; omega

theorem Open.length_kinds (ho : Open junk data stack ks pre) : ks.length = stack.length := by
  induction ho with
  | root h => rfl
  | sub kind name ho h ih => simp [ih]

/-- The size field of an open sub-document lies inside the document. -/
theorem Open.start_bounds {start : ℕ} (ho : Open junk data (start :: stack) ks pre) :
    junk.length ≤ start ∧ start + 4 ≤ data.length := by
  cases ho with
  | sub kind name ho h =>
    have := ho.junk_le
    simp; omega

/-- Filling in the size turns an open sub-document into an element. -/
theorem Open.finish {start : ℕ} (ho : Open junk data (start :: stack) ks pre) :
    ∃ kind ks', ks = kind :: ks' ∧
      Open junk (patch (data ++ [0]) start (data.length + 1 - start)) stack ks'
        (pre ++ [.finish kind]) := by
  cases ho with
  | @sub data bs stack ks pre ops kind name ho h =>
    refine ⟨kind, ks, rfl, ?_⟩
    generalize hE : data ++ estartBytes kind.type name = front at *
    have hlen : (front ++ (leBytes 4 0 ++ bs)).length + 1 - front.length = bs.length + 5 := by
      simp; omega
    have hpatch : patch (front ++ (leBytes 4 0 ++ bs) ++ [0]) front.length (bs.length + 5) =
        front ++ (leBytes 4 (bs.length + 5) ++ (bs ++ [0])) := by
      simp only [patch, List.append_assoc, List.take_left, ← List.drop_drop, List.drop_left]
      rw [List.drop_left' (length_leBytes 4 0)]
    rw [hlen, hpatch, ← hE, List.append_assoc, List.append_assoc, List.cons_append]
    exact ho.append (Doc.sub h .nil)

end Open

/-- A builder whose calls so far that took effect are `pre`. -/
structure Building (junk : List UInt8) (b : Bson) (ks : List PackKind) (pre : List PackOp) :
    Prop where
  doc : Open junk b.data b.stack ks pre
  roomy : b.Roomy

/-- The open sub-documents after a call, if it fits where it stands. -/
def nestStep (ks : List PackKind) : PackOp → Option (List PackKind)
  | .start kind _ => some (kind :: ks)
  | .finish kind =>
    match ks with
    | [] => none
    | k :: ks => if kind = k then some ks else none
  | _ => some ks

def nest : List PackKind → List PackOp → Option (List PackKind)
  | ks, [] => some ks
  | ks, op :: ops => (nestStep ks op).bind fun ks => nest ks ops

/-- Every sub-document is finished, by the call of its own kind. -/
def WellNested (ops : List PackOp) : Prop := nest [] ops = some []

instance (ops : List PackOp) : Decidable (WellNested ops) := inferInstanceAs (Decidable (_ = _))

theorem Grown.roomy {b b' : Bson} {need : ℕ} (h : Grown b b' need) (hb : b.Roomy)
    (hlen : b'.data.length ≤ b.data.length + need) : b'.Roomy := by
  obtain ⟨hroom, -, hle⟩ := bsonGrow_eq_some h.grow hb.room hb.size_le
  exact ⟨h.unfinished, by omega, hle⟩

/-- A call took effect, as itself if it fits where it stands. -/
structure TookEffect (junk : List UInt8) (b b' : Bson) (ks : List PackKind) (pre : List PackOp)
    (op op' : PackOp) (ks' : List PackKind) : Prop where
  building : Building junk b' ks' (pre ++ [op'])
  grown : Grown b b' op.need
  length : b'.data.length = b.data.length + op.size
  keyOk : op.KeyOk
  valueOk : op.ValueOk
  nested : ∀ ks'', nestStep ks op = some ks'' → op' = op ∧ ks' = ks''

/-- A call takes effect, or it is refused and the document stays as it is. -/
def PackOp.Outcome (junk : List UInt8) (b : Bson) (ks : List PackKind) (pre : List PackOp)
    (op : PackOp) : Prop :=
  (∃ b' op' ks', op.apply b = (b', true) ∧ TookEffect junk b b' ks pre op op' ks') ∨
  (∃ b', op.apply b = (b', false) ∧ Building junk b' ks pre ∧
    (op.KeyOk → op.ValueOk → (nestStep ks op).isSome →
      bsonGrow b.data.length b.dataSize op.need = none))

section Outcome

variable {junk : List UInt8} {b : Bson} {ks : List PackKind} {pre : List PackOp}
  (h : Building junk b ks pre)

include h

theorem Building.refused {b' : Bson} (hrefused : Refused b b') : Building junk b' ks pre := by
  refine ⟨?_, hrefused.roomy⟩
  rw [hrefused.data, hrefused.stack]
  exact h.doc

theorem Building.outcome_value {op : PackOp} {t : UInt8} {name : CString} {v : List UInt8}
    (he : op.element = some (t, name, v)) : op.Outcome junk b ks pre := by
  have hstep : nestStep ks op = some ks := by cases op <;> simp_all [PackOp.element, nestStep]
  have hsize : op.size = op.need := by simp only [PackOp.size, PackOp.need, he]
  have hneed : op.need = (estartBytes t name ++ v).length := by
    simp only [PackOp.need, he, estartBytes, List.length_append, List.length_cons,
      List.length_nil]
    omega
  obtain ⟨b', hb', hkey, hvalue, hgrown, hdata, hstack⟩ | ⟨b', hb', hrefused, hwhy⟩ :=
    PackOp.apply_element h.roomy he
  · have hdoc := h.doc.append (Doc.value he .nil)
    rw [List.append_nil, ← hdata, ← hstack] at hdoc
    have hlen : b'.data.length = b.data.length + op.size := by
      rw [hdata, List.length_append, hsize, hneed]
    refine .inl ⟨b', op, ks, hb', ⟨hdoc, hgrown.roomy h.roomy (by omega)⟩, hgrown, hlen, hkey,
      hvalue, fun ks'' hks => ⟨rfl, ?_⟩⟩
    rw [hstep] at hks
    exact Option.some.inj hks
  · refine .inr ⟨b', hb', h.refused hrefused, fun hkey hvalue _ => ?_⟩
    by_contra hg
    exact hwhy ⟨hkey, hvalue, Option.isSome_iff_ne_none.mpr hg⟩

theorem Building.outcome_start (kind : PackKind) (name : CString) :
    (PackOp.start kind name).Outcome junk b ks pre := by
  obtain ⟨b', hb', hkey, hgrown, hdata, hstack⟩ | ⟨b', hb', hrefused, hwhy⟩ :=
    PackOp.apply_start h.roomy kind name
  · have hdoc : Open junk b'.data b'.stack (kind :: ks) (pre ++ [.start kind name]) := by
      rw [hdata, hstack]
      simpa using Open.sub kind name h.doc .nil
    have hlen : b'.data.length = b.data.length + (PackOp.start kind name).size := by
      rw [hdata]
      simp [PackOp.size, PackOp.element, estartBytes]
      omega
    refine .inl ⟨b', _, _, hb', ⟨hdoc, hgrown.roomy h.roomy ?_⟩, hgrown, hlen, hkey, trivial,
      fun ks'' hks => ⟨rfl, Option.some.inj hks⟩⟩
    rw [hlen]
    simp only [PackOp.size, PackOp.need, PackOp.element]
    omega
  · refine .inr ⟨b', hb', h.refused hrefused, fun hkey _ _ => ?_⟩
    by_contra hg
    exact hwhy ⟨hkey, Option.isSome_iff_ne_none.mpr hg⟩

/-- Nothing is open: the call only sets an error bit. -/
theorem Building.outcome_finish_nil (kind : PackKind) (hstack : b.stack = []) :
    (PackOp.finish kind).Outcome junk b ks pre := by
  have happly : (PackOp.finish kind).apply b = ({ b with err := bsonNotInSubobject }, false) := by
    cases kind <;> simp [PackOp.apply, bsonAppendFinishArray, bsonAppendFinishObject, hstack]
  have hks : ks = [] := by
    have := h.doc.length_kinds
    rw [hstack] at this
    exact List.eq_nil_of_length_eq_zero this
  refine .inr ⟨_, happly, ⟨h.doc, h.roomy.unfinished, h.roomy.room, h.roomy.size_le⟩, ?_⟩
  simp [nestStep, hks]

/-- The sub-document that is closed has the kind of its start, whatever kind the call names. -/
theorem Building.finish_cons (hj : junk.length = 4) (kind : PackKind) {start : ℕ}
    {stack : List ℕ} (hstack : b.stack = start :: stack) :
    ∃ k ks', ks = k :: ks' ∧
      ((∃ b', (PackOp.finish kind).apply b = (b', true) ∧
          Building junk b' ks' (pre ++ [.finish k]) ∧ Grown b b' 1 ∧
          b'.data.length = b.data.length + 1) ∨
        ∃ b', (PackOp.finish kind).apply b = (b', false) ∧ Building junk b' ks pre ∧
          bsonGrow b.data.length b.dataSize 1 = none) := by
  have hdoc := h.doc
  rw [hstack] at hdoc
  have hstart := hdoc.start_bounds
  obtain ⟨k, ks', hks, hdone⟩ := hdoc.finish
  refine ⟨k, ks', hks, ?_⟩
  obtain ⟨b', hb', hgrown, hdata, hstack'⟩ | ⟨b', hb', hrefused, hwhy⟩ :=
    PackOp.apply_finish h.roomy kind hstack (by omega)
  · have hlen : b'.data.length = b.data.length + 1 := by
      rw [hdata, length_patch (by simp; omega), List.length_append, List.length_singleton]
    exact .inl ⟨b', hb', ⟨by rw [hdata, hstack']; exact hdone, hgrown.roomy h.roomy (by omega)⟩,
      hgrown, hlen⟩
  · refine .inr ⟨b', hb', h.refused hrefused, ?_⟩
    by_contra hg
    exact hwhy (Option.isSome_iff_ne_none.mpr hg)

theorem Building.outcome_finish_cons (hj : junk.length = 4) (kind : PackKind) {start : ℕ}
    {stack : List ℕ} (hstack : b.stack = start :: stack) :
    (PackOp.finish kind).Outcome junk b ks pre := by
  obtain ⟨k, ks', rfl, ⟨b', hb', hbuild, hgrown, hlen⟩ | ⟨b', hb', hbuild, hfull⟩⟩ :=
    h.finish_cons hj kind hstack
  · refine .inl ⟨b', _, _, hb', hbuild, hgrown, hlen, trivial, trivial, fun ks'' hks => ?_⟩
    simp only [nestStep] at hks
    split_ifs at hks with hk
    exact ⟨by rw [hk], Option.some.inj hks⟩
  · exact .inr ⟨b', hb', hbuild, fun _ _ _ => hfull⟩

theorem Building.outcome (hj : junk.length = 4) (op : PackOp) : op.Outcome junk b ks pre := by
  cases he : op.element with
  | some e => exact h.outcome_value he
  | none =>
    cases op with
    | start kind name => exact h.outcome_start kind name
    | finish kind =>
      cases hstack : b.stack with
      | nil => exact h.outcome_finish_nil kind hstack
      | cons start stack => exact h.outcome_finish_cons hj kind hstack
    | _ => simp [PackOp.element] at he

end Outcome

/-! ## All calls -/

/-- Every call returned `BSON_OK`. -/
def AllOk : Bson → List PackOp → Prop
  | _, [] => True
  | b, op :: ops => (op.apply b).2 = true ∧ AllOk (op.apply b).1 ops

/-- The size of the area after the calls, from the lengths alone. -/
def growAll : ℕ → ℕ → List PackOp → Option ℕ
  | _, dataSize, [] => some dataSize
  | pos, dataSize, op :: ops =>
    (bsonGrow pos dataSize op.need).bind fun size => growAll (pos + op.size) size ops

def packBytes (ops : List PackOp) : ℕ := (ops.map PackOp.size).sum

/-- The total size of the finished document. -/
def packTotal (ops : List PackOp) : ℕ := 4 + packBytes ops + 1

/-- The area can grow to hold the document, and its size is below the limit that
`bson_finish` checks. -/
def Fits (ops : List PackOp) : Prop :=
  ∃ size, growAll 4 128 ops = some size ∧ (bsonGrow (4 + packBytes ops) size 1).isSome ∧
    packTotal ops < int32Max

section Run

variable {junk : List UInt8} (hj : junk.length = 4) {b : Bson} {ks : List PackKind}
  {pre : List PackOp}

include hj

/-- Whatever fails, the calls that took effect make up the document. -/
theorem packAppend_spec (ops : List PackOp) (h : Building junk b ks pre) :
    ∃ ks' eff, Building junk (packAppend b ops) ks' (pre ++ eff) ∧ eff.length ≤ ops.length ∧
      (eff.length = ops.length → AllOk b ops) := by
  induction ops generalizing b ks pre with
  | nil => exact ⟨ks, [], by rw [List.append_nil]; exact h, le_rfl, fun _ => trivial⟩
  | cons op ops ih =>
    obtain ⟨b', op', ks₁, hb', htook⟩ | ⟨b', hb', hbuild, -⟩ := h.outcome hj op
    · obtain ⟨ks', eff, hrun, hle, hall⟩ := ih htook.building
      refine ⟨ks', op' :: eff, ?_, by simpa using hle, fun hlen => ?_⟩
      · simpa [packAppend, hb'] using hrun
      · refine ⟨by rw [hb'], ?_⟩
        rw [hb']
        exact hall (by simpa using hlen)
    · obtain ⟨ks', eff, hrun, hle, -⟩ := ih hbuild
      refine ⟨ks', eff, by simpa [packAppend, hb'] using hrun, ?_, fun hlen => ?_⟩
      · exact hle.trans (by simp)
      · rw [List.length_cons] at hlen
        omega

/-- What well-nested calls leave behind when all succeed. -/
structure Appended (junk : List UInt8) (b b' : Bson) (ks' : List PackKind) (pre ops : List PackOp) :
    Prop where
  building : Building junk b' ks' (pre ++ ops)
  length : b'.data.length = b.data.length + packBytes ops
  clean : Clean b.err → Clean b'.err
  keyOk : ∀ op ∈ ops, op.KeyOk
  grow : growAll b.data.length b.dataSize ops = some b'.dataSize

theorem packAppend_allOk {ops : List PackOp} {ks' : List PackKind} (h : Building junk b ks pre)
    (hok : AllOk b ops) (hn : nest ks ops = some ks') :
    Appended junk b (packAppend b ops) ks' pre ops := by
  induction ops generalizing b ks pre with
  | nil =>
    obtain rfl : ks = ks' := by simpa [nest] using hn
    exact ⟨by simpa [packAppend] using h, rfl, id, by simp, rfl⟩
  | cons op ops ih =>
    obtain ⟨hfirst, hrest⟩ := hok
    obtain ⟨ks₁, hstep, hn⟩ := Option.bind_eq_some_iff.mp hn
    obtain ⟨b', op', ks₂, hb', htook⟩ | ⟨b', hb', -, -⟩ := h.outcome hj op
    · obtain ⟨rfl, rfl⟩ := htook.nested _ hstep
      rw [hb'] at hrest
      have hspec := ih htook.building hrest hn
      have hcons : packAppend b (op' :: ops) = packAppend b' ops := by simp [packAppend, hb']
      rw [hcons]
      refine ⟨by simpa using hspec.building, ?_, fun hc => hspec.clean (htook.grown.clean hc), ?_, ?_⟩
      · rw [hspec.length, htook.length]
        simp [packBytes]; omega
      · simp only [List.mem_cons, forall_eq_or_imp]
        exact ⟨htook.keyOk, hspec.keyOk⟩
      · rw [growAll, htook.grown.grow, Option.bind_some, ← htook.length, hspec.grow]
    · rw [hb'] at hfirst
      cases hfirst

/-- Valid keys and strings, nesting and room are all that the calls need. -/
theorem allOk_of_fits {ops : List PackOp} {ks' : List PackKind} {size : ℕ}
    (h : Building junk b ks pre) (hkeys : ∀ op ∈ ops, op.KeyOk) (hvalues : ∀ op ∈ ops, op.ValueOk)
    (hn : nest ks ops = some ks') (hg : growAll b.data.length b.dataSize ops = some size) :
    AllOk b ops := by
  induction ops generalizing b ks pre with
  | nil => trivial
  | cons op ops ih =>
    simp only [List.mem_cons, forall_eq_or_imp] at hkeys hvalues
    obtain ⟨ks₁, hstep, hn⟩ := Option.bind_eq_some_iff.mp hn
    obtain ⟨size₁, hgrow, hg⟩ := Option.bind_eq_some_iff.mp hg
    obtain ⟨b', op', ks₂, hb', htook⟩ | ⟨b', hb', -, hwhy⟩ := h.outcome hj op
    · obtain ⟨rfl, rfl⟩ := htook.nested _ hstep
      have hsize := htook.grown.grow
      rw [hgrow] at hsize
      obtain rfl := Option.some.inj hsize
      refine ⟨by rw [hb'], ?_⟩
      rw [hb']
      refine ih htook.building hkeys.2 hvalues.2 hn ?_
      rw [htook.length]
      exact hg
    · rw [hwhy hkeys.1 hvalues.1 (by rw [hstep]; rfl)] at hgrow
      cases hgrow

end Run

/-! ## Round trip -/

/-- Whatever the unwritten size bytes held, the packet is accepted by
`ep_pack_create` and an iteration over the copy finds exactly the calls. -/
def RoundTrips (ops : List PackOp) : Prop :=
  ∀ junk : List UInt8, junk.length = 4 →
    ∃ b p, epPackFinish junk ops = some b ∧
      epPackCreate (epPackData b) (epPackSize b) = some (some p) ∧
      packWalk (p.data.length + 1) (epPackIteratorGet p) = some ops

theorem Open.junk_prefix {junk data : List UInt8} {stack : List ℕ} {ks : List PackKind}
    {pre : List PackOp} (h : Open junk data stack ks pre) : junk <+: data := by
  induction h with
  | root h => exact List.prefix_append _ _
  | sub kind name ho h ih =>
    rw [List.append_assoc]
    exact ih.trans (List.prefix_append _ _)

theorem bsonInit_building {junk : List UInt8} (hj : junk.length = 4) :
    Building junk (bsonInit junk) [] [] := by
  refine ⟨?_, rfl, ?_, by simp [bsonInit, int32Max]⟩
  · have h : bsonInit junk = ⟨junk, 128, [], 0, false⟩ := by
      simp [bsonInit, List.take_of_length_le hj.le]
    rw [h]
    simpa using Open.root Doc.nil
  · simp [bsonInit]

theorem Doc.length_le {ops : List PackOp} {bs : List UInt8} (h : Doc ops bs) :
    ops.length ≤ bs.length := by
  induction h with
  | nil => simp
  | value he _ ih => simp [estartBytes]; omega
  | sub hi _ ihi ih => simp [estartBytes]; omega

/-- What `ep_pack_create` makes of a finished document: the check on the first
byte is a check on the size modulo 256. -/
theorem epPackCreate_finished {ops : List PackOp} {bs : List UInt8} (h : Doc ops bs)
    (hlen : bs.length + 5 < int32Max) {b : Bson}
    (hdata : b.data = leBytes 4 (bs.length + 5) ++ (bs ++ [0])) :
    ((bs.length + 5) % 256 = 0 → epPackCreate (epPackData b) (epPackSize b) = some none) ∧
    ((bs.length + 5) % 256 ≠ 0 → ∃ p, epPackCreate (epPackData b) (epPackSize b) = some (some p) ∧
      packWalk (p.data.length + 1) (epPackIteratorGet p) = some ops) := by
  unfold int32Max at hlen
  have hfirst : b.data.headD 0 = 0 ↔ (bs.length + 5) % 256 = 0 := by
    rw [hdata]
    simp [leBytes, ← UInt8.toNat_inj]
  have hsize : (BitVec.ofNat 32 (word 4 b.data)).toInt = ((bs.length + 5 : ℕ) : ℤ) := by
    rw [hdata, word_leBytes_append (by omega), BitVec.toInt_eq_toNat_of_lt (by simp; omega)]
    simp; omega
  constructor
  · intro hz
    simp only [epPackCreate, epPackData, hfirst.mpr hz, ne_eq, not_true, false_and, if_false]
  · intro hnz
    have hhead : b.data.headD 0 ≠ 0 := fun hc => hnz (hfirst.mp hc)
    have htake : b.data.take (bs.length + 5) = b.data := by
      apply List.take_of_length_le
      rw [hdata]; simp; omega
    refine ⟨⟨b.data, bs.length + 5, [], 0, true⟩, ?_, ?_⟩
    · simp only [epPackCreate, epPackData, epPackSize, hsize, Int.toNat_natCast, htake]
      rw [if_pos ⟨hhead, by omega⟩, if_neg (by omega)]
    · have hbuffer : epPackIteratorGet ⟨b.data, bs.length + 5, [], 0, true⟩ =
          ⟨bs ++ 0 :: [], true⟩ := by
        simp only [epPackIteratorGet, bsonIteratorFromBuffer, hdata]
        rw [List.drop_left' (length_leBytes _ _)]
      have hops := h.length_le
      have hnext : bsonIteratorNext ⟨bs ++ 0 :: [], true⟩ =
          some (⟨bs ++ 0 :: [], false⟩, (bs ++ 0 :: []).headD 0) := rfl
      rw [hbuffer]
      refine packWalk_doc h ?_ (by omega) hnext
      rw [hdata]; simp; omega

/-- The document that `bson_finish` leaves when nothing is open. -/
theorem bsonFinish_eq {junk : List UInt8} (hj : junk.length = 4) {b : Bson} {ks : List PackKind}
    {ops : List PackOp} (h : Building junk b ks ops) (hclean : Clean b.err) (hstack : b.stack = [])
    {size : ℕ} (hgrow : bsonGrow b.data.length b.dataSize 1 = some size)
    (hlen : b.data.length + 1 < int32Max) :
    ∃ b' bs, bsonFinish b = some (b', true) ∧ Doc ops bs ∧ bs.length + 4 = b.data.length ∧
      b'.data = leBytes 4 (bs.length + 5) ++ (bs ++ [0]) := by
  have hdoc := h.doc
  rw [hstack] at hdoc
  generalize hd : b.data = data at hdoc
  cases hdoc with
  | @root _ bs hbs =>
    have hpatch : patch (b.data ++ [0]) 0 (b.data ++ [0]).length =
        leBytes 4 (bs.length + 5) ++ (bs ++ [0]) := by
      have hcount : (junk ++ bs ++ [0]).length = bs.length + 5 := by simp; omega
      rw [hd, hcount, List.append_assoc]
      simp only [patch, List.take_zero, List.nil_append, Nat.zero_add]
      rw [List.drop_left' hj]
    have hensure : bsonEnsureSpace b 1 = ({ b with dataSize := size }, true) := by
      simp only [bsonEnsureSpace, hgrow]
    have hsmall : ¬ (b.data ++ [0]).length ≥ int32Max := by
      rw [List.length_append, List.length_singleton]; omega
    refine ⟨{ b with dataSize := size, data := patch (b.data ++ [0]) 0 (b.data ++ [0]).length,
                     finished := true }, bs, ?_, hbs, by simp; omega, hpatch⟩
    unfold Clean at hclean
    simp only [bsonFinish, hclean, ne_eq, not_true, if_false, h.roomy.unfinished,
      Bool.false_eq_true, hstack, hensure, if_neg hsmall]

/-- A document that `bson_finish` did not finish keeps its unwritten size. -/
theorem epPackCreate_unfinished {b : Bson} (h : [0, 0, 0, 0] <+: b.data) :
    epPackCreate (epPackData b) (epPackSize b) = some none := by
  obtain ⟨rest, hrest⟩ := h
  simp [epPackCreate, epPackData, ← hrest]

/-- What can be said when a packet round trips from zero bytes: `bson_finish`
wrote the size. -/
theorem bsonFinish_of_create {b b' p : Bson} {ok : Bool} {ks : List PackKind}
    {ops : List PackOp} (h : Building [0, 0, 0, 0] b ks ops)
    (hfinish : bsonFinish b = some (b', ok))
    (hcreate : epPackCreate (epPackData b') (epPackSize b') = some (some p)) :
    Clean b.err ∧ b.stack = [] ∧ (bsonGrow b.data.length b.dataSize 1).isSome ∧
      b.data.length + 1 < int32Max := by
  have hjunk := h.doc.junk_prefix
  have hkept : ∀ {c : Bson}, [0, 0, 0, 0] <+: c.data → some (c, false) = some (b', ok) → False := by
    rintro c hc heq
    obtain ⟨rfl, -⟩ := Prod.mk.inj (Option.some.inj heq)
    rw [epPackCreate_unfinished hc] at hcreate
    cases hcreate
  by_cases hclean : Clean b.err
  · by_cases hstack : b.stack = []
    · obtain ⟨size, hgrow, henough⟩ | ⟨hgrow, hfull⟩ := bsonEnsureSpace_spec b 1
      · refine ⟨hclean, hstack, by rw [hgrow]; rfl, ?_⟩
        by_contra hbig
        have hbig' : (b.data ++ [0]).length ≥ int32Max := by
          rw [List.length_append, List.length_singleton]; omega
        unfold Clean at hclean
        simp only [bsonFinish, hclean, ne_eq, not_true, if_false, h.roomy.unfinished,
          Bool.false_eq_true, hstack, henough, if_pos hbig'] at hfinish
        exact hkept (hjunk.trans (List.prefix_append _ _)) hfinish
      · unfold Clean at hclean
        simp only [bsonFinish, hclean, ne_eq, not_true, if_false, h.roomy.unfinished,
          Bool.false_eq_true, hstack, hfull] at hfinish
        exact (hkept (c := ⟨b.data, b.dataSize, [], _, _⟩) hjunk hfinish).elim
    · unfold Clean at hclean
      simp only [bsonFinish, hclean, ne_eq, not_true, if_false, h.roomy.unfinished,
        Bool.false_eq_true, hstack, not_false_eq_true, if_true] at hfinish
      cases hfinish
  · unfold Clean at hclean
    simp only [bsonFinish, ne_eq, hclean, not_false_eq_true, if_true] at hfinish
    exact (hkept hjunk hfinish).elim

/-- A packet that survives from zero bytes was appended completely. -/
theorem RoundTrips.fits {ops : List PackOp} (hn : WellNested ops) (h : RoundTrips ops) :
    (∀ op ∈ ops, op.KeyOk) ∧ Fits ops ∧ packTotal ops % 256 ≠ 0 := by
  have hj : ([0, 0, 0, 0] : List UInt8).length = 4 := rfl
  obtain ⟨b', p, hfin, hcreate, hwalk⟩ := h _ hj
  obtain ⟨⟨c, ok⟩, hfinish, rfl⟩ := Option.map_eq_some_iff.mp hfin
  obtain ⟨ks, eff, hbuild, hle, hall⟩ := packAppend_spec hj ops (bsonInit_building hj)
  obtain ⟨hclean, hstack, hgrow, hlen⟩ := bsonFinish_of_create hbuild hfinish hcreate
  obtain ⟨size, hsize⟩ := Option.isSome_iff_exists.mp hgrow
  obtain ⟨c', bs, hc', hdoc, hbs, hdata⟩ := bsonFinish_eq hj hbuild hclean hstack hsize hlen
  rw [hfinish] at hc'
  obtain ⟨rfl, rfl⟩ := Prod.mk.inj (Option.some.inj hc')
  obtain ⟨hzero, hnonzero⟩ := epPackCreate_finished hdoc (by omega) hdata
  have hmod : (bs.length + 5) % 256 ≠ 0 := by
    intro hz
    rw [hzero hz] at hcreate
    cases hcreate
  -- the walk finds the calls that took effect, so all of them did
  obtain ⟨p', hp', hwalk'⟩ := hnonzero hmod
  rw [hcreate] at hp'
  obtain rfl := Option.some.inj (Option.some.inj hp')
  rw [hwalk] at hwalk'
  have heff : ops = eff := Option.some.inj hwalk'
  have happended := packAppend_allOk hj (bsonInit_building hj) (hall (by rw [← heff])) hn
  have hcount : (packAppend (bsonInit [0, 0, 0, 0]) ops).data.length = 4 + packBytes ops :=
    happended.length
  refine ⟨happended.keyOk, ⟨_, happended.grow, ?_, ?_⟩, ?_⟩
  · rw [← hcount]
    exact hgrow
  · rw [packTotal]; omega
  · rw [packTotal, ← hcount, ← hbs]
    exact hmod

/-- Calls that fit make a document of the size that their lengths add up to. -/
theorem epPackFinish_of_fits {ops : List PackOp} (hn : WellNested ops)
    (hkeys : ∀ op ∈ ops, op.KeyOk) (hvalues : ∀ op ∈ ops, op.ValueOk) (hfits : Fits ops)
    {junk : List UInt8} (hj : junk.length = 4) :
    ∃ b bs, epPackFinish junk ops = some b ∧ Doc ops bs ∧ bs.length + 5 = packTotal ops ∧
      b.data = leBytes 4 (bs.length + 5) ++ (bs ++ [0]) := by
  obtain ⟨size, hgrow, hlast, hlen⟩ := hfits
  have hstart := bsonInit_building hj
  have hlen₀ : (bsonInit junk).data.length = 4 := by simp [bsonInit, hj]
  have hgrow₀ : growAll (bsonInit junk).data.length (bsonInit junk).dataSize ops = some size := by
    rw [hlen₀]
    exact hgrow
  have hall := allOk_of_fits hj hstart hkeys hvalues hn hgrow₀
  have happended := packAppend_allOk hj hstart hall hn
  have hstack : (packAppend (bsonInit junk) ops).stack = [] :=
    List.eq_nil_of_length_eq_zero happended.building.doc.length_kinds.symm
  have hcount : (packAppend (bsonInit junk) ops).data.length = 4 + packBytes ops := by
    rw [happended.length, hlen₀]
  obtain rfl : size = (packAppend (bsonInit junk) ops).dataSize :=
    Option.some.inj (hgrow₀.symm.trans happended.grow)
  rw [← hcount] at hlast
  obtain ⟨size', hsize'⟩ := Option.isSome_iff_exists.mp hlast
  rw [packTotal] at hlen
  have hclean : Clean (bsonInit junk).err := by simp [Clean, bsonInit]
  obtain ⟨b', bs, hfinish, hdoc, hbs, hdata⟩ := bsonFinish_eq hj happended.building
    (happended.clean hclean) hstack hsize' (by omega)
  exact ⟨b', bs, by simp [epPackFinish, hfinish], hdoc, by rw [packTotal]; omega, hdata⟩

theorem roundTrips_of_fits {ops : List PackOp} (hn : WellNested ops)
    (hkeys : ∀ op ∈ ops, op.KeyOk) (hvalues : ∀ op ∈ ops, op.ValueOk) (hfits : Fits ops)
    (hmod : packTotal ops % 256 ≠ 0) : RoundTrips ops := by
  intro junk hj
  obtain ⟨b, bs, hfinish, hdoc, hbs, hdata⟩ := epPackFinish_of_fits hn hkeys hvalues hfits hj
  obtain ⟨size, -, -, hlen⟩ := hfits
  obtain ⟨p, hcreate, hwalk⟩ := (epPackCreate_finished hdoc (by omega) hdata).2 (by omega)
  exact ⟨b, p, hfinish, hcreate, hwalk⟩

/-- A packet survives exactly if its keys are valid, the library can hold it and
its total size is not a multiple of 256. -/
theorem roundTrips_iff {ops : List PackOp} (hn : WellNested ops)
    (hvalues : ∀ op ∈ ops, op.ValueOk) :
    RoundTrips ops ↔ (∀ op ∈ ops, op.KeyOk) ∧ Fits ops ∧ packTotal ops % 256 ≠ 0 := by
  refine ⟨fun h => h.fits hn, ?_⟩
  rintro ⟨hkeys, hfits, hmod⟩
  exact roundTrips_of_fits hn hkeys hvalues hfits hmod

/-- An object `o` with the string `hello` under the key `k`. -/
theorem roundTrips_iff_hello :
    RoundTrips [.start .object ⟨[0x6F], by simp⟩,
      .string ⟨[0x6B], by simp⟩ ⟨[0x68, 0x65, 0x6C, 0x6C, 0x6F], by simp⟩,
      .finish .object] :=
  (roundTrips_iff (by decide) (by decide)).mpr
    ⟨by decide, ⟨128, by decide, by decide, by decide⟩, by decide⟩

/-- Binary data of 243 bytes makes a document of 256 bytes, which is refused. -/
theorem not_roundTrips_256 :
    WellNested [.binary ⟨[0x6B], by simp⟩ (List.replicate 243 0)] ∧
      ¬ RoundTrips [.binary ⟨[0x6B], by simp⟩ (List.replicate 243 0)] := by
  refine ⟨by decide, fun h => (h.fits (by decide)).2.2 ?_⟩
  simp only [packTotal, packBytes, List.map_cons, List.map_nil, List.sum_cons, List.sum_nil,
    PackOp.size, PackOp.element, List.length_append, length_leBytes, List.length_cons,
    List.length_replicate, List.length_nil, Nat.reduceAdd, Nat.reduceMod]

end Youmenu.Eventpack
