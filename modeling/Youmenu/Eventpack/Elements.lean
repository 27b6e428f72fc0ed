import Youmenu.Eventpack.Packet

/-!
# The elements of a packet

An iterator shows a packet as a tree: the elements of a document in their order, and in a
sub-document again such a list. An element of an unknown type ends the iteration. The
elements stand for the calls that append them, and no two lists stand for the same calls.

## Main definitions

* `PackElem` — an element, with what is below it.
* `packElems` — the elements that an iteration finds.
* `elemsOps` — the calls that append the elements.
* `PackFits` — the elements that a packet can hold.
-/

namespace Youmenu.Eventpack

inductive PackElem where
  | binary (key : CString) (data : List UInt8)
  | string (key data : CString)
  | bool (key : CString) (value : Bool)
  | int (key : CString) (value : BitVec 32)
  | long (key : CString) (value : BitVec 64)
  | double (key : CString) (value : BitVec 64)
  | sub (kind : PackKind) (key : CString) (elems : List PackElem)

/-- The elements from an iterator on, at most `fuel` deep and long. -/
def packElems : ℕ → BsonIterator → Option (List PackElem)
  | 0, _ => none
  | fuel + 1, i =>
    match epPackIteratorNext i with
    | none => none
    | some (_, false) => some []
    | some (i, true) =>
      let key := bsonIteratorKey i
      let sub (kind : PackKind) : Option (List PackElem) := do
        let inner ← packElems fuel (epPackInteratorArray i)
        let rest ← packElems fuel i
        some (.sub kind key inner :: rest)
      let one (e : PackElem) : Option (List PackElem) := (packElems fuel i).map (e :: ·)
      match bsonTypeToEpPackType (bsonIteratorType i) with
      | none => none
      | some .bindata =>
        one (.binary key ((bsonIteratorBinData i).take (bsonIteratorBinLen i).toNat))
      | some .string => one (.string key (bsonIteratorString i))
      | some .bool => one (.bool key (bsonIteratorBoolRaw i))
      | some .int => one (.int key (bsonIteratorIntRaw i))
      | some .long => one (.long key (bsonIteratorLongRaw i))
      | some .double => one (.double key (bsonIteratorDoubleRaw i))
      | some .array => sub .array
      | some .object => sub .object

mutual

/-- The calls that append an element. -/
def PackElem.ops : PackElem → List PackOp
  | .binary key data => [.binary key data]
  | .string key data => [.string key data]
  | .bool key value => [.bool key value]
  | .int key value => [.int key value]
  | .long key value => [.long key value]
  | .double key value => [.double key value]
  | .sub kind key elems => .start kind key :: (elemsOps elems ++ [.finish kind])

def elemsOps : List PackElem → List PackOp
  | [] => []
  | e :: es => e.ops ++ elemsOps es

end

@[simp] theorem elemsOps_nil : elemsOps [] = [] := by rw [elemsOps]

@[simp] theorem elemsOps_cons (e : PackElem) (es : List PackElem) :
    elemsOps (e :: es) = e.ops ++ elemsOps es := by rw [elemsOps]

/-- A walk over all elements is the list of the calls that append them. -/
theorem packWalk_eq (fuel : ℕ) (i : BsonIterator) :
    packWalk fuel i = (packElems fuel i).map elemsOps := by
  induction fuel generalizing i with
  | zero => rfl
  | succ fuel ih =>
    rw [packWalk, packElems]
    rcases epPackIteratorNext i with - | ⟨i, _ | _⟩
    · rfl
    · rfl
    · have hone : ∀ e : PackElem, ∀ op, e.ops = [op] →
          (packWalk fuel i).map (op :: ·) = ((packElems fuel i).map (e :: ·)).map elemsOps := by
        intro e op he
        rw [ih, Option.map_map, Option.map_map]
        simp [Function.comp_def, he]
      have hsub : ∀ kind key, (do
            let inner ← packWalk fuel (epPackInteratorArray i)
            let rest ← packWalk fuel i
            some (PackOp.start kind key :: (inner ++ .finish kind :: rest))) =
          (do
            let inner ← packElems fuel (epPackInteratorArray i)
            let rest ← packElems fuel i
            some (PackElem.sub kind key inner :: rest)).map elemsOps := by
        intro kind key
        rw [ih, ih]
        cases packElems fuel (epPackInteratorArray i) <;> cases packElems fuel i <;>
          simp [PackElem.ops]
      simp only
      rcases bsonTypeToEpPackType (bsonIteratorType i) with - | type
      · rfl
      · cases type with
        | array | object => exact hsub _ _
        | _ => exact hone _ _ (by rw [PackElem.ops])

/-- The calls do not go on inside the same document. -/
def Ends : List PackOp → Prop
  | [] => True
  | .finish _ :: _ => True
  | _ => False

theorem ends_nil : Ends [] := trivial

theorem ends_finish (kind : PackKind) (ops : List PackOp) : Ends (.finish kind :: ops) := trivial

theorem not_ends_ops (e : PackElem) (ops : List PackOp) : ¬ Ends (e.ops ++ ops) := by
  cases e <;> simp [PackElem.ops, Ends]

/-- The calls of a document and what follows it tell its elements. The induction is on the
size of the elements, since it goes on with the rest and with what is below the first. -/
theorem elemsOps_append_inj {n : ℕ} {es es' : List PackElem} (hn : sizeOf es ≤ n)
    {rest rest' : List PackOp} (hrest : Ends rest) (hrest' : Ends rest')
    (h : elemsOps es ++ rest = elemsOps es' ++ rest') : es = es' ∧ rest = rest' := by
  induction n generalizing es es' rest rest' with
  | zero => cases es <;> simp at hn
  | succ n ih =>
    rcases es with - | ⟨e, es⟩ <;> rcases es' with - | ⟨e', es'⟩
    · exact ⟨rfl, by simpa using h⟩
    · obtain rfl : rest = e'.ops ++ (elemsOps es' ++ rest') := by simpa using h
      exact absurd hrest (not_ends_ops e' _)
    · obtain rfl : e.ops ++ (elemsOps es ++ rest) = rest' := by simpa using h
      exact absurd hrest' (not_ends_ops e _)
    · have hes : sizeOf es ≤ n := by
        simp only [List.cons.sizeOf_spec] at hn
        omega
      cases e <;> cases e' <;> simp [PackElem.ops] at h
      case sub.sub kind key inner kind' key' inner' =>
        obtain ⟨⟨rfl, rfl⟩, h⟩ := h
        have hinner : sizeOf inner ≤ n := by
          simp only [List.cons.sizeOf_spec, PackElem.sub.sizeOf_spec] at hn
          omega
        obtain ⟨rfl, htail⟩ := ih hinner (ends_finish _ _) (ends_finish _ _) h
        obtain ⟨rfl, rfl⟩ := ih hes hrest hrest' (List.cons.inj htail).2
        exact ⟨rfl, rfl⟩
      all_goals
        obtain ⟨⟨rfl, rfl⟩, h⟩ := h
        obtain ⟨rfl, rfl⟩ := ih hes hrest hrest' h
        exact ⟨rfl, rfl⟩

theorem elemsOps_injective : Function.Injective elemsOps := by
  intro es es' h
  have hnil : elemsOps es ++ [] = elemsOps es' ++ [] := by rw [h]
  exact (elemsOps_append_inj le_rfl ends_nil ends_nil hnil).1

mutual

/-- The calls of an element leave the nesting as it was. -/
theorem nest_ops (ks : List PackKind) (ops : List PackOp) :
    ∀ e : PackElem, nest ks (e.ops ++ ops) = nest ks ops
  | .sub kind key elems => by
    rw [PackElem.ops, List.cons_append, List.append_assoc, List.singleton_append]
    simpa [nest, nestStep] using nest_elemsOps (kind :: ks) (.finish kind :: ops) elems
  | .binary _ _ | .string _ _ | .bool _ _ | .int _ _ | .long _ _ | .double _ _ => by
    simp [PackElem.ops, nest, nestStep]

theorem nest_elemsOps (ks : List PackKind) (ops : List PackOp) :
    ∀ es : List PackElem, nest ks (elemsOps es ++ ops) = nest ks ops
  | [] => by rw [elemsOps_nil, List.nil_append]
  | e :: es => by
    rw [elemsOps_cons, List.append_assoc, nest_ops ks _ e]
    exact nest_elemsOps ks ops es

end

theorem wellNested_elemsOps (es : List PackElem) : WellNested (elemsOps es) := by
  have hnest := nest_elemsOps [] [] es
  rwa [List.append_nil] at hnest

/-- Where a packet comes through, the receiver's iterators find its elements. -/
theorem packElems_of_roundTrips {elems : List PackElem} (h : RoundTrips (elemsOps elems))
    {junk : List UInt8} (hj : junk.length = 4) :
    ∃ b p, epPackFinish junk (elemsOps elems) = some b ∧
      epPackCreate (epPackData b) (epPackSize b) = some (some p) ∧
      packElems (p.data.length + 1) (epPackIteratorGet p) = some elems := by
  obtain ⟨b, p, hfinish, hcreate, hwalk⟩ := h junk hj
  refine ⟨b, p, hfinish, hcreate, ?_⟩
  rw [packWalk_eq] at hwalk
  obtain ⟨elems', helems, hops⟩ := Option.map_eq_some_iff.mp hwalk
  rw [helems, elemsOps_injective hops]

/-- The area can grow to hold the elements, and `ep_pack_create` takes the size of the packet
that they make. -/
def PackFits (elems : List PackElem) : Prop :=
  Fits (elemsOps elems) ∧ packTotal (elemsOps elems) % 256 ≠ 0

/-- With valid keys and strings, the size alone decides. -/
theorem roundTrips_elems_iff {elems : List PackElem}
    (hok : ∀ op ∈ elemsOps elems, op.KeyOk ∧ op.ValueOk) :
    RoundTrips (elemsOps elems) ↔ PackFits elems :=
  (roundTrips_iff (wellNested_elemsOps elems) fun op hop => (hok op hop).2).trans
    (and_iff_right fun op hop => (hok op hop).1)

/-! ## Small packets -/

theorem PackOp.need_le (op : PackOp) : op.need ≤ op.size + 1 := by
  cases op <;> simp [PackOp.need, PackOp.size, PackOp.element]

/-- An area that has to grow is shorter than what is to be in it. -/
theorem bsonGrow_isSome {pos dataSize need total : ℕ} (htotal : 3 * total ≤ int32Max)
    (hneed : pos + need ≤ total) : (bsonGrow pos dataSize need).isSome := by
  unfold bsonGrow
  split_ifs with hroom hgrow hmax
  · rfl
  · rfl
  · rfl
  · omega

theorem growAll_isSome {ops : List PackOp} {pos dataSize total : ℕ} (htotal : 3 * total ≤ int32Max)
    (hlen : pos + packBytes ops + 1 ≤ total) : (growAll pos dataSize ops).isSome := by
  induction ops generalizing pos dataSize with
  | nil => rfl
  | cons op ops ih =>
    have hneed := op.need_le
    simp only [packBytes, List.map_cons, List.sum_cons] at hlen ih
    have hgrow : (bsonGrow pos dataSize op.need).isSome := bsonGrow_isSome htotal (by omega)
    obtain ⟨size, hsize⟩ := Option.isSome_iff_exists.mp hgrow
    rw [growAll, hsize, Option.bind_some]
    exact ih (by omega)

/-- A small packet always fits. -/
theorem fits_of_small {ops : List PackOp} (h : 3 * packTotal ops ≤ int32Max) : Fits ops := by
  have hall : (growAll 4 128 ops).isSome := growAll_isSome h le_rfl
  obtain ⟨size, hsize⟩ := Option.isSome_iff_exists.mp hall
  refine ⟨size, hsize, bsonGrow_isSome h le_rfl, ?_⟩
  rw [packTotal] at h ⊢
  omega

theorem packFits_of_small {elems : List PackElem} (h : packTotal (elemsOps elems) < 256) :
    PackFits elems := by
  refine ⟨fits_of_small ?_, ?_⟩
  · rw [int32Max]
    omega
  · rw [packTotal] at h ⊢
    omega

end Youmenu.Eventpack
