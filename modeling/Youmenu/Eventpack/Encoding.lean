import Youmenu.Eventpack.Admission
import Youmenu.Eventpack.Elements

/-!
# Packets that cannot be encoded

The functions that append to a packet and finish it drop the return codes of the library.
Where a call was refused, the rest of the packet is built without it; where `bson_finish`
gives up, the four bytes that stand for the size are still those that `bson_init` found in
the heap, and the senders take them for the size.

## Main definitions

* `packBuffer`, `servicePushPack` — `ep_pack_finish` and `ep_buffer_new2` on a packet in any
  state, and a push of such a packet.
* `Complete` — the document of a list of calls.
* `Encodable` — the calls that the library accepts.
* `NoBuffer` — a packet that `ep_buffer_new2` makes no buffer of.
* `NeverPartial` — what is asked of the calls.
-/

namespace Youmenu.Eventpack

open Bytes Circular

/-! ## The source -/

/-- The memory of a packet: behind what was written, the heap. -/
def packChunk (past : ℤ → UInt8) (b : Bson) : ℤ → UInt8 := copyIn past 0 b.data

/-- `ep_pack_finish`; `none` is the exit of the process. -/
def Bson.epPackFinish (b : Bson) : Option Bson := (bsonFinish b).map Prod.fst

/-- `ep_buffer_new2`, which finishes the packet once more. -/
def epBufferNew2Pack (past mem : ℤ → UInt8) (b : Bson) : Option (Option EpBuffer) :=
  b.epPackFinish.map fun b => epBufferNew mem (packChunk past b) (epPackSize b)

/-- The calls, `ep_pack_finish` and `ep_buffer_new2`. -/
def packBuffer (past mem : ℤ → UInt8) (junk : List UInt8) (ops : List PackOp) :
    Option (Option EpBuffer) :=
  (packAppend (bsonInit junk) ops).epPackFinish.bind (epBufferNew2Pack past mem)

/-- `ep_service_push` of a packet that was not finished. -/
def servicePushPack (aes : AesCipher) (bz : Bz2) (past mem : ℤ → UInt8) (fresh : ℕ → ℤ → UInt8)
    (m : ServiceMgr) (fd notifyType : ℤ) (param : ReqParam Bson) : Option (ServiceMgr × ℕ) :=
  match param.pack with
  | none => some (pushBuffer aes bz fresh m fd notifyType (param.shell reqTypePost) none)
  | some pack =>
    (epBufferNew2Pack past mem pack).map fun
      | none => (m, 0)
      | some input => pushBuffer aes bz fresh m fd notifyType (param.shell reqTypePost) (some input)

/-! ## Complete documents -/

/-- The library closes the innermost sub-document, whatever its kind. -/
def SameCall (op op' : PackOp) : Prop :=
  op = op' ∨ ∃ kind kind', op = .finish kind ∧ op' = .finish kind'

/-- The bytes are the document of the calls, with its length in front. -/
def Complete (ops : List PackOp) (bytes : List UInt8) : Prop :=
  ∃ eff bs, List.Forall₂ SameCall ops eff ∧ Doc eff bs ∧
    bytes = leBytes 4 (bs.length + 5) ++ (bs ++ [0])

/-- How many sub-documents are open after a call. -/
def depthStep (depth : ℕ) : PackOp → Option ℕ
  | .start _ _ => some (depth + 1)
  | .finish _ => if depth = 0 then none else some (depth - 1)
  | _ => some depth

def depthAll : ℕ → List PackOp → Option ℕ
  | depth, [] => some depth
  | depth, op :: ops => (depthStep depth op).bind fun depth => depthAll depth ops

/-- All keys and strings are valid, every sub-document is closed, and the library can hold the
packet. -/
structure Encodable (ops : List PackOp) : Prop where
  valid : ∀ op ∈ ops, op.KeyOk ∧ op.ValueOk
  closed : depthAll 0 ops = some 0
  fits : Fits ops

theorem SameCall.size_eq {op op' : PackOp} (h : SameCall op op') : op'.size = op.size := by
  rcases h with rfl | ⟨kind, kind', rfl, rfl⟩ <;> rfl

theorem packBytes_sameCalls {ops eff : List PackOp} (h : List.Forall₂ SameCall ops eff) :
    packBytes eff = packBytes ops := by
  induction h with
  | nil => rfl
  | cons hop _ ih =>
    simp only [packBytes, List.map_cons, List.sum_cons] at ih ⊢
    rw [hop.size_eq, ih]

@[simp] theorem packBytes_append (ops ops' : List PackOp) :
    packBytes (ops ++ ops') = packBytes ops + packBytes ops' := by simp [packBytes]

theorem Doc.length_eq {ops : List PackOp} {bs : List UInt8} (h : Doc ops bs) :
    bs.length = packBytes ops := by
  induction h with
  | nil => rfl
  | value he _ ih =>
    simp only [packBytes, List.map_cons, List.sum_cons] at ih ⊢
    rw [← ih]
    simp [PackOp.size, he, estartBytes]
    omega
  | @sub kind name inner ops ib bs _ _ ihi ih =>
    have hsplit : packBytes (.start kind name :: (inner ++ .finish kind :: ops)) =
        (1 + (name.bytes.length + 1) + 4) + (packBytes inner + (1 + packBytes ops)) := by
      simp [packBytes, PackOp.size, PackOp.element]
    rw [hsplit, ← ihi, ← ih]
    simp [estartBytes]
    omega

theorem Open.length_eq {junk data : List UInt8} {stack : List ℕ} {ks : List PackKind}
    {ops : List PackOp} (h : Open junk data stack ks ops) :
    data.length = junk.length + packBytes ops := by
  induction h with
  | root h => simp [h.length_eq]
  | @sub data bs stack ks pre ops kind name _ h ih =>
    have hsplit : packBytes (pre ++ .start kind name :: ops) =
        packBytes pre + ((1 + (name.bytes.length + 1) + 4) + packBytes ops) := by
      simp [packBytes, PackOp.size, PackOp.element]
    rw [hsplit, ← h.length_eq]
    simp [estartBytes, ih]
    omega

theorem Complete.length_eq {ops : List PackOp} {bytes : List UInt8} (h : Complete ops bytes) :
    bytes.length = packTotal ops := by
  obtain ⟨eff, bs, hsame, hdoc, rfl⟩ := h
  rw [packTotal, ← packBytes_sameCalls hsame, ← hdoc.length_eq]
  simp
  omega

/-! ## One call -/

/-- A call that took effect. The kind of a closed sub-document is that of its start. -/
structure Took (junk : List UInt8) (b b' : Bson) (ks : List PackKind) (pre : List PackOp)
    (op op' : PackOp) (ks' : List PackKind) : Prop where
  building : Building junk b' ks' (pre ++ [op'])
  same : SameCall op op'
  grown : Grown b b' op.need
  valid : op.KeyOk ∧ op.ValueOk
  depth : depthStep ks.length op = some ks'.length

/-- A call takes effect, or leaves the document as it is and one of its requirements failed. -/
def PackOp.Result (junk : List UInt8) (b : Bson) (ks : List PackKind) (pre : List PackOp)
    (op : PackOp) : Prop :=
  (∃ b' op' ks', op.apply b = (b', true) ∧ Took junk b b' ks pre op op' ks') ∨
  (∃ b', op.apply b = (b', false) ∧ Building junk b' ks pre ∧
    (op.KeyOk ∧ op.ValueOk → (depthStep ks.length op).isSome →
      bsonGrow b.data.length b.dataSize op.need = none))

section Step

variable {junk : List UInt8} {b : Bson} {ks : List PackKind} {pre : List PackOp}

/-- A call that is no `finish` fits wherever it stands. -/
theorem PackOp.Outcome.result {op : PackOp} {ks' : List PackKind} (h : op.Outcome junk b ks pre)
    (hstep : nestStep ks op = some ks') (hdepth : depthStep ks.length op = some ks'.length) :
    op.Result junk b ks pre := by
  obtain ⟨b', op', ks₁, hb', htook⟩ | ⟨b', hb', hbuild, hwhy⟩ := h
  · obtain ⟨rfl, rfl⟩ := htook.nested _ hstep
    exact .inl ⟨b', _, _, hb', htook.building, .inl rfl, htook.grown,
      ⟨htook.keyOk, htook.valueOk⟩, hdepth⟩
  · exact .inr ⟨b', hb', hbuild, fun hvalid _ => hwhy hvalid.1 hvalid.2 (by rw [hstep]; rfl)⟩

variable (h : Building junk b ks pre)

include h

theorem Building.length_eq : b.data.length = junk.length + packBytes pre := h.doc.length_eq

theorem Took.length {b' : Bson} {op op' : PackOp} {ks' : List PackKind}
    (htook : Took junk b b' ks pre op op' ks') : b'.data.length = b.data.length + op.size := by
  rw [htook.building.length_eq, h.length_eq, packBytes_append, ← htook.same.size_eq]
  simp [packBytes]
  omega

theorem Building.result_finish (hj : junk.length = 4) (kind : PackKind) :
    (PackOp.finish kind).Result junk b ks pre := by
  have hkinds := h.doc.length_kinds
  cases hstack : b.stack with
  | nil =>
    have hks : ks.length = 0 := by rw [hkinds, hstack]; rfl
    obtain ⟨b', op', ks₁, hb', -⟩ | ⟨b', hb', hbuild, -⟩ := h.outcome_finish_nil kind hstack
    · cases kind <;> simp [PackOp.apply, bsonAppendFinishArray, bsonAppendFinishObject, hstack] at hb'
    · refine .inr ⟨b', hb', hbuild, fun _ hsome => ?_⟩
      simp [depthStep, hks] at hsome
  | cons start stack =>
    obtain ⟨k, ks', rfl, ⟨b', hb', hbuild, hgrown, -⟩ | ⟨b', hb', hbuild, hfull⟩⟩ :=
      h.finish_cons hj kind hstack
    · exact .inl ⟨b', .finish k, ks', hb', hbuild, .inr ⟨kind, k, rfl, rfl⟩, hgrown,
        ⟨trivial, trivial⟩, by simp [depthStep]⟩
    · exact .inr ⟨b', hb', hbuild, fun _ _ => hfull⟩

theorem Building.result (hj : junk.length = 4) (op : PackOp) : op.Result junk b ks pre := by
  cases op with
  | finish kind => exact h.result_finish hj kind
  | start kind name =>
    exact (h.outcome_start kind name).result (show nestStep ks _ = some (kind :: ks) from rfl) rfl
  | binary name data | string name data | bool name value | int name value | long name value
  | double name value =>
    exact (h.outcome hj _).result (show nestStep ks _ = some ks from rfl) rfl

end Step

/-! ## All calls of a packet -/

/-- What the calls leave behind if all of them take effect. -/
structure TookAll (junk : List UInt8) (b b' : Bson) (ks' : List PackKind) (pre eff : List PackOp) :
    Prop where
  building : Building junk b' ks' (pre ++ eff)
  clean : Clean b.err → Clean b'.err

/-- What a call needs: a valid key and value, an open sub-document to close, and room. -/
structure Accepts (depth pos dataSize : ℕ) (ops : List PackOp) (depth' dataSize' : ℕ) : Prop where
  valid : ∀ op ∈ ops, op.KeyOk ∧ op.ValueOk
  depth : depthAll depth ops = some depth'
  grow : growAll pos dataSize ops = some dataSize'

section Calls

variable {junk : List UInt8} (hj : junk.length = 4) {b : Bson} {ks : List PackKind}
  {pre : List PackOp}

include hj

/-- If every call returned `BSON_OK`, each of them is in the document. -/
theorem tookAll_of_allOk {ops : List PackOp} (h : Building junk b ks pre) (hok : AllOk b ops) :
    ∃ eff ks', List.Forall₂ SameCall ops eff ∧
      TookAll junk b (packAppend b ops) ks' pre eff ∧
      Accepts ks.length b.data.length b.dataSize ops ks'.length (packAppend b ops).dataSize := by
  induction ops generalizing b ks pre with
  | nil => exact ⟨[], ks, .nil, ⟨by simpa [packAppend] using h, id⟩, by simp, rfl, rfl⟩
  | cons op ops ih =>
    obtain ⟨hfirst, hrest⟩ := hok
    obtain ⟨b', op', ks₁, hb', htook⟩ | ⟨b', hb', -, -⟩ := h.result hj op
    · rw [hb'] at hrest
      obtain ⟨eff, ks', hsame, hall, haccepts⟩ := ih htook.building hrest
      have hcons : packAppend b (op :: ops) = packAppend b' ops := by simp [packAppend, hb']
      have hlen := htook.length h
      rw [hcons]
      refine ⟨op' :: eff, ks', .cons htook.same hsame,
        ⟨by simpa using hall.building, fun hc => hall.clean (htook.grown.clean hc)⟩, ?_, ?_, ?_⟩
      · exact List.forall_mem_cons.mpr ⟨htook.valid, haccepts.valid⟩
      · rw [depthAll, htook.depth, Option.bind_some, haccepts.depth]
      · rw [growAll, htook.grown.grow, Option.bind_some, ← hlen, haccepts.grow]
    · rw [hb'] at hfirst
      cases hfirst

/-- Calls that have what they need return `BSON_OK`. -/
theorem allOk_of_accepts {ops : List PackOp} {depth' dataSize' : ℕ} (h : Building junk b ks pre)
    (haccepts : Accepts ks.length b.data.length b.dataSize ops depth' dataSize') : AllOk b ops := by
  induction ops generalizing b ks pre with
  | nil => trivial
  | cons op ops ih =>
    obtain ⟨hvalid, hdepth, hgrow⟩ := haccepts
    rw [List.forall_mem_cons] at hvalid
    obtain ⟨depth, hstep, hdepth⟩ := Option.bind_eq_some_iff.mp hdepth
    obtain ⟨size, hsize, hgrow⟩ := Option.bind_eq_some_iff.mp hgrow
    obtain ⟨b', op', ks₁, hb', htook⟩ | ⟨b', hb', -, hwhy⟩ := h.result hj op
    · have hlen := htook.length h
      obtain rfl := Option.some.inj (hstep.symm.trans htook.depth)
      obtain rfl := Option.some.inj (hsize.symm.trans htook.grown.grow)
      refine ⟨by rw [hb'], ?_⟩
      rw [hb']
      exact ih htook.building ⟨hvalid.2, hdepth, by rw [hlen]; exact hgrow⟩
    · rw [hwhy hvalid.1 (by rw [hstep]; rfl)] at hsize
      cases hsize

/-- A refused call is missing in the document. -/
theorem packAppend_length (ops : List PackOp) (h : Building junk b ks pre) :
    ∃ ks' eff, Building junk (packAppend b ops) ks' (pre ++ eff) ∧
      packBytes eff ≤ packBytes ops ∧ (¬ AllOk b ops → packBytes eff < packBytes ops) := by
  induction ops generalizing b ks pre with
  | nil => exact ⟨ks, [], by simpa [packAppend] using h, le_rfl, fun hno => (hno trivial).elim⟩
  | cons op ops ih =>
    have hpos : 0 < op.size := by
      cases op <;> simp [PackOp.size, PackOp.element]
    have hcons : packBytes (op :: ops) = op.size + packBytes ops := by simp [packBytes]
    obtain ⟨b', op', ks₁, hb', htook⟩ | ⟨b', hb', hbuild, -⟩ := h.result hj op
    · obtain ⟨ks', eff, hrun, hle, hlt⟩ := ih htook.building
      have hsize : packBytes (op' :: eff) = op.size + packBytes eff := by
        simp [packBytes, htook.same.size_eq]
      refine ⟨ks', op' :: eff, by simpa [packAppend, hb'] using hrun, by omega, fun hno => ?_⟩
      have := hlt fun hok => hno ⟨by rw [hb'], by rw [hb']; exact hok⟩
      omega
    · obtain ⟨ks', eff, hrun, hle, -⟩ := ih hbuild
      exact ⟨ks', eff, by simpa [packAppend, hb'] using hrun, by omega, fun _ => by omega⟩

end Calls

/-! ## Finishing -/

/-- `bson_finish` writes the size. -/
structure Finishes (b : Bson) : Prop where
  clean : Clean b.err
  closed : b.stack = []
  room : (bsonGrow b.data.length b.dataSize 1).isSome
  short : b.data.length + 1 < int32Max

/-- `bson_finish` gives up without touching the size. -/
structure GivesUp (b : Bson) : Prop where
  unfinished : b.finished = false
  not_exits : ¬ (Clean b.err ∧ b.stack ≠ [])
  not_finishes : ¬ Finishes b

/-- A size that `ep_buffer_new` can serve. -/
def Allocatable (size : ℤ) : Prop := 0 < size ∧ size ≤ 2 ^ 31 - 16

instance (size : ℤ) : Decidable (Allocatable size) := inferInstanceAs (Decidable (_ ∧ _))

theorem bsonFinish_exit {b : Bson} (hun : b.finished = false) (hclean : Clean b.err)
    (hopen : b.stack ≠ []) : bsonFinish b = none := by
  unfold Clean at hclean
  simp [bsonFinish, hclean, hun, hopen]

/-- A finished packet is finished once. -/
theorem bsonFinish_finished {b : Bson} (hfin : b.finished = true) (hclean : Clean b.err) :
    bsonFinish b = some (b, true) := by
  unfold Clean at hclean
  simp [bsonFinish, hclean, hfin]

theorem Finishes.finish_eq {b : Bson} (h : Finishes b) (hun : b.finished = false) :
    ∃ size, bsonFinish b = some ({ b with
      dataSize := size
      data := patch (b.data ++ [0]) 0 (b.data.length + 1)
      finished := true }, true) := by
  obtain ⟨size, hsize⟩ := Option.isSome_iff_exists.mp h.room
  have hshort := h.short
  have hsmall : ¬ b.data.length + 1 ≥ int32Max := by omega
  have hclean := h.clean
  unfold Clean at hclean
  refine ⟨size, ?_⟩
  simp only [bsonFinish, hclean, ne_eq, not_true, if_false, hun,
    Bool.false_eq_true, h.closed, bsonEnsureSpace, hsize, List.length_append,
    List.length_singleton, if_neg hsmall]

/-- Only a document that is too long gets a byte more, and it keeps its size field. -/
theorem GivesUp.finish_eq {b : Bson} (h : GivesUp b) :
    ∃ b' zeros, bsonFinish b = some (b', false) ∧ GivesUp b' ∧
      b'.data = b.data ++ zeros ∧ (zeros ≠ [] → int32Max ≤ b.data.length + 1) := by
  obtain ⟨hun, hexit, hfinish⟩ := h
  by_cases hclean : Clean b.err
  · have hclosed : b.stack = [] := by
      by_contra hopen
      exact hexit ⟨hclean, hopen⟩
    have hclean' := hclean
    unfold Clean at hclean'
    have hoverflow : Clean bsonSizeOverflow := rfl
    obtain ⟨size, hgrow, henough⟩ | ⟨hgrow, hfull⟩ := bsonEnsureSpace_spec b 1
    · have hlong : int32Max ≤ b.data.length + 1 := by
        by_contra hshort
        exact hfinish ⟨hclean, hclosed, by rw [hgrow]; rfl, by omega⟩
      have hlong' : (b.data ++ [0]).length ≥ int32Max := by
        rw [List.length_append, List.length_singleton]
        omega
      refine ⟨{ b with dataSize := size, data := b.data ++ [0], err := bsonSizeOverflow }, [0], ?_,
        ⟨hun, fun h => h.2 hclosed, fun h => ?_⟩, rfl, fun _ => hlong⟩
      · simp only [bsonFinish, hclean', ne_eq, not_true, if_false, hun,
          Bool.false_eq_true, hclosed, henough, if_pos hlong']
      · have hshort := h.short
        simp only [List.length_append, List.length_singleton] at hshort
        omega
    · refine ⟨{ b with err := bsonSizeOverflow }, [], ?_, ⟨hun, fun h => h.2 hclosed, fun h => ?_⟩,
        by simp, by simp⟩
      · simp only [bsonFinish, hclean', ne_eq, not_true, if_false, hun,
          Bool.false_eq_true, hclosed, hfull]
      · have hroom := h.room
        simp only [hgrow] at hroom
        cases hroom
  · refine ⟨b, [], ?_, ⟨hun, hexit, hfinish⟩, by simp, by simp⟩
    rw [bsonFinish]
    exact if_pos hclean

theorem finish_cases {b : Bson} (hun : b.finished = false) :
    (Clean b.err ∧ b.stack ≠ []) ∨ Finishes b ∨ GivesUp b := by
  by_cases hexit : Clean b.err ∧ b.stack ≠ []
  · exact .inl hexit
  by_cases hfin : Finishes b
  · exact .inr (.inl hfin)
  · exact .inr (.inr ⟨hun, hexit, hfin⟩)

/-! ## The size of a finished packet -/

/-- The size of a document, or the four bytes that were there before. -/
def sizeWord (bytes : List UInt8) : ℤ := (BitVec.ofNat 32 (word 4 bytes)).toInt

theorem sizeWord_append {bytes : List UInt8} (h : 4 ≤ bytes.length) (rest : List UInt8) :
    sizeWord (bytes ++ rest) = sizeWord bytes := by
  rw [sizeWord, word, List.take_append_of_le_length h]
  rfl

theorem sizeWord_leBytes {n : ℕ} (h : n < 2 ^ 31) (rest : List UInt8) :
    sizeWord (leBytes 4 n ++ rest) = n := by
  rw [sizeWord, word_leBytes_append (by omega), BitVec.toInt_eq_toNat_of_lt (by simp; omega)]
  simp
  omega

section Size

variable {junk : List UInt8} (hj : junk.length = 4) {b : Bson} {ks : List PackKind}
  {eff : List PackOp} (h : Building junk b ks eff)

include hj h

/-- What is finished is the document of the calls that took effect. -/
theorem Finishes.document (hfin : Finishes b) :
    ∃ b' bs, bsonFinish b = some (b', true) ∧ bsonFinish b' = some (b', true) ∧ Doc eff bs ∧
      bs.length + 4 = b.data.length ∧ b'.data = leBytes 4 (bs.length + 5) ++ (bs ++ [0]) := by
  obtain ⟨size, hsize⟩ := Option.isSome_iff_exists.mp hfin.room
  obtain ⟨b', bs, hfinish, hdoc, hlen, hdata⟩ :=
    bsonFinish_eq hj h hfin.clean hfin.closed hsize hfin.short
  refine ⟨b', bs, hfinish, ?_, hdoc, hlen, hdata⟩
  obtain ⟨size', heq⟩ := hfin.finish_eq h.roomy.unfinished
  obtain ⟨rfl, -⟩ := Prod.mk.inj (Option.some.inj (hfinish.symm.trans heq))
  exact bsonFinish_finished rfl hfin.clean

theorem Building.sizeWord_eq (zeros : List UInt8) :
    sizeWord (b.data ++ zeros) = sizeWord junk := by
  obtain ⟨rest, hrest⟩ := h.doc.junk_prefix
  rw [← hrest, List.append_assoc, sizeWord_append hj.ge]

/-- The size that the senders see behind `ep_pack_finish`. -/
theorem epPackSize_finish {b' : Bson} {ok : Bool} (hfinish : bsonFinish b = some (b', ok)) :
    (Finishes b ∧ epPackSize b' = b.data.length + 1) ∨
      (GivesUp b ∧ epPackSize b' = sizeWord junk) := by
  obtain ⟨hclean, hopen⟩ | hfin | hgives := finish_cases h.roomy.unfinished
  · rw [bsonFinish_exit h.roomy.unfinished hclean hopen] at hfinish
    cases hfinish
  · obtain ⟨b₁, bs, hb₁, -, -, hlen, hdata⟩ := hfin.document hj h
    obtain ⟨rfl, -⟩ := Prod.mk.inj (Option.some.inj (hfinish.symm.trans hb₁))
    have hshort := hfin.short
    unfold int32Max at hshort
    have hword : epPackSize b' = (bs.length + 5 : ℕ) := by
      rw [epPackSize, hdata]
      exact sizeWord_leBytes (by omega) _
    exact .inl ⟨hfin, by rw [hword]; omega⟩
  · obtain ⟨b₁, zeros, hb₁, -, hdata, -⟩ := hgives.finish_eq
    obtain ⟨rfl, -⟩ := Prod.mk.inj (Option.some.inj (hfinish.symm.trans hb₁))
    refine .inr ⟨hgives, ?_⟩
    rw [epPackSize, hdata]
    exact h.sizeWord_eq hj zeros

end Size

/-! ## Packets without a buffer -/

/-- `ep_buffer_new2` makes no buffer: the process exits, the document is too long to be
allocated, or the bytes that `bson_init` found are no size that could be. -/
def NoBuffer (junk : List UInt8) (b : Bson) : Prop :=
  (Clean b.err ∧ b.stack ≠ []) ∨ (Finishes b ∧ ¬ Allocatable (b.data.length + 1)) ∨
    (GivesUp b ∧ ¬ Allocatable (sizeWord junk))

/-- A packet that cannot be encoded is never sent: a buffer holds the whole document, and a
frame is queued only if there is such a document. -/
structure NeverPartial (junk : List UInt8) (ops : List PackOp) : Prop where
  buffer : ∀ past mem buffer, packBuffer past mem junk ops = some (some buffer) →
    Complete ops buffer.bytes
  request : ∀ aes bz heap (client client' : EpClient) param id frame,
    param.pack = some (packAppend (bsonInit junk) ops) →
    client.epReqNew aes bz heap param = some (client', some (id, frame)) → Encodable ops
  push : ∀ aes bz past mem fresh (m m' : ServiceMgr) fd notifyType param count,
    param.pack = some (packAppend (bsonInit junk) ops) →
    servicePushPack aes bz past mem fresh m fd notifyType param = some (m', count) → m' ≠ m →
    Encodable ops
  reply : ∀ {σ : Type} aes bz heap (mgr : σ → EpIoMgr) disp s s₁ s' (task : EpIoTask) frame,
    (∀ pack, disp s ⟨task.shell.proto.category⟩ task.fd pack =
      some (s₁, some (packAppend (bsonInit junk) ops))) →
    epIoProcessor aes bz heap mgr disp s task = some (s', some frame) → Encodable ops

section Buffer

variable {junk : List UInt8} (hj : junk.length = 4) {ops : List PackOp}

include hj

variable (ops) in
theorem building_packAppend :
    ∃ ks eff, Building junk (packAppend (bsonInit junk) ops) ks eff ∧
      packBytes eff ≤ packBytes ops ∧
      (¬ AllOk (bsonInit junk) ops → packBytes eff < packBytes ops) := by
  simpa using packAppend_length hj ops (bsonInit_building hj)

/-- Where the calls are refused nothing, the library finishes what they made. -/
theorem encodable_of_finishes (hok : AllOk (bsonInit junk) ops)
    (hfin : Finishes (packAppend (bsonInit junk) ops)) : Encodable ops := by
  obtain ⟨eff, ks, hsame, hall, haccepts⟩ := tookAll_of_allOk hj (bsonInit_building hj) hok
  have hlen₀ : (bsonInit junk).data.length = 4 := by simp [bsonInit, hj]
  have hlen := hall.building.length_eq
  rw [hj, List.nil_append, packBytes_sameCalls hsame] at hlen
  have hks : ks.length = 0 := by
    rw [hall.building.doc.length_kinds, hfin.closed, List.length_nil]
  have hgrow := haccepts.grow
  have hdepth := haccepts.depth
  have hroom := hfin.room
  have hshort := hfin.short
  rw [hlen₀] at hgrow
  rw [hks] at hdepth
  rw [hlen] at hroom hshort
  exact ⟨haccepts.valid, hdepth, _, hgrow, hroom, by rw [packTotal]; omega⟩

/-- An encodable packet is finished, and its document has all calls. -/
theorem Encodable.finishes (henc : Encodable ops) :
    Finishes (packAppend (bsonInit junk) ops) ∧
      ∃ eff ks, List.Forall₂ SameCall ops eff ∧
        Building junk (packAppend (bsonInit junk) ops) ks eff := by
  obtain ⟨hvalid, hclosed, size, hgrow, hroom, hshort⟩ := henc
  have hlen₀ : (bsonInit junk).data.length = 4 := by simp [bsonInit, hj]
  have haccepts : Accepts 0 (bsonInit junk).data.length (bsonInit junk).dataSize ops 0 size :=
    ⟨hvalid, hclosed, by rw [hlen₀]; exact hgrow⟩
  have hok := allOk_of_accepts hj (bsonInit_building hj) haccepts
  obtain ⟨eff, ks, hsame, hall, haccepts'⟩ := tookAll_of_allOk hj (bsonInit_building hj) hok
  have hks : ks.length = 0 := Option.some.inj (haccepts'.depth.symm.trans hclosed)
  have hsize : size = (packAppend (bsonInit junk) ops).dataSize :=
    Option.some.inj (haccepts.grow.symm.trans haccepts'.grow)
  have hlen := hall.building.length_eq
  rw [hj, List.nil_append, packBytes_sameCalls hsame] at hlen
  refine ⟨⟨hall.clean (by simp [Clean, bsonInit]), ?_, ?_, ?_⟩, eff, ks, hsame, by
    simpa using hall.building⟩
  · exact List.eq_nil_of_length_eq_zero (hall.building.doc.length_kinds.symm.trans hks)
  · rw [hlen, ← hsize]
    exact hroom
  · rw [hlen]
    rw [packTotal] at hshort
    omega

/-- A packet without a buffer has no size that the senders could allocate. -/
theorem NoBuffer.not_allocatable (hno : NoBuffer junk (packAppend (bsonInit junk) ops))
    {b' : Bson} {ok : Bool}
    (hfinish : bsonFinish (packAppend (bsonInit junk) ops) = some (b', ok)) :
    ¬ Allocatable (epPackSize b') := by
  obtain ⟨ks, eff, hbuild, -, -⟩ := building_packAppend hj ops
  have hun := hbuild.roomy.unfinished
  obtain ⟨hclean, hopen⟩ | ⟨hfin, hbig⟩ | ⟨hgives, hbig⟩ := hno
  · rw [bsonFinish_exit hun hclean hopen] at hfinish
    cases hfinish
  · obtain ⟨-, hsize⟩ | ⟨hgives, -⟩ := epPackSize_finish hj hbuild hfinish
    · rwa [hsize]
    · exact absurd hfin hgives.not_finishes
  · obtain ⟨hfin, -⟩ | ⟨-, hsize⟩ := epPackSize_finish hj hbuild hfinish
    · exact absurd hfin hgives.not_finishes
    · rwa [hsize]

variable {ks : List PackKind} {eff : List PackOp}
  (h : Building junk (packAppend (bsonInit junk) ops) ks eff)

include h

theorem Finishes.packBuffer_eq (hfin : Finishes (packAppend (bsonInit junk) ops)) :
    ∃ bs, Doc eff bs ∧ bs.length + 4 = (packAppend (bsonInit junk) ops).data.length ∧
      ∀ past mem, packBuffer past mem junk ops = some (epBufferNew mem
        (copyIn past 0 (leBytes 4 (bs.length + 5) ++ (bs ++ [0]))) (bs.length + 5 : ℕ)) := by
  obtain ⟨b', bs, hfinish, hagain, hdoc, hlen, hdata⟩ := hfin.document hj h
  have hshort := hfin.short
  unfold int32Max at hshort
  have hsize : epPackSize b' = (bs.length + 5 : ℕ) := by
    rw [epPackSize, hdata]
    exact sizeWord_leBytes (by omega) _
  refine ⟨bs, hdoc, hlen, fun past mem => ?_⟩
  simp only [packBuffer, Bson.epPackFinish, epBufferNew2Pack, hfinish, hagain, Option.map_some,
    Option.bind_some, packChunk, hdata, hsize]

theorem GivesUp.packBuffer_eq (hgives : GivesUp (packAppend (bsonInit junk) ops)) :
    ∃ zeros, (zeros ≠ [] → int32Max ≤ (packAppend (bsonInit junk) ops).data.length + 1) ∧
      ∀ past mem, packBuffer past mem junk ops = some (epBufferNew mem
        (copyIn past 0 ((packAppend (bsonInit junk) ops).data ++ zeros)) (sizeWord junk)) := by
  obtain ⟨b₁, zeros, hfinish, hgives₁, hdata, hlong⟩ := hgives.finish_eq
  obtain ⟨b₂, zeros', hagain, -, hdata', hlong'⟩ := hgives₁.finish_eq
  rw [hdata, List.append_assoc] at hdata'
  have hsize : epPackSize b₂ = sizeWord junk := by
    rw [epPackSize, hdata']
    exact h.sizeWord_eq hj _
  refine ⟨zeros ++ zeros', fun hne => ?_, fun past mem => ?_⟩
  · by_cases hnil : zeros = []
    · subst hnil
      simpa [hdata] using hlong' (by simpa using hne)
    · exact hlong hnil
  · simp only [packBuffer, Bson.epPackFinish, epBufferNew2Pack, hfinish, hagain, Option.map_some,
      Option.bind_some, packChunk, hdata', hsize]

end Buffer

/-- What is copied of a finished packet is its document. -/
theorem bytes_epBufferNew {past mem : ℤ → UInt8} {data : List UInt8} {n : ℕ} {buffer : EpBuffer}
    (hlen : data.length = n) (h : epBufferNew mem (copyIn past 0 data) n = some buffer) :
    buffer.bytes = data := by
  rw [(epBufferNew_holds h).bytes_eq, Int.toNat_natCast]
  exact cells_copyIn _ _ _ hlen

/-- What is read behind a packet is no part of a document. -/
theorem not_complete_past {data : List UInt8} {size : ℤ} {mem : ℤ → UInt8} {ops : List PackOp}
    {buffer : EpBuffer} (hshort : data.length < packTotal ops)
    (h : epBufferNew mem (copyIn (fun _ => 1) 0 data) size = some buffer) :
    ¬ Complete ops buffer.bytes := by
  intro hcomplete
  have hlen := hcomplete.length_eq
  obtain ⟨eff, bs, -, -, hbytes⟩ := hcomplete
  rw [(epBufferNew_holds h).bytes_eq] at hlen hbytes
  rw [length_cells] at hlen
  have hcount := congrArg List.length hbytes
  simp only [length_cells, List.length_append, length_leBytes, List.length_singleton] at hcount
  have hin : bs.length + 4 < size.toNat := by omega
  -- the last byte of the document is zero
  have hlast : copyIn (fun _ => 1) 0 data ((bs.length : ℤ) + 4) = (0 : UInt8) := by
    simpa [cells, hin, List.getElem?_append_right] using
      congrArg (fun bytes => bytes[bs.length + 4]?) hbytes
  rw [copyIn_of_ge _ _ (by omega)] at hlast
  cases hlast

/-! ## The buffer -/

section Buffer

variable {junk : List UInt8} (hj : junk.length = 4) {ops : List PackOp}

include hj

theorem Encodable.complete (henc : Encodable ops) {past mem : ℤ → UInt8} {buffer : EpBuffer}
    (h : packBuffer past mem junk ops = some (some buffer)) : Complete ops buffer.bytes := by
  obtain ⟨hfin, eff, ks, hsame, hbuild⟩ := henc.finishes hj
  obtain ⟨bs, hdoc, -, heq⟩ := hfin.packBuffer_eq hj hbuild
  rw [heq] at h
  have hbytes := bytes_epBufferNew (by simp; omega) (Option.some.inj h)
  exact ⟨eff, bs, hsame, hdoc, hbytes⟩

theorem NoBuffer.packBuffer_ne (hno : NoBuffer junk (packAppend (bsonInit junk) ops))
    (past mem : ℤ → UInt8) (buffer : EpBuffer) :
    packBuffer past mem junk ops ≠ some (some buffer) := by
  intro h
  obtain ⟨ks, eff, hbuild, -, -⟩ := building_packAppend hj ops
  have hsome : ∀ {m m' : ℤ → UInt8} {size : ℤ}, some (epBufferNew m m' size) = some (some buffer) →
      Allocatable size := fun heq =>
    (epBufferNew_isSome_iff _ _ _).mp (by rw [Option.some.inj heq]; rfl)
  obtain ⟨hclean, hopen⟩ | ⟨hfin, hbig⟩ | ⟨hgives, hbig⟩ := hno
  · have hexit := bsonFinish_exit hbuild.roomy.unfinished hclean hopen
    simp [packBuffer, Bson.epPackFinish, hexit] at h
  · obtain ⟨bs, -, hlen, heq⟩ := hfin.packBuffer_eq hj hbuild
    rw [heq] at h
    refine hbig ?_
    rw [← hlen]
    exact_mod_cast hsome h
  · obtain ⟨zeros, -, heq⟩ := hgives.packBuffer_eq hj hbuild
    rw [heq] at h
    exact hbig (hsome h)

/-- A document that is finished although a call was refused lacks this call. -/
theorem Finishes.exists_partial (hfin : Finishes (packAppend (bsonInit junk) ops))
    (henc : ¬ Encodable ops) (hno : ¬ NoBuffer junk (packAppend (bsonInit junk) ops)) :
    ∃ past mem buffer, packBuffer past mem junk ops = some (some buffer) ∧
      ¬ Complete ops buffer.bytes := by
  obtain ⟨ks, eff, hbuild, -, hlt⟩ := building_packAppend hj ops
  have hlen := hbuild.length_eq
  rw [hj] at hlen
  obtain ⟨bs, -, hbs, heq⟩ := hfin.packBuffer_eq hj hbuild
  have hfits : Allocatable ((bs.length + 5 : ℕ) : ℤ) := by
    by_contra hbig
    refine hno (.inr (.inl ⟨hfin, ?_⟩))
    rw [← hbs]
    exact_mod_cast hbig
  obtain ⟨buffer, hbuffer⟩ := Option.isSome_iff_exists.mp
    ((epBufferNew_isSome_iff (fun _ => 0) (copyIn (fun _ => 0) 0
      (leBytes 4 (bs.length + 5) ++ (bs ++ [0]))) _).mpr hfits)
  refine ⟨_, _, buffer, (heq _ _).trans (congrArg some hbuffer), fun hcomplete => ?_⟩
  have hcount := hcomplete.length_eq
  rw [bytes_epBufferNew (by simp; omega) hbuffer, packTotal] at hcount
  simp only [List.length_append, length_leBytes, List.length_singleton] at hcount
  have hmissing := hlt fun hok => henc (encodable_of_finishes hj hok hfin)
  omega

/-- Where the library gives up, the size is what the heap held. -/
theorem GivesUp.exists_partial (hgives : GivesUp (packAppend (bsonInit junk) ops))
    (hno : ¬ NoBuffer junk (packAppend (bsonInit junk) ops)) :
    ∃ past mem buffer, packBuffer past mem junk ops = some (some buffer) ∧
      ¬ Complete ops buffer.bytes := by
  obtain ⟨ks, eff, hbuild, hle, -⟩ := building_packAppend hj ops
  have hlen := hbuild.length_eq
  rw [hj] at hlen
  obtain ⟨zeros, hzeros, heq⟩ := hgives.packBuffer_eq hj hbuild
  have hfits : Allocatable (sizeWord junk) := by
    by_contra hbig
    exact hno (.inr (.inr ⟨hgives, hbig⟩))
  obtain ⟨buffer, hbuffer⟩ := Option.isSome_iff_exists.mp
    ((epBufferNew_isSome_iff (fun _ => 0) (copyIn (fun _ => 1) 0
      ((packAppend (bsonInit junk) ops).data ++ zeros)) _).mpr hfits)
  refine ⟨_, _, buffer, (heq _ _).trans (congrArg some hbuffer), ?_⟩
  by_cases hnil : zeros = []
  · subst hnil
    refine not_complete_past ?_ hbuffer
    rw [List.append_nil, packTotal]
    omega
  · -- no size that can be allocated reaches the end of such a document
    intro hcomplete
    have hcount := hcomplete.length_eq
    rw [(epBufferNew_holds hbuffer).bytes_eq, length_cells, packTotal] at hcount
    have hlong := hzeros hnil
    unfold int32Max at hlong
    have hsize := hfits.2
    omega

/-- A packet that cannot be encoded and of which a buffer is made: for some contents of the
memory behind it, the buffer is not the document. -/
theorem exists_partial (henc : ¬ Encodable ops)
    (hno : ¬ NoBuffer junk (packAppend (bsonInit junk) ops)) :
    ∃ past mem buffer, packBuffer past mem junk ops = some (some buffer) ∧
      ¬ Complete ops buffer.bytes := by
  obtain ⟨ks, eff, hbuild, -, -⟩ := building_packAppend hj ops
  obtain hexit | hfin | hgives := finish_cases hbuild.roomy.unfinished
  · exact absurd (.inl hexit) hno
  · exact hfin.exists_partial hj henc hno
  · exact hgives.exists_partial hj hno

end Buffer

/-! ## The senders -/

theorem allocatable_of_epBufferNew2 {mem : ℤ → UInt8} {b : Bson} {buffer : EpBuffer}
    (h : epBufferNew2 mem b.data = some buffer) : Allocatable (epPackSize b) :=
  (epBufferNew_isSome_iff _ _ _).mp (by rw [epBufferNew2] at h; rw [epPackSize, h]; rfl)

section Senders

variable {aes : AesCipher} {bz : Bz2}

theorem epReqNew_allocatable {heap : ℕ → ℤ → UInt8} {client client' : EpClient}
    {param : ReqParam Bson} {pack : Bson} {id : ℕ} {frame : List UInt8}
    (hpack : param.pack = some pack)
    (h : client.epReqNew aes bz heap param = some (client', some (id, frame))) :
    ∃ b ok, bsonFinish pack = some (b, ok) ∧ Allocatable (epPackSize b) := by
  obtain ⟨finished, hfinished, -, hframe⟩ := EpClient.epReqNew_frame h
  obtain ⟨hnone, -⟩ | ⟨p, b, ok, hp, hfinish, rfl⟩ := hfinished
  · rw [hnone] at hpack
    cases hpack
  · obtain rfl := Option.some.inj (hp.symm.trans hpack)
    obtain ⟨input, hinput, -⟩ := Option.bind_eq_some_iff.mp hframe
    obtain ⟨buffer, hbuffer, -⟩ := Option.map_eq_some_iff.mp hinput
    exact ⟨b, ok, hfinish, allocatable_of_epBufferNew2 hbuffer⟩

theorem servicePushPack_allocatable {past mem : ℤ → UInt8} {fresh : ℕ → ℤ → UInt8}
    {m m' : ServiceMgr} {fd notifyType : ℤ} {param : ReqParam Bson} {pack : Bson} {count : ℕ}
    (hpack : param.pack = some pack)
    (h : servicePushPack aes bz past mem fresh m fd notifyType param = some (m', count))
    (hne : m' ≠ m) : ∃ b ok, bsonFinish pack = some (b, ok) ∧ Allocatable (epPackSize b) := by
  simp only [servicePushPack, hpack] at h
  obtain ⟨input, hinput, hpush⟩ := Option.map_eq_some_iff.mp h
  obtain ⟨b, hb, rfl⟩ := Option.map_eq_some_iff.mp hinput
  obtain ⟨⟨b, ok⟩, hfinish, rfl⟩ := Option.map_eq_some_iff.mp hb
  refine ⟨b, ok, hfinish, ?_⟩
  by_contra hbig
  have hnone : epBufferNew mem (packChunk past b) (epPackSize b) = none :=
    Option.not_isSome_iff_eq_none.mp fun hsome => hbig ((epBufferNew_isSome_iff _ _ _).mp hsome)
  simp only [hnone, Prod.mk.injEq] at hpush
  exact hne hpush.1.symm

theorem epIoProcessor_allocatable {heap : ℕ → ℤ → UInt8} {σ : Type} {mgr : σ → EpIoMgr}
    {disp : σ → Category → ℤ → Option Bson → Option (σ × Option Bson)} {s s₁ s' : σ}
    {task : EpIoTask} {pack : Bson} {frame : List UInt8}
    (hdisp : ∀ p, disp s ⟨task.shell.proto.category⟩ task.fd p = some (s₁, some pack))
    (h : epIoProcessor aes bz heap mgr disp s task = some (s', some frame)) :
    ∃ b ok, bsonFinish pack = some (b, ok) ∧ Allocatable (epPackSize b) := by
  unfold epIoProcessor at h
  split at h
  · cases h
  · cases h
  · simp only [hdisp] at h
    split at h
    · cases h
    · next b ok hfinish =>
      refine ⟨b, ok, hfinish, ?_⟩
      split_ifs at h
      · cases h
      · obtain ⟨-, hreply⟩ := Prod.mk.inj (Option.some.inj h)
        unfold taskReply at hreply
        dsimp only at hreply
        split_ifs at hreply
        · cases hreply
        · obtain ⟨buffer, hbuffer, -⟩ := Option.bind_eq_some_iff.mp hreply
          exact allocatable_of_epBufferNew2 hbuffer

end Senders

/-! ## A string that was refused -/

theorem not_clean_or {e e' : BitVec 8} (h : ¬ Clean e ∨ ¬ Clean e') : ¬ Clean (e ||| e') := by
  intro hc
  unfold Clean at *
  rw [BitVec.and_or_distrib_right] at hc
  obtain ⟨hleft, hright⟩ := BitVec.or_eq_zero_iff.mp hc
  exact h.elim (· hleft) (· hright)

/-- The bit of a refused string stays. -/
theorem validateSequences_stains (checkDot : Bool) (fuel : ℕ) (s : List UInt8) (err : BitVec 8)
    (h : ¬ Clean err ∨ (validateSequences checkDot fuel s err).2 = false) :
    ¬ Clean (validateSequences checkDot fuel s err).1 := by
  have hbit : ¬ Clean bsonNotUtf8 := by decide
  induction fuel generalizing s err with
  | zero => exact h.resolve_right (by simp [validateSequences])
  | succ fuel ih =>
    cases s with
    | nil => exact h.resolve_right (by simp [validateSequences])
    | cons c rest =>
      have hdot : ¬ Clean err →
          ¬ Clean (if checkDot && c = 0x2E then err ||| bsonFieldHasDot else err) := by
        intro hno
        split_ifs
        · exact not_clean_or (.inl hno)
        · exact hno
      simp only [validateSequences] at h ⊢
      generalize (if checkDot && c = 0x2E then err ||| bsonFieldHasDot else err) = e at h hdot ⊢
      split_ifs at h ⊢
      · exact not_clean_or (.inr hbit)
      · exact not_clean_or (.inr hbit)
      · exact ih _ _ (h.imp_left hdot)

theorem bsonValidateString_stains (err : BitVec 8) (s : List UInt8) (checkDot checkDollar : Bool)
    (h : ¬ Clean err ∨ ¬ ValidUtf8 s) :
    ¬ Clean (bsonValidateString err s checkDot checkDollar).1 := by
  unfold bsonValidateString
  refine validateSequences_stains _ _ _ _ (h.imp (fun hno => ?_) fun hinvalid => ?_)
  · split_ifs
    · exact not_clean_or (.inl hno)
    · exact hno
  · rw [(validateSequences_spec checkDot s.length s _ 0).1]
    exact Bool.eq_false_iff.mpr hinvalid

section Stained

variable {b : Bson} (hb : b.Roomy)

include hb

theorem bsonAppendEstart_stains (t : UInt8) (name : CString) {n : ℕ}
    (hroom : (bsonGrow b.data.length b.dataSize (1 + (name.bytes.length + 1) + n)).isSome)
    (hno : ¬ Clean b.err) : ¬ Clean (bsonAppendEstart b t name n).1.err := by
  obtain ⟨size, hgrow, henough⟩ | ⟨hgrow, -⟩ :=
    bsonEnsureSpace_spec b (1 + (name.bytes.length + 1) + n)
  · have hcheck := bsonValidateString_stains b.err name.bytes true true (.inl hno)
    simp only [bsonAppendEstart, hb.unfinished, Bool.false_eq_true, if_false, henough]
    split_ifs <;> exact hcheck
  · rw [hgrow] at hroom
    cases hroom

theorem bsonAppendValue_stains (t : UInt8) (name : CString) {v : List UInt8}
    (hroom : (bsonGrow b.data.length b.dataSize
      (1 + (name.bytes.length + 1) + v.length)).isSome)
    (hno : ¬ Clean b.err) : ¬ Clean (bsonAppendValue b t name v).1.err := by
  have hstart := bsonAppendEstart_stains hb t name hroom hno
  unfold bsonAppendValue
  generalize bsonAppendEstart b t name v.length = r at hstart ⊢
  obtain ⟨b', _ | _⟩ := r <;> exact hstart

/-- A string that is not valid leaves its bit, and no later call that has room clears it. -/
theorem PackOp.apply_stains {op : PackOp}
    (hroom : (bsonGrow b.data.length b.dataSize op.need).isSome)
    (hopen : (∃ kind, op = .finish kind) → ∃ start stack, b.stack = start :: stack ∧ 4 ≤ start)
    (hno : ¬ Clean b.err ∨ ¬ op.ValueOk) : ¬ Clean (op.apply b).1.err := by
  cases op with
  | string name data =>
    obtain ⟨size, hsize⟩ := Option.isSome_iff_exists.mp hroom
    obtain ⟨hfit, -, hle⟩ := bsonGrow_eq_some hsize hb.room hb.size_le
    have hshort : ¬ data.bytes.length + 1 > int32Max := by
      simp only [PackOp.need, PackOp.element, List.length_append, length_leBytes,
        List.length_singleton] at hfit
      omega
    have hcheck : ¬ Clean (bsonCheckString b.err data.bytes).1 :=
      bsonValidateString_stains b.err data.bytes false false hno
    simp only [PackOp.apply, bsonAppendString, if_neg hshort]
    generalize bsonCheckString b.err data.bytes = check at hcheck ⊢
    have hroomy : ({ b with err := check.1 } : Bson).Roomy := ⟨hb.unfinished, hb.room, hb.size_le⟩
    split_ifs
    · exact bsonAppendValue_stains hroomy _ _ hroom hcheck
    · exact hcheck
  | binary name data | bool name value | int name value | long name value | double name value =>
    exact bsonAppendValue_stains hb _ _ hroom (hno.resolve_right (not_not_intro trivial))
  | start kind name =>
    have hstart : ¬ Clean (bsonAppendStart b kind.type name).1.err := by
      have hestart := bsonAppendEstart_stains hb kind.type name hroom
        (hno.resolve_right (not_not_intro trivial))
      unfold bsonAppendStart
      generalize bsonAppendEstart b kind.type name 5 = r at hestart ⊢
      obtain ⟨b', _ | _⟩ := r <;> exact hestart
    cases kind <;> exact hstart
  | finish kind =>
    obtain ⟨start, stack, hs, hpos⟩ := hopen ⟨kind, rfl⟩
    have hfinish : ¬ Clean (bsonAppendFinishObject b).1.err := by
      obtain ⟨size, hgrow, henough⟩ | ⟨hgrow, -⟩ := bsonEnsureSpace_spec b 1
      · obtain ⟨hfit, -, hle⟩ := bsonGrow_eq_some hgrow hb.room hb.size_le
        have hsmall : ¬ (b.data ++ [0]).length - start ≥ int32Max := by
          simp only [List.length_append, List.length_singleton]
          unfold int32Max at *
          omega
        simp only [bsonAppendFinishObject, hs, henough, if_neg hsmall]
        exact hno.resolve_right (not_not_intro trivial)
      · simp [PackOp.need, PackOp.element, hgrow] at hroom
    cases kind <;> exact hfinish

end Stained

theorem depthStep_of_nestStep {ks ks' : List PackKind} {op : PackOp}
    (h : nestStep ks op = some ks') : depthStep ks.length op = some ks'.length := by
  cases op with
  | finish kind =>
    cases ks with
    | nil => cases h
    | cons k ks =>
      simp only [nestStep] at h
      split_ifs at h
      simpa [depthStep] using congrArg List.length (Option.some.inj h)
  | start kind name => simpa [depthStep] using congrArg List.length (Option.some.inj h)
  | _ => simpa [depthStep] using congrArg List.length (Option.some.inj h)

theorem depthAll_of_nest {ks ks' : List PackKind} {ops : List PackOp} (h : nest ks ops = some ks') :
    depthAll ks.length ops = some ks'.length := by
  induction ops generalizing ks with
  | nil => rw [depthAll, Option.some.inj h]
  | cons op ops ih =>
    obtain ⟨ks₁, hstep, hrest⟩ := Option.bind_eq_some_iff.mp h
    rw [depthAll, depthStep_of_nestStep hstep, Option.bind_some, ih hrest]

theorem Building.exists_open {junk : List UInt8} (hj : junk.length = 4) {b : Bson}
    {ks ks' : List PackKind} {pre : List PackOp} (h : Building junk b ks pre) {kind : PackKind}
    (hstep : nestStep ks (.finish kind) = some ks') :
    ∃ start stack, b.stack = start :: stack ∧ 4 ≤ start := by
  have hdoc := h.doc
  cases hstack : b.stack with
  | nil =>
    have hkinds := hdoc.length_kinds
    rw [hstack, List.length_nil, List.length_eq_zero_iff] at hkinds
    rw [hkinds] at hstep
    cases hstep
  | cons start stack =>
    rw [hstack] at hdoc
    exact ⟨start, stack, rfl, hj ▸ hdoc.start_bounds.1⟩

/-- Only a string can be refused for its value, and it opens and closes nothing. -/
theorem nestStep_of_invalid {op : PackOp} (h : ¬ op.ValueOk) (ks : List PackKind) :
    nestStep ks op = some ks := by
  cases op with
  | string name data => rfl
  | _ => exact absurd trivial h

/-- In a packet that would fit, a refused string is remembered to the end. -/
theorem packAppend_stains {junk : List UInt8} (hj : junk.length = 4) {ops : List PackOp} {b : Bson}
    {ks ks' : List PackKind} {pre : List PackOp} (h : Building junk b ks pre)
    (hkeys : ∀ op ∈ ops, op.KeyOk) (hn : nest ks ops = some ks') {total : ℕ}
    (htotal : 3 * total ≤ int32Max) (hlen : b.data.length + packBytes ops + 1 ≤ total)
    (hno : ¬ Clean b.err ∨ ∃ op ∈ ops, ¬ op.ValueOk) : ¬ Clean (packAppend b ops).err := by
  induction ops generalizing b ks pre with
  | nil => simpa [packAppend] using hno
  | cons op ops ih =>
    rw [List.forall_mem_cons] at hkeys
    obtain ⟨ks₁, hstep, hrest⟩ := Option.bind_eq_some_iff.mp hn
    have hneed := op.need_le
    have hbytes : packBytes (op :: ops) = op.size + packBytes ops := by simp [packBytes]
    have hroom : (bsonGrow b.data.length b.dataSize op.need).isSome :=
      bsonGrow_isSome htotal (by omega)
    have hopen : (∃ kind, op = .finish kind) →
        ∃ start stack, b.stack = start :: stack ∧ 4 ≤ start := by
      rintro ⟨kind, rfl⟩
      exact h.exists_open hj hstep
    have hstain := op.apply_stains h.roomy hroom hopen
    have hcons : packAppend b (op :: ops) = packAppend (op.apply b).1 ops := by simp [packAppend]
    rw [hcons]
    have hno' : ¬ Clean (op.apply b).1.err ∨ ∃ op ∈ ops, ¬ op.ValueOk := by
      rw [List.exists_mem_cons_iff, ← or_assoc] at hno
      exact hno.imp_left hstain
    obtain ⟨b', op', ks₂, hb', htook⟩ | ⟨b', hb', hbuild, hwhy⟩ := h.outcome hj op
    · obtain ⟨rfl, rfl⟩ := htook.nested _ hstep
      have hlength : b'.data.length + packBytes ops + 1 ≤ total := by
        rw [htook.length]
        omega
      rw [hb'] at hno' ⊢
      exact ih htook.building hkeys.2 hrest hlength hno'
    · have hvalue : ¬ op.ValueOk := by
        intro hvalue
        rw [hwhy hkeys.1 hvalue (by rw [hstep]; rfl)] at hroom
        cases hroom
      obtain rfl : ks = ks₁ := Option.some.inj ((nestStep_of_invalid hvalue ks).symm.trans hstep)
      have hlength : b'.data.length + packBytes ops + 1 ≤ total := by
        rw [hbuild.length_eq, ← h.length_eq]
        omega
      rw [hb'] at hno' ⊢
      exact ih hbuild hkeys.2 hrest hlength hno'

/-! ## When a packet is never partial -/

section Condition

variable {junk : List UInt8} (hj : junk.length = 4) {ops : List PackOp}

include hj

theorem NoBuffer.neverPartial (hno : NoBuffer junk (packAppend (bsonInit junk) ops)) :
    NeverPartial junk ops where
  buffer past mem buffer h := absurd h (hno.packBuffer_ne hj past mem buffer)
  request aes bz heap client client' param id frame hpack h := by
    obtain ⟨b, ok, hfinish, hfits⟩ := epReqNew_allocatable hpack h
    exact absurd hfits (hno.not_allocatable hj hfinish)
  push aes bz past mem fresh m m' fd notifyType param count hpack h hne := by
    obtain ⟨b, ok, hfinish, hfits⟩ := servicePushPack_allocatable hpack h hne
    exact absurd hfits (hno.not_allocatable hj hfinish)
  reply aes bz heap mgr disp s s₁ s' task frame hdisp h := by
    obtain ⟨b, ok, hfinish, hfits⟩ := epIoProcessor_allocatable hdisp h
    exact absurd hfits (hno.not_allocatable hj hfinish)

theorem Encodable.neverPartial (henc : Encodable ops) : NeverPartial junk ops where
  buffer _ _ _ h := henc.complete hj h
  request _ _ _ _ _ _ _ _ _ _ := henc
  push _ _ _ _ _ _ _ _ _ _ _ _ _ _ := henc
  reply _ _ _ _ _ _ _ _ _ _ _ _ := henc

theorem neverPartial_iff_noBuffer :
    NeverPartial junk ops ↔
      Encodable ops ∨ NoBuffer junk (packAppend (bsonInit junk) ops) := by
  constructor
  · intro h
    by_contra hneither
    obtain ⟨henc, hno⟩ := not_or.mp hneither
    obtain ⟨past, mem, buffer, hbuffer, hpartial⟩ := exists_partial hj henc hno
    exact hpartial (h.buffer past mem buffer hbuffer)
  · rintro (henc | hno)
    · exact henc.neverPartial hj
    · exact hno.neverPartial hj

/-- The packets of the program: every key is valid, every sub-document is closed, and the
library could hold the document. -/
structure Ordinary (ops : List PackOp) : Prop where
  keys : ∀ op ∈ ops, op.KeyOk
  nested : WellNested ops
  small : 3 * packTotal ops ≤ int32Max

omit hj in
theorem Ordinary.encodable_iff (h : Ordinary ops) :
    Encodable ops ↔ ∀ op ∈ ops, op.ValueOk := by
  constructor
  · exact fun henc op hop => (henc.valid op hop).2
  · exact fun hvalues => ⟨fun op hop => ⟨h.keys op hop, hvalues op hop⟩, depthAll_of_nest h.nested,
      fits_of_small h.small⟩

theorem Ordinary.neverPartial_iff_valueOk (h : Ordinary ops) :
    NeverPartial junk ops ↔ (∀ op ∈ ops, op.ValueOk) ∨ ¬ Allocatable (sizeWord junk) := by
  rw [neverPartial_iff_noBuffer hj, h.encodable_iff]
  by_cases hvalues : ∀ op ∈ ops, op.ValueOk
  · exact iff_of_true (.inl hvalues) (.inl hvalues)
  · have hstart := bsonInit_building hj
    have hlen : (bsonInit junk).data.length = 4 := by simp [bsonInit, hj]
    have hinvalid : ∃ op ∈ ops, ¬ op.ValueOk := by simpa using hvalues
    have hstained : ¬ Clean (packAppend (bsonInit junk) ops).err :=
      packAppend_stains hj hstart h.keys h.nested h.small (by rw [hlen, packTotal]) (.inr hinvalid)
    obtain ⟨ks, eff, hbuild, -, -⟩ := building_packAppend hj ops
    have hgives : GivesUp (packAppend (bsonInit junk) ops) :=
      ⟨hbuild.roomy.unfinished, fun h => hstained h.1, fun h => hstained h.clean⟩
    refine or_congr_right ⟨?_, fun hbig => .inr (.inr ⟨hgives, hbig⟩)⟩
    rintro (hexit | hfin | ⟨-, hbig⟩)
    · exact absurd hexit.1 hstained
    · exact absurd hfin.1.clean hstained
    · exact hbig

end Condition

/-- A packet that cannot be encoded is never sent if and only if no buffer is made of it: the
process exits, or the size that the senders see is none that can be allocated. For the
packets of the program this asks for valid strings, or for such a size in the heap. -/
theorem neverPartial_iff (junk : List UInt8) (hj : junk.length = 4) (ops : List PackOp) :
    (NeverPartial junk ops ↔
      Encodable ops ∨ NoBuffer junk (packAppend (bsonInit junk) ops)) ∧
    (Ordinary ops →
      (NeverPartial junk ops ↔ (∀ op ∈ ops, op.ValueOk) ∨ ¬ Allocatable (sizeWord junk))) :=
  ⟨neverPartial_iff_noBuffer hj, fun h => h.neverPartial_iff_valueOk hj⟩

/-- A request with one string, under the key `k`, neither compressed nor encrypted. The heap
held a 22 where the size goes. -/
def stringOps (data : CString) : List PackOp := [.string ⟨[0x6B], by simp⟩ data]

def stringRequest (data : CString) : ReqParam Bson :=
  ⟨7, reqTypeGet, cryptTypeNone, compressTypeNone, cryptTypeNone, compressTypeNone,
    some (packAppend (bsonInit [22, 0, 0, 0]) (stringOps data))⟩

theorem neverPartial_hello :
    NeverPartial [22, 0, 0, 0] (stringOps ⟨[0x68, 0x65, 0x6C, 0x6C, 0x6F], by simp⟩) :=
  ((neverPartial_iff [22, 0, 0, 0] rfl _).2 ⟨by decide, by decide, by decide⟩).mpr
    (.inl (by decide))

/-- A name that was cut in the middle of its last letter: `bson_finish` gives up, and a frame
of the 22 bytes is queued. -/
theorem cutName_sent :
    (∃ client id frame, (EpClient.start 4 4096 4096 5).epReqNew fipsAes storedBz2 (fun _ _ => 0)
      (stringRequest ⟨[0x63, 0x61, 0x66, 0xC3], by simp⟩) = some (client, some (id, frame)) ∧
      frame.length = sizeofEpShell + 22) ∧
    ¬ NeverPartial [22, 0, 0, 0] (stringOps ⟨[0x63, 0x61, 0x66, 0xC3], by simp⟩) := by
  have hsent : (((EpClient.start 4 4096 4096 5).epReqNew fipsAes storedBz2 (fun _ _ => 0)
      (stringRequest ⟨[0x63, 0x61, 0x66, 0xC3], by simp⟩)).bind (·.2)).map (·.2.length) =
        some (sizeofEpShell + 22) := by decide
  obtain ⟨⟨id, frame⟩, hrequest, hlen⟩ := Option.map_eq_some_iff.mp hsent
  obtain ⟨⟨client, request⟩, hnew, hsome⟩ := Option.bind_eq_some_iff.mp hrequest
  simp only at hsome
  subst hsome
  refine ⟨⟨client, id, frame, hnew, hlen⟩, fun hnever => ?_⟩
  have henc := hnever.request _ _ _ _ _ _ _ _ rfl hnew
  exact absurd (henc.valid _ (by simp [stringOps]; rfl)).2 (by decide)

end Youmenu.Eventpack
