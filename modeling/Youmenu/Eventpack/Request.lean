import Youmenu.Lib.Transition
import Mathlib.Algebra.Order.Ring.Int
import Mathlib.Tactic.Common

/-!
# Requests: `ep_request.c` and `ep_dispatch.c`

One client and one server over a connection that keeps the order of messages. A
message has the category of its request and no number, so the client finds the
handle of a response in its dispatch table alone.

## Main definitions

* `epDispAddCb`, `epDispDel`, `epDispProcessor` — the dispatch table.
* `epReqNew`, `epReqWait`, `epReqDestroy` — the client's calls.
* `Link`, `step` — the client, the server and what is on its way between them.
* `Correlated` — everything of a category belongs to one request.
-/

namespace Youmenu.Eventpack

open Transition

/-! ## The source -/

/-- `ep_categroy_t`. -/
abbrev Category := UInt16

/-- `ep_req_type`. -/
inductive ReqType where
  | get
  | post
deriving DecidableEq

/-- `struct ep_req`. `id` says which request this is; the source has no such number. -/
structure EpReq (Pack : Type*) where
  id : ℕ
  category : Category
  req : ReqType
  packQueue : List Pack

/-- `ep_disp_t` with `ep_req_default_dispatcher` as its callback and the handle
that is passed to it. -/
structure EpDisp where
  category : Category
  handle : ℕ

/-- The fields of `ep_req_param_t` that decide what happens. -/
structure EpReqParam where
  category : Category
  type : ReqType
  packSize : ℤ

structure Request where
  id : ℕ
  category : Category
  type : ReqType

structure Response (Pack : Type*) where
  category : Category
  pack : Pack

/-- `requests` are on their way to the server or in its pool, `responses` on their
way back or in the client's pool, oldest first. `answers` keeps what the server's
handlers produced for each request. -/
structure Link (Pack : Type*) where
  dispList : List EpDisp
  handles : List (EpReq Pack)
  fresh : ℕ
  ioMaxCapacity : ℤ
  requests : List Request
  responses : List (Response Pack)
  answers : List (ℕ × Pack)

variable {Pack : Type*}

def epDispCount (dispList : List EpDisp) (category : Category) : ℕ :=
  dispList.countP (·.category = category)

/-- `none` if the category is taken. -/
def epDispAddCb (dispList : List EpDisp) (category : Category) (handle : ℕ) :
    Option (List EpDisp) :=
  if epDispCount dispList category ≥ 1 then none else some (⟨category, handle⟩ :: dispList)

def epDispDel (dispList : List EpDisp) (category : Category) : List EpDisp :=
  dispList.filter (·.category ≠ category)

def epReqDefaultDispatcher (handles : List (EpReq Pack)) (handle : ℕ) (pack : Pack) :
    List (EpReq Pack) :=
  handles.map fun h => if h.id = handle then { h with packQueue := h.packQueue ++ [pack] } else h

/-- A pack of a category that is not in the table is dropped. -/
def epDispProcessor (l : Link Pack) (category : Category) (pack : Pack) : List (EpReq Pack) :=
  match l.dispList.find? (·.category = category) with
  | some d => epReqDefaultDispatcher l.handles d.handle pack
  | none => l.handles

inductive EpReqNewResult where
  | ok
  | socketError
  | notFreed
deriving DecidableEq

/-- The type of the request goes into the message but not into the handle. -/
def epReqNew (l : Link Pack) (param : EpReqParam) : Link Pack × EpReqNewResult :=
  if param.packSize > l.ioMaxCapacity then (l, .socketError)
  else
    match epDispAddCb l.dispList param.category l.fresh with
    | none => (l, .notFreed)
    | some dispList =>
      ({ l with dispList := dispList
                handles := ⟨l.fresh, param.category, .get, []⟩ :: l.handles
                fresh := l.fresh + 1
                requests := l.requests ++ [⟨l.fresh, param.category, param.type⟩] }, .ok)

/-- What the call returns, the pack, and the handle afterwards. -/
def epReqWait (h : EpReq Pack) : ℕ × Option Pack × EpReq Pack :=
  if h.req = .post then (2, none, h)
  else
    match h.packQueue with
    | pack :: packQueue => (1, some pack, { h with packQueue := packQueue })
    | [] => (0, none, h)

def epReqDestroy (l : Link Pack) (h : EpReq Pack) : Link Pack :=
  { l with dispList := epDispDel l.dispList h.category
           handles := l.handles.filter (·.id ≠ h.id) }

/-- The server's `ep_io_processor`, with what the handler returned. -/
def Link.serve (l : Link Pack) (r : Request) : Option Pack → Link Pack
  | none => l
  | some pack =>
    let l := { l with answers := (r.id, pack) :: l.answers }
    match r.type with
    | .post => l
    | .get => { l with responses := l.responses ++ [⟨r.category, pack⟩] }

inductive Link.Event (Pack : Type*) where
  | new (param : EpReqParam)
  | wait (id : ℕ)
  | destroy (id : ℕ)
  /-- Some worker of the server finishes the request at a position. -/
  | serve (i : ℕ) (pack : Option Pack)
  /-- The client's only worker takes the next response. -/
  | deliver
  /-- It gives up on a response that it cannot decode. -/
  | discard

def Link.step (l : Link Pack) : Link.Event Pack → Option (Link Pack)
  | .new param => some (epReqNew l param).1
  | .wait id =>
    (l.handles.find? (·.id = id)).map fun h =>
      { l with handles := l.handles.map fun h' => if h'.id = id then (epReqWait h).2.2 else h' }
  | .destroy id => (l.handles.find? (·.id = id)).map (epReqDestroy l)
  | .serve i pack =>
    l.requests[i]?.map fun r => { l with requests := l.requests.eraseIdx i }.serve r pack
  | .deliver =>
    match l.responses with
    | [] => none
    | r :: responses =>
      some { l with responses := responses, handles := epDispProcessor l r.category r.pack }
  | .discard =>
    match l.responses with
    | [] => none
    | _ :: responses => some { l with responses := responses }

/-- A connection on which nothing was requested yet. -/
def Link.start (ioMaxCapacity : ℤ) : Link Pack := ⟨[], [], 0, ioMaxCapacity, [], [], []⟩

/-! ## Whose response it is -/

/-- Whenever `ep_req_wait` on a handle returns 1, the pack is what the server's
handler produced for the request of that handle. -/
def WaitsForOwn (l : Link Pack) : Prop :=
  ∀ h ∈ l.handles, ∀ pack h', epReqWait h = (1, some pack, h') → (h.id, pack) ∈ l.answers

/-- A request or a response of the category is still on its way. -/
def InFlight (l : Link Pack) (category : Category) : Prop :=
  (∃ r ∈ l.requests, r.category = category) ∨ ∃ r ∈ l.responses, r.category = category

/-- A new request is only made for a category that has nothing on its way. -/
def Quiet (l : Link Pack) : Link.Event Pack → Prop
  | .new param => param.packSize ≤ l.ioMaxCapacity → epDispCount l.dispList param.category = 0 →
      ¬ InFlight l param.category
  | _ => True

instance (l : Link Pack) (category : Category) : Decidable (InFlight l category) :=
  inferInstanceAs (Decidable (_ ∨ _))

instance (l : Link Pack) : DecidablePred (Quiet l)
  | .new _ => inferInstanceAs (Decidable (_ → _ → ¬ _))
  | .wait _ | .destroy _ | .serve _ _ | .deliver | .discard => .isTrue trivial

/-- Everything of a category that is on its way belongs to the request `id`, and so
does the entry of the table. -/
structure Belongs (l : Link Pack) (category : Category) (id : ℕ) : Prop where
  requests : ∀ r ∈ l.requests, r.category = category → r.id = id
  responses : ∀ r ∈ l.responses, r.category = category → (id, r.pack) ∈ l.answers
  handle : ∀ d ∈ l.dispList, d.category = category → d.handle = id

structure Correlated (l : Link Pack) : Prop where
  belongs : ∀ category, ∃ id, Belongs l category id
  queues : ∀ h ∈ l.handles, ∀ pack ∈ h.packQueue, (h.id, pack) ∈ l.answers

theorem Correlated.start (ioMaxCapacity : ℤ) : Correlated (Link.start ioMaxCapacity : Link Pack) :=
  ⟨fun _ => ⟨0, by simp [Link.start], by simp [Link.start], by simp [Link.start]⟩,
    by simp [Link.start]⟩

theorem Correlated.waitsForOwn {l : Link Pack} (h : Correlated l) : WaitsForOwn l := by
  intro handle hmem pack h' hwait
  refine h.queues handle hmem pack ?_
  unfold epReqWait at hwait
  split_ifs at hwait
  · cases hwait
  · split at hwait
    · next p rest hq =>
      cases hwait
      simp [hq]
    · cases hwait

theorem epDispCount_eq_zero {dispList : List EpDisp} {category : Category} :
    epDispCount dispList category = 0 ↔ ∀ d ∈ dispList, d.category ≠ category := by
  simp [epDispCount, List.countP_eq_zero]

section Steps

variable {l : Link Pack}

theorem Correlated.new (h : Correlated l) {param : EpReqParam} (hquiet : Quiet l (.new param)) :
    Correlated (epReqNew l param).1 := by
  unfold epReqNew epDispAddCb
  split_ifs with hsize hcount
  · exact h
  · exact h
  have hnone : ¬ InFlight l param.category := hquiet (by omega) (by omega)
  refine ⟨fun category => ?_, ?_⟩
  · by_cases hc : category = param.category
    · -- the new request is the only one of its category
      subst hc
      refine ⟨l.fresh, ?_, ?_, ?_⟩
      · intro r hr hcat
        rcases List.mem_append.mp hr with hr | hr
        · exact (hnone (.inl ⟨r, hr, hcat⟩)).elim
        · rw [List.mem_singleton.mp hr]
      · exact fun r hr hcat => (hnone (.inr ⟨r, hr, hcat⟩)).elim
      · intro d hd hcat
        rcases List.mem_cons.mp hd with rfl | hd
        · rfl
        · exact (epDispCount_eq_zero.mp (by omega) d hd hcat).elim
    · obtain ⟨id, hb⟩ := h.belongs category
      refine ⟨id, ?_, hb.responses, ?_⟩
      · intro r hr hcat
        rcases List.mem_append.mp hr with hr | hr
        · exact hb.requests r hr hcat
        · rw [List.mem_singleton.mp hr] at hcat
          exact (hc hcat.symm).elim
      · intro d hd hcat
        rcases List.mem_cons.mp hd with rfl | hd
        · exact (hc hcat.symm).elim
        · exact hb.handle d hd hcat
  · simp only [List.mem_cons, forall_eq_or_imp, List.not_mem_nil, false_imp_iff, implies_true,
      true_and]
    exact h.queues

/-- Taking packs out of queues keeps them where they belong. -/
theorem Correlated.queues_subset (h : Correlated l) {f : EpReq Pack → EpReq Pack}
    (hf : ∀ r ∈ l.handles, (f r).id = r.id ∧ ∀ pack ∈ (f r).packQueue, (r.id, pack) ∈ l.answers) :
    Correlated { l with handles := l.handles.map f } := by
  refine ⟨fun category => ?_, ?_⟩
  · obtain ⟨id, hb⟩ := h.belongs category
    exact ⟨id, hb.requests, hb.responses, hb.handle⟩
  · intro r hr pack hpack
    obtain ⟨r₀, hr₀, rfl⟩ := List.mem_map.mp hr
    obtain ⟨hid, hqueue⟩ := hf r₀ hr₀
    rw [hid]
    exact hqueue pack hpack

@[simp] theorem epReqWait_id (r : EpReq Pack) : (epReqWait r).2.2.id = r.id := by
  unfold epReqWait
  split_ifs
  · rfl
  · split <;> rfl

theorem mem_of_mem_epReqWait {r : EpReq Pack} {pack : Pack}
    (h : pack ∈ (epReqWait r).2.2.packQueue) : pack ∈ r.packQueue := by
  unfold epReqWait at h
  split_ifs at h
  · exact h
  · split at h
    · next p rest hq =>
      rw [hq]
      exact List.mem_cons_of_mem _ h
    · exact h

theorem Correlated.wait (h : Correlated l) {id : ℕ} {r : EpReq Pack}
    (hr : l.handles.find? (·.id = id) = some r) :
    Correlated { l with handles := l.handles.map fun r' =>
      if r'.id = id then (epReqWait r).2.2 else r' } := by
  have hid : r.id = id := by simpa using List.find?_some hr
  refine h.queues_subset fun r' hr' => ?_
  split_ifs with heq
  · refine ⟨by simp [hid, heq], fun pack hpack => ?_⟩
    rw [heq, ← hid]
    exact h.queues r (List.mem_of_find?_eq_some hr) pack (mem_of_mem_epReqWait hpack)
  · exact ⟨rfl, h.queues r' hr'⟩

theorem Correlated.destroy (h : Correlated l) (r : EpReq Pack) : Correlated (epReqDestroy l r) := by
  refine ⟨fun category => ?_, ?_⟩
  · obtain ⟨id, hb⟩ := h.belongs category
    exact ⟨id, hb.requests, hb.responses, fun d hd => hb.handle d (List.mem_filter.mp hd).1⟩
  · exact fun r' hr' => h.queues r' (List.mem_filter.mp hr').1

theorem Correlated.serve (h : Correlated l) {i : ℕ} {r : Request} (hr : l.requests[i]? = some r)
    (pack : Option Pack) :
    Correlated ({ l with requests := l.requests.eraseIdx i }.serve r pack) := by
  have hmem : r ∈ l.requests := List.mem_of_getElem? hr
  have herase : ∀ {r'}, r' ∈ l.requests.eraseIdx i → r' ∈ l.requests := List.mem_of_mem_eraseIdx
  cases pack with
  | none =>
    refine ⟨fun category => ?_, h.queues⟩
    obtain ⟨id, hb⟩ := h.belongs category
    exact ⟨id, fun r' hr' => hb.requests r' (herase hr'), hb.responses, hb.handle⟩
  | some pack =>
    have hqueues : ∀ h ∈ l.handles, ∀ p ∈ h.packQueue, (h.id, p) ∈ (r.id, pack) :: l.answers :=
      fun handle hh p hp => List.mem_cons_of_mem _ (h.queues handle hh p hp)
    cases htype : r.type with
    | post =>
      simp only [Link.serve, htype]
      refine ⟨fun category => ?_, hqueues⟩
      obtain ⟨id, hb⟩ := h.belongs category
      exact ⟨id, fun r' hr' => hb.requests r' (herase hr'),
        fun r' hr' hcat => List.mem_cons_of_mem _ (hb.responses r' hr' hcat), hb.handle⟩
    | get =>
      simp only [Link.serve, htype]
      refine ⟨fun category => ?_, hqueues⟩
      obtain ⟨id, hb⟩ := h.belongs category
      refine ⟨id, fun r' hr' => hb.requests r' (herase hr'), ?_, hb.handle⟩
      intro r' hr' hcat
      rcases List.mem_append.mp hr' with hr' | hr'
      · exact List.mem_cons_of_mem _ (hb.responses r' hr' hcat)
      · rw [List.mem_singleton.mp hr'] at hcat ⊢
        rw [hb.requests r hmem hcat]
        exact List.mem_cons_self

theorem Correlated.deliver (h : Correlated l) {r : Response Pack} {responses : List (Response Pack)}
    (hr : l.responses = r :: responses) :
    Correlated { l with responses := responses, handles := epDispProcessor l r.category r.pack } := by
  have hrest : Correlated { l with responses := responses } := by
    refine ⟨fun category => ?_, h.queues⟩
    obtain ⟨id, hb⟩ := h.belongs category
    exact ⟨id, hb.requests, fun r' hr' => hb.responses r' (by simp [hr, hr']), hb.handle⟩
  unfold epDispProcessor
  split
  · next d hd =>
    -- the entry of the table and the response belong to the same request
    obtain ⟨id, hb⟩ := h.belongs r.category
    have hcat : d.category = r.category := by simpa using List.find?_some hd
    have hid : d.handle = id := hb.handle d (List.mem_of_find?_eq_some hd) hcat
    have hanswer : (id, r.pack) ∈ l.answers := hb.responses r (by simp [hr]) rfl
    refine hrest.queues_subset fun r' hr' => ?_
    split_ifs with heq
    · refine ⟨rfl, fun pack hpack => ?_⟩
      rcases List.mem_append.mp hpack with hpack | hpack
      · exact h.queues r' hr' pack hpack
      · rw [List.mem_singleton.mp hpack, heq, hid]
        exact hanswer
    · exact ⟨rfl, h.queues r' hr'⟩
  · exact hrest

theorem Correlated.step (h : Correlated l) {e : Link.Event Pack} {l' : Link Pack}
    (hquiet : Quiet l e) (hstep : l.step e = some l') : Correlated l' := by
  cases e with
  | new param =>
    obtain rfl := Option.some.inj hstep
    exact h.new hquiet
  | wait id =>
    obtain ⟨r, hr, rfl⟩ := Option.map_eq_some_iff.mp hstep
    exact h.wait hr
  | destroy id =>
    obtain ⟨r, hr, rfl⟩ := Option.map_eq_some_iff.mp hstep
    exact h.destroy r
  | serve i pack =>
    obtain ⟨r, hr, rfl⟩ := Option.map_eq_some_iff.mp hstep
    exact h.serve hr pack
  | deliver =>
    simp only [Link.step] at hstep
    split at hstep
    · cases hstep
    · next r responses hr =>
      obtain rfl := Option.some.inj hstep
      exact h.deliver hr
  | discard =>
    simp only [Link.step] at hstep
    split at hstep
    · cases hstep
    · next r responses hr =>
      obtain rfl := Option.some.inj hstep
      refine ⟨fun category => ?_, h.queues⟩
      obtain ⟨id, hb⟩ := h.belongs category
      exact ⟨id, hb.requests, fun r' hr' => hb.responses r' (by simp [hr, hr']), hb.handle⟩

end Steps

/-- If no request is made for a category that still has something on its way, every
wait gets the response to its own request. -/
theorem epReqWait_own (ioMaxCapacity : ℤ) {l : Link Pack}
    (h : Reaches Link.step Quiet (.start ioMaxCapacity) l) : WaitsForOwn l := by
  have hcorrelated : Correlated l :=
    h.invariant (P := Correlated) (.start _) fun hl hquiet hstep => hl.step hquiet hstep
  exact hcorrelated.waitsForOwn

/-- A request of category 1 that the server has answered with 7, after an earlier
one of category 2 timed out. -/
theorem epReqWait_own_answered :
    ∃ l : Link ℕ, Reaches Link.step Quiet (.start 4096) l ∧ l.handles = [⟨1, 1, .get, [7]⟩] ∧
      WaitsForOwn l := by
  have hrun : Reaches Link.step Quiet (.start 4096 : Link ℕ) _ := reaches_of_exec
    [.new ⟨2, .get, 10⟩, .wait 0, .destroy 0, .new ⟨1, .get, 10⟩, .serve 1 (some 7), .deliver] rfl
  exact ⟨_, hrun, rfl, epReqWait_own 4096 hrun⟩

/-- The first request of category 1 times out and is destroyed, the second is made,
and then the response to the first arrives: it goes to the second. -/
theorem epReqWait_late_response :
    ∃ l : Link ℕ, Reaches Link.step anyStep (.start 4096) l ∧ ¬ WaitsForOwn l := by
  refine ⟨⟨[⟨1, 1⟩], [⟨1, 1, .get, [7]⟩], 2, 4096, [⟨1, 1, .get⟩], [], [(0, 7)]⟩, ?_, ?_⟩
  · exact reaches_of_exec
      [.new ⟨1, .get, 10⟩, .wait 0, .destroy 0, .new ⟨1, .get, 10⟩, .serve 0 (some 7), .deliver] rfl
  · intro h
    have := h ⟨1, 1, .get, [7]⟩ (by simp) 7 ⟨1, 1, .get, []⟩ rfl
    simp at this

end Youmenu.Eventpack
