import Mathlib.Data.List.Nodup
import Youmenu.Eventpack.Request

/-!
# The dispatch table under concurrency and failure

`ep_disp_add_cb` counts the entries of its category and inserts its own, and takes the
lock of the table once for each; between the two anything can happen to the table.
`ep_req_new` registers its handle before it makes the frame and posts it, and
`ep_req_destroy` takes the entry out only while the client is connected.

Here an entry has its callback: the table of a client also holds what was registered
with `ep_client_register`.

## Main definitions

* `epDispCount`, `epDispDel` — the table.
* `DispSys.step` — any number of threads that add and delete.
* `DispSys.Exclusive` — additions of a category do not overlap.
* `Client.step` — requests that succeed and fail, and a disconnect.
* `Client.Mirrors` — the entries of the table are those of the outstanding requests.
-/

namespace Youmenu.Eventpack.Dispatch

open Transition

/-! ## The table -/

/-- The callback of an entry, with its argument. -/
inductive DispCb where
  | reqDefaultDispatcher (handle : ℕ)
  | other (opaque' : ℕ)
deriving DecidableEq

/-- `ep_disp_t`. -/
structure DispEntry where
  category : Category
  cb : DispCb
deriving DecidableEq

def epDispCount (dispList : List DispEntry) (category : Category) : ℕ :=
  dispList.countP (·.category = category)

/-- Every entry of the category is deleted. -/
def epDispDel (dispList : List DispEntry) (category : Category) : List DispEntry :=
  dispList.filter (·.category ≠ category)

/-! ## Concurrent additions -/

/-- The table, and the calls of `ep_disp_add_cb` that have counted none of their category
and have not inserted their entry yet, by the thread that makes them. -/
structure DispSys where
  dispList : List DispEntry
  inserting : List (ℕ × DispEntry)

def DispSys.start : DispSys := ⟨[], []⟩

inductive DispAct where
  /-- The thread calls `ep_disp_add_cb`, up to the end of `ep_disp_count`. -/
  | count (t : ℕ) (disp : DispEntry)
  /-- The thread has allocated its entry, which succeeds, and inserts it. -/
  | insert (t : ℕ)
  | del (t : ℕ) (category : Category)

/-- What a call of `ep_disp_add_cb` for a category returns. -/
structure DispMark where
  category : Category
  code : ℤ
deriving DecidableEq

namespace DispSys

variable (s : DispSys)

/-- The thread is in a call. -/
def Busy (t : ℕ) : Prop := ∃ p ∈ s.inserting, p.1 = t

instance (t : ℕ) : Decidable (s.Busy t) := inferInstanceAs (Decidable (∃ p ∈ s.inserting, _))

def step : DispAct → Option (DispSys × List DispMark)
  | .count t disp =>
    if s.Busy t then none
    else if epDispCount s.dispList disp.category ≥ 1 then some (s, [⟨disp.category, 0⟩])
    else some ({ s with inserting := s.inserting ++ [(t, disp)] }, [])
  | .insert t =>
    match s.inserting.find? fun p => p.1 = t with
    | none => none
    | some p =>
      some ({ dispList := p.2 :: s.dispList
              inserting := s.inserting.erase p }, [⟨p.2.category, 1⟩])
  | .del t category =>
    if s.Busy t then none else some ({ s with dispList := epDispDel s.dispList category }, [])

/-- How many calls for the category have not inserted their entry yet. -/
def pending (category : Category) : ℕ := s.inserting.countP (·.2.category = category)

end DispSys

/-- No call counts a category while another one is about to insert an entry of it. -/
def DispSys.Exclusive (s : DispSys × List DispMark) : DispAct → Prop
  | .count _ disp => s.1.pending disp.category = 0
  | _ => True

/-- No delete of the category. -/
def DispAct.Keeps (category : Category) : DispAct → Prop
  | .del _ category' => category' ≠ category
  | _ => True

instance (s : DispSys × List DispMark) : DecidablePred (DispSys.Exclusive s)
  | .count _ _ => inferInstanceAs (Decidable (_ = _))
  | .insert _ | .del _ _ => .isTrue trivial

/-- What the calls for a category have returned. -/
def answers (category : Category) (marks : List DispMark) : List ℤ :=
  (marks.filter (·.category = category)).map DispMark.code

section Additions

variable {s s' : DispSys} {new : List DispMark}

inductive DispStep (s : DispSys) : DispAct → DispSys → List DispMark → Prop
  | refuse {t : ℕ} {disp : DispEntry} (h : 1 ≤ epDispCount s.dispList disp.category) :
      DispStep s (.count t disp) s [⟨disp.category, 0⟩]
  | enter {t : ℕ} {disp : DispEntry} (h : epDispCount s.dispList disp.category = 0) :
      DispStep s (.count t disp) { s with inserting := s.inserting ++ [(t, disp)] } []
  | insert {t : ℕ} {p : ℕ × DispEntry} (h : p ∈ s.inserting) :
      DispStep s (.insert t) ⟨p.2 :: s.dispList, s.inserting.erase p⟩ [⟨p.2.category, 1⟩]
  | del {t : ℕ} {category : Category} :
      DispStep s (.del t category) { s with dispList := epDispDel s.dispList category } []

theorem DispSys.step_cases {act : DispAct} (h : s.step act = some (s', new)) :
    DispStep s act s' new := by
  cases act with
  | count t disp =>
    simp only [step] at h
    split_ifs at h with hbusy hcount <;> cases h
    · exact .refuse hcount
    · exact .enter (by omega)
  | insert t =>
    simp only [step] at h
    split at h <;> cases h
    next p hp => exact .insert (List.mem_of_find?_eq_some hp)
  | del t category =>
    simp only [step] at h
    split_ifs at h
    cases h
    exact .del

theorem epDispCount_cons (disp : DispEntry) (dispList : List DispEntry) (category : Category) :
    epDispCount (disp :: dispList) category =
      epDispCount dispList category + if disp.category = category then 1 else 0 := by
  simp [epDispCount, List.countP_cons]

theorem epDispCount_epDispDel (dispList : List DispEntry) (category category' : Category) :
    epDispCount (epDispDel dispList category') category =
      if category = category' then 0 else epDispCount dispList category := by
  rw [epDispCount, epDispDel, List.countP_filter]
  split_ifs with h
  · subst h
    simp
  · refine List.countP_congr fun disp _ => ?_
    simp only [decide_eq_true_eq, Bool.and_eq_true, ne_eq, and_iff_left_iff_imp]
    rintro rfl
    exact h

theorem DispSys.pending_erase {p : ℕ × DispEntry} (h : p ∈ s.inserting) (dispList : List DispEntry)
    (category : Category) :
    (⟨dispList, s.inserting.erase p⟩ : DispSys).pending category +
      (if p.2.category = category then 1 else 0) = s.pending category := by
  have hperm := (List.perm_cons_erase h).countP_eq (fun q => decide (q.2.category = category))
  rw [List.countP_cons] at hperm
  simpa [pending] using hperm.symm

/-- An entry that is there or about to be there is the only one of its category. -/
def DispSys.Single (s : DispSys) : Prop :=
  ∀ category, epDispCount s.dispList category + s.pending category ≤ 1

theorem DispSys.Single.step {w w' : List DispMark} {act : DispAct} (h : s.Single)
    (hok : DispSys.Exclusive (s, w) act) (hstep : s.step act = some (s', w')) : s'.Single := by
  intro category
  have hle := h category
  cases step_cases hstep with
  | refuse => exact hle
  | @enter t disp hcount =>
    have hpending : s.pending disp.category = 0 := hok
    by_cases hcat : disp.category = category
    · subst hcat
      simp only [pending, List.countP_append, List.countP_singleton, decide_true, if_true] at *
      omega
    · simpa [pending, hcat] using hle
  | @insert t p hmem =>
    rw [epDispCount_cons]
    have := pending_erase hmem (p.2 :: s.dispList) category
    omega
  | del =>
    rw [epDispCount_epDispDel]
    split_ifs
    · exact le_trans (by simp [pending]) hle
    · exact hle

theorem DispSys.Single.of_reaches {marks : List DispMark}
    (h : Reaches (traced DispSys.step) DispSys.Exclusive (DispSys.start, []) (s, marks)) :
    s.Single := by
  refine h.invariant (P := fun t => t.1.Single) (fun _ => Nat.zero_le 1) ?_
  rintro ⟨s, w⟩ act ⟨s', w'⟩ hsingle hok hstep
  obtain ⟨new, hreport, -⟩ := traced_eq_some.mp hstep
  exact DispSys.Single.step hsingle hok hreport

/-- Since the calls for the category began with none in the table, each 1 that they
returned is an entry, and a 0 was returned because of one. -/
structure DispSys.Counted (s : DispSys) (category : Category) (marks : List DispMark) : Prop where
  ones : (answers category marks).count 1 = epDispCount s.dispList category
  found : answers category marks ≠ [] → 1 ≤ epDispCount s.dispList category

theorem answers_append (category : Category) (marks new : List DispMark) :
    answers category (marks ++ new) = answers category marks ++ answers category new := by
  simp [answers]

theorem answers_singleton (category category' : Category) (code : ℤ) :
    answers category [⟨category', code⟩] = if category' = category then [code] else [] := by
  by_cases h : category' = category <;> simp [answers, h]

theorem DispSys.Counted.step {category : Category} {marks : List DispMark} {act : DispAct}
    (h : s.Counted category marks) (hok : act.Keeps category)
    (hstep : s.step act = some (s', new)) : s'.Counted category (marks ++ new) := by
  obtain ⟨hones, hfound⟩ := h
  cases step_cases hstep with
  | @refuse t disp hcount =>
    refine ⟨?_, ?_⟩
    · rw [answers_append, answers_singleton]
      split_ifs <;> simpa using hones
    · rw [answers_append, answers_singleton]
      split_ifs with hcat
      · exact fun _ => hcat ▸ hcount
      · simpa using hfound
  | enter => exact ⟨by simpa using hones, by simpa using hfound⟩
  | insert hmem =>
    refine ⟨?_, ?_⟩
    · rw [answers_append, answers_singleton, epDispCount_cons, ← hones]
      split_ifs <;> simp
    · rw [answers_append, answers_singleton, epDispCount_cons]
      split_ifs with hcat
      · exact fun _ => Nat.le_add_left 1 _
      · simpa using hfound
  | @del t category' =>
    have hkept := epDispCount_epDispDel s.dispList category category'
    rw [if_neg (Ne.symm hok)] at hkept
    refine ⟨?_, ?_⟩
    · rw [hkept]
      simpa using hones
    · rw [hkept]
      simpa using hfound

/-- If additions of a category do not overlap, there is at most one entry of each
category at every moment; and of all additions of a category that was free, with no
delete of it in between, exactly one returns 1. -/
theorem epDispAddCb_exclusive (s : DispSys) (marks : List DispMark)
    (h : Reaches (traced DispSys.step) DispSys.Exclusive (DispSys.start, []) (s, marks)) :
    (∀ category, epDispCount s.dispList category ≤ 1) ∧
    ∀ category s' marks', epDispCount s.dispList category = 0 →
      Reaches (traced DispSys.step) (fun t act => DispSys.Exclusive t act ∧ act.Keeps category)
        (s, []) (s', marks') →
      answers category marks' ≠ [] → (answers category marks').count 1 = 1 := by
  have hsingle := DispSys.Single.of_reaches h
  refine ⟨fun category => le_trans (Nat.le_add_right _ _) (hsingle category), ?_⟩
  intro category s' marks' hfree hrun hanswers
  obtain ⟨hsingle', hcounted⟩ : s'.Single ∧ s'.Counted category marks' := by
    refine hrun.invariant (P := fun t => t.1.Single ∧ t.1.Counted category t.2)
      ⟨hsingle, hfree.symm, nofun⟩ ?_
    rintro ⟨s, w⟩ act ⟨s', w'⟩ ⟨hs, hc⟩ ⟨hok, hkeeps⟩ hstep
    obtain ⟨new, hreport, rfl⟩ := traced_eq_some.mp hstep
    exact ⟨DispSys.Single.step hs hok hreport, hc.step hkeeps hreport⟩
  have hone := hcounted.found hanswers
  have hle := hsingle' category
  rw [hcounted.ones]
  omega

end Additions

instance (category : Category) : DecidablePred (DispAct.Keeps category)
  | .del _ _ => inferInstanceAs (Decidable (_ ≠ _))
  | .count _ _ | .insert _ => .isTrue trivial

/-- Two threads register the same category one after the other. -/
theorem epDispAddCb_exclusive_serial :
    ∃ s marks, Reaches (traced DispSys.step) (fun t act => DispSys.Exclusive t act ∧ act.Keeps 7)
        (DispSys.start, []) (s, marks) ∧
      answers 7 marks = [1, 0] ∧ (answers 7 marks).count 1 = 1 := by
  obtain ⟨-, hone⟩ := epDispAddCb_exclusive DispSys.start [] .refl
  have hrun : Reaches (traced DispSys.step) (fun t act => DispSys.Exclusive t act ∧ act.Keeps 7)
      (DispSys.start, []) _ :=
    reaches_of_exec [.count 0 ⟨7, .other 0⟩, .insert 0, .count 1 ⟨7, .other 1⟩] rfl
  exact ⟨_, _, hrun, rfl, hone 7 _ _ rfl hrun (by decide)⟩

/-- The two count before either inserts: both calls return 1, and both entries are in
the table. -/
theorem epDispAddCb_overlapping :
    ∃ s marks,
      Reaches (traced DispSys.step) (fun _ act => act.Keeps 7) (DispSys.start, []) (s, marks) ∧
      answers 7 marks = [1, 1] ∧ epDispCount s.dispList 7 = 2 :=
  ⟨_, _, reaches_of_exec [.count 0 ⟨7, .other 0⟩, .count 1 ⟨7, .other 1⟩, .insert 0, .insert 1] rfl,
    rfl, rfl⟩

/-! ## Requests of a client -/

/-- `struct ep_req`, as far as it matters here. -/
structure ReqHandle where
  id : ℕ
  category : Category
deriving DecidableEq

/-- `handles` are those that `ep_req_new` has returned and `ep_req_destroy` has not
destroyed; `fresh` is the next one. -/
structure Client where
  fd : ℤ
  dispList : List DispEntry
  handles : List ReqHandle
  ioMaxCapacity : ℤ
  fresh : ℕ

/-- What the calls that `ep_req_new` makes after it has registered return: whether
`ep_buffer_new2` and `ep_io_combine_shell` return a buffer, and `ep_io_nodify_fd`. -/
structure SendEnv where
  buffer : Bool
  shellbuf : Bool
  notified : ℕ

/-- `ep_disp_add_cb` in a single thread. -/
def epDispAddCb (dispList : List DispEntry) (disp : DispEntry) : Option (List DispEntry) :=
  if epDispCount dispList disp.category ≥ 1 then none else some (disp :: dispList)

/-- `pack` is the size of the pack if there is one. Returns the handle and `*result`. -/
def epReqNew (c : Client) (category : Category) (pack : Option ℤ) (env : SendEnv) :
    Client × Option ReqHandle × EpReqNewResult :=
  if c.fd = -1 then (c, none, .socketError)
  else if pack.getD 0 > c.ioMaxCapacity then (c, none, .socketError)
  else
    match epDispAddCb c.dispList ⟨category, .reqDefaultDispatcher c.fresh⟩ with
    | none => (c, none, .notFreed)
    | some dispList =>
      let c' := { c with dispList := dispList, fresh := c.fresh + 1 }
      if pack.isSome ∧ ¬ env.buffer then (c', none, .socketError)
      else if ¬ env.shellbuf then (c', none, .socketError)
      else if env.notified = 0 then (c', none, .socketError)
      else ({ c' with handles := ⟨c.fresh, category⟩ :: c.handles }, some ⟨c.fresh, category⟩, .ok)

/-- The entry is deleted only while the client is connected. -/
def epReqDestroy (c : Client) (h : ReqHandle) : Client :=
  { c with
    dispList := if c.fd ≠ -1 then epDispDel c.dispList h.category else c.dispList
    handles := c.handles.filter (·.id ≠ h.id) }

/-- `ep_client_register`. -/
def epClientRegister (c : Client) (category : Category) (opaque' : ℕ) : Client :=
  { c with dispList := (epDispAddCb c.dispList ⟨category, .other opaque'⟩).getD c.dispList }

inductive ClientAct where
  | register (category : Category) (opaque' : ℕ)
  | new (category : Category) (pack : Option ℤ) (env : SendEnv)
  | destroy (id : ℕ)
  /-- The end of `ep_client_routine`, or `ep_client_send_error_cb`. -/
  | disconnect

def Client.step (c : Client) : ClientAct → Option Client
  | .register category opaque' => some (epClientRegister c category opaque')
  | .new category pack env => some (epReqNew c category pack env).1
  | .destroy id => (c.handles.find? (·.id = id)).map (epReqDestroy c)
  | .disconnect => some { c with fd := -1 }

def Client.start (fd ioMaxCapacity : ℤ) : Client := ⟨fd, [], [], ioMaxCapacity, 0⟩

/-- The entries that hand their packs to the request `id`. -/
def Client.entriesOf (c : Client) (id : ℕ) : ℕ :=
  c.dispList.countP (·.cb = .reqDefaultDispatcher id)

/-- There is one entry for each outstanding request, and none for any other. -/
def Client.Mirrors (c : Client) : Prop :=
  ∀ id, c.entriesOf id = if id ∈ c.handles.map ReqHandle.id then 1 else 0

/-- A request that was registered is also posted, and none is destroyed once the client
is disconnected. -/
def Client.Orderly (c : Client) : ClientAct → Prop
  | .new category pack env =>
    c.fd ≠ -1 → pack.getD 0 ≤ c.ioMaxCapacity → epDispCount c.dispList category = 0 →
      (pack.isSome → env.buffer) ∧ env.shellbuf ∧ env.notified ≠ 0
  | .destroy _ => c.fd ≠ -1
  | _ => True

instance (c : Client) : DecidablePred c.Orderly
  | .new _ _ _ => inferInstanceAs (Decidable (_ → _ → _ → _ ∧ _ ∧ _))
  | .destroy _ => inferInstanceAs (Decidable (_ ≠ _))
  | .register _ _ | .disconnect => .isTrue trivial

/-- The request that an entry belongs to. -/
def DispEntry.request (disp : DispEntry) : Option ReqHandle :=
  match disp.cb with
  | .reqDefaultDispatcher id => some ⟨id, disp.category⟩
  | .other _ => none

/-- The requests of the table, in its order, are the outstanding ones. -/
structure Client.Paired (c : Client) : Prop where
  requests : c.dispList.filterMap DispEntry.request = c.handles
  categories : (c.dispList.map DispEntry.category).Nodup
  ids : (c.handles.map ReqHandle.id).Nodup
  bound : ∀ h ∈ c.handles, h.id < c.fresh

section Requests

variable {c c' : Client} {h h' : ReqHandle}

theorem DispEntry.request_eq_some {disp : DispEntry} :
    disp.request = some h ↔ disp.cb = .reqDefaultDispatcher h.id ∧ disp.category = h.category := by
  obtain ⟨category, cb⟩ := disp
  obtain ⟨id, category'⟩ := h
  cases cb <;> simp [request]

theorem Client.entriesOf_eq (c : Client) (id : ℕ) :
    c.entriesOf id = (c.dispList.filterMap DispEntry.request).countP (·.id = id) := by
  rw [entriesOf, List.countP_filterMap]
  refine List.countP_congr fun disp _ => ?_
  obtain ⟨category, cb⟩ := disp
  cases cb <;> simp [DispEntry.request]

theorem Client.Paired.mirrors (hc : c.Paired) : c.Mirrors := by
  intro id
  have hcount : c.handles.countP (·.id = id) = (c.handles.map ReqHandle.id).count id := by
    rw [List.count, List.countP_map]
    exact List.countP_congr fun h _ => by simp
  rw [entriesOf_eq, hc.requests, hcount]
  split_ifs with hid
  · exact List.count_eq_one_of_mem hc.ids hid
  · exact List.count_eq_zero_of_not_mem hid

theorem Client.Paired.start (fd ioMaxCapacity : ℤ) : (Client.start fd ioMaxCapacity).Paired :=
  ⟨rfl, .nil, .nil, nofun⟩

theorem epDispCount_eq_zero {dispList : List DispEntry} {category : Category} :
    epDispCount dispList category = 0 ↔ category ∉ dispList.map DispEntry.category := by
  simp [epDispCount, List.countP_eq_zero]

theorem epDispAddCb_eq_some {dispList dispList' : List DispEntry} {disp : DispEntry}
    (h : epDispAddCb dispList disp = some dispList') :
    epDispCount dispList disp.category = 0 ∧ dispList' = disp :: dispList := by
  unfold epDispAddCb at h
  split_ifs at h with hcount
  exact ⟨by omega, (Option.some.inj h).symm⟩

theorem Client.Paired.register (hc : c.Paired) (category : Category) (opaque' : ℕ) :
    (epClientRegister c category opaque').Paired := by
  unfold epClientRegister
  cases hadd : epDispAddCb c.dispList ⟨category, .other opaque'⟩ with
  | none => exact hc
  | some dispList =>
    obtain ⟨hfree, rfl⟩ := epDispAddCb_eq_some hadd
    refine ⟨hc.requests, ?_, hc.ids, hc.bound⟩
    exact List.nodup_cons.mpr ⟨epDispCount_eq_zero.mp hfree, hc.categories⟩

/-- The handle that `ep_req_new` returns is the one that it has registered. -/
theorem Client.Paired.add (hc : c.Paired) {category : Category}
    (hfree : epDispCount c.dispList category = 0) :
    ({ c with
        dispList := ⟨category, .reqDefaultDispatcher c.fresh⟩ :: c.dispList
        handles := ⟨c.fresh, category⟩ :: c.handles
        fresh := c.fresh + 1 } : Client).Paired := by
  refine ⟨?_, ?_, ?_, ?_⟩
  · simp [DispEntry.request, hc.requests]
  · exact List.nodup_cons.mpr ⟨epDispCount_eq_zero.mp hfree, hc.categories⟩
  · refine List.nodup_cons.mpr ⟨fun hmem => ?_, hc.ids⟩
    obtain ⟨h, hh, heq⟩ := List.mem_map.mp hmem
    exact (hc.bound h hh).ne heq
  · intro h hh
    rcases List.mem_cons.mp hh with rfl | hh
    · exact Nat.lt_succ_self _
    · exact Nat.lt_succ_of_lt (hc.bound h hh)

/-- Two requests of one category are the same one. -/
theorem Client.Paired.eq_of_category (hc : c.Paired) (hh : h ∈ c.handles) (hh' : h' ∈ c.handles)
    (heq : h.category = h'.category) : h = h' := by
  rw [← hc.requests] at hh hh'
  obtain ⟨disp, hdisp, hreq⟩ := List.mem_filterMap.mp hh
  obtain ⟨disp', hdisp', hreq'⟩ := List.mem_filterMap.mp hh'
  have hcat : disp.category = disp'.category := by
    rw [(DispEntry.request_eq_some.mp hreq).2, (DispEntry.request_eq_some.mp hreq').2, heq]
  have hsame := List.inj_on_of_nodup_map hc.categories hdisp hdisp' hcat
  rw [hsame, hreq'] at hreq
  exact (Option.some.inj hreq).symm

theorem filterMap_request_epDispDel (dispList : List DispEntry) (category : Category) :
    (epDispDel dispList category).filterMap DispEntry.request =
      (dispList.filterMap DispEntry.request).filter (·.category ≠ category) := by
  rw [epDispDel, List.filterMap_filter, List.filter_filterMap]
  refine List.filterMap_congr fun disp _ => ?_
  obtain ⟨category', cb⟩ := disp
  by_cases hcat : category' = category <;> cases cb <;>
    simp [DispEntry.request, hcat, Option.filter]

theorem Client.Paired.destroy (hc : c.Paired) (hh : h ∈ c.handles) (hfd : c.fd ≠ -1) :
    (epReqDestroy c h).Paired := by
  have hsame : c.handles.filter (·.category ≠ h.category) = c.handles.filter (·.id ≠ h.id) := by
    refine List.filter_congr fun h' hh' => ?_
    refine decide_eq_decide.mpr (not_congr ⟨fun heq => ?_, fun heq => ?_⟩)
    · rw [hc.eq_of_category hh' hh heq]
    · rw [List.inj_on_of_nodup_map hc.ids hh' hh heq]
  refine ⟨?_, ?_, ?_, ?_⟩
  · rw [epReqDestroy, if_pos hfd, filterMap_request_epDispDel, hc.requests]
    exact hsame
  · rw [epReqDestroy, if_pos hfd]
    exact (List.filter_sublist.map _).nodup hc.categories
  · exact (List.filter_sublist.map _).nodup hc.ids
  · exact fun h' hh' => hc.bound h' (List.mem_filter.mp hh').1

/-- What `ep_req_new` can do. -/
inductive NewStep (c : Client) (category : Category) (pack : Option ℤ) (env : SendEnv) :
    Client × Option ReqHandle × EpReqNewResult → Prop
  | refuse {result : EpReqNewResult} (hwhy : c.fd = -1 ∨ c.ioMaxCapacity < pack.getD 0 ∨
      epDispCount c.dispList category ≠ 0) :
      NewStep c category pack env (c, none, result)
  | fail (hfd : c.fd ≠ -1) (hsize : pack.getD 0 ≤ c.ioMaxCapacity)
      (hfree : epDispCount c.dispList category = 0)
      (hfail : ¬ ((pack.isSome → env.buffer) ∧ env.shellbuf ∧ env.notified ≠ 0)) :
      NewStep c category pack env ({ c with
        dispList := ⟨category, .reqDefaultDispatcher c.fresh⟩ :: c.dispList
        fresh := c.fresh + 1 }, none, .socketError)
  | post (hfree : epDispCount c.dispList category = 0)
      (hsent : (pack.isSome → env.buffer) ∧ env.shellbuf ∧ env.notified ≠ 0) :
      NewStep c category pack env ({ c with
        dispList := ⟨category, .reqDefaultDispatcher c.fresh⟩ :: c.dispList
        handles := ⟨c.fresh, category⟩ :: c.handles
        fresh := c.fresh + 1 }, some ⟨c.fresh, category⟩, .ok)

theorem epReqNew_cases (c : Client) (category : Category) (pack : Option ℤ) (env : SendEnv) :
    NewStep c category pack env (epReqNew c category pack env) := by
  unfold epReqNew
  split
  · next hfd => exact .refuse (.inl hfd)
  split
  · next hsize => exact .refuse (.inr (.inl hsize))
  next hfd hsize =>
    split
    · next hadd =>
      refine .refuse (.inr (.inr ?_))
      unfold epDispAddCb at hadd
      split_ifs at hadd with hcount
      exact Nat.one_le_iff_ne_zero.mp hcount
    · next dispList hadd =>
      obtain ⟨hfree, rfl⟩ := epDispAddCb_eq_some hadd
      have hfits : pack.getD 0 ≤ c.ioMaxCapacity := by omega
      split
      · next hbuffer => exact .fail hfd hfits hfree fun hsent => hbuffer.2 (hsent.1 hbuffer.1)
      split
      · next hshell => exact .fail hfd hfits hfree fun hsent => hshell hsent.2.1
      split
      · next hnotified => exact .fail hfd hfits hfree fun hsent => hsent.2.2 hnotified
      next hbuffer hshell hnotified =>
        refine .post hfree ⟨fun hpack => ?_, not_not.mp hshell, hnotified⟩
        exact by_contra fun hnone => hbuffer ⟨hpack, hnone⟩

theorem Client.Paired.step {act : ClientAct} (hc : c.Paired) (hok : c.Orderly act)
    (hstep : c.step act = some c') : c'.Paired := by
  cases act with
  | register category opaque' => exact Option.some.inj hstep ▸ hc.register category opaque'
  | new category pack env =>
    obtain rfl := Option.some.inj hstep
    have hcases := epReqNew_cases c category pack env
    generalize epReqNew c category pack env = r at hcases
    cases hcases with
    | refuse => exact hc
    | fail hfd hsize hfree hfail => exact absurd (hok hfd hsize hfree) hfail
    | post hfree => exact hc.add hfree
  | destroy id =>
    obtain ⟨h, hfind, rfl⟩ := Option.map_eq_some_iff.mp hstep
    exact hc.destroy (List.mem_of_find?_eq_some hfind) hok
  | disconnect => exact Option.some.inj hstep ▸ ⟨hc.requests, hc.categories, hc.ids, hc.bound⟩

/-- A request that failed after its registration, and one that was destroyed after the
disconnect, leave an entry behind. -/
theorem Client.Paired.not_mirrors {act : ClientAct} (hc : c.Paired) (hok : ¬ c.Orderly act)
    (hstep : c.step act = some c') : ¬ c'.Mirrors := by
  cases act with
  | register | disconnect => exact absurd trivial hok
  | new category pack env =>
    obtain rfl := Option.some.inj hstep
    simp only [Orderly, not_forall] at hok
    obtain ⟨hfd, hsize, hfree, hfail⟩ := hok
    have hcases := epReqNew_cases c category pack env
    generalize epReqNew c category pack env = r at hcases
    cases hcases with
    | refuse hwhy =>
      rcases hwhy with hwhy | hwhy | hwhy
      · exact absurd hwhy hfd
      · omega
      · exact absurd hfree hwhy
    | fail =>
      intro hmirrors
      have hzero := hmirrors c.fresh
      have hnot : c.fresh ∉ c.handles.map ReqHandle.id := by
        intro hmem
        obtain ⟨h, hh, heq⟩ := List.mem_map.mp hmem
        exact (hc.bound h hh).ne heq
      simp [entriesOf, hnot] at hzero
    | post _ hsent => exact absurd hsent hfail
  | destroy id =>
    obtain ⟨h, hfind, rfl⟩ := Option.map_eq_some_iff.mp hstep
    have hfd : c.fd = -1 := not_not.mp hok
    have hmem := List.mem_map_of_mem (f := ReqHandle.id) (List.mem_of_find?_eq_some hfind)
    intro hmirrors
    have hone : c.entriesOf h.id = 1 := by rw [hc.mirrors h.id, if_pos hmem]
    have hgone : h.id ∉ (epReqDestroy c h).handles.map ReqHandle.id := by
      simp [epReqDestroy]
    have hzero := hmirrors h.id
    have hkept : (epReqDestroy c h).entriesOf h.id = c.entriesOf h.id := by
      simp [entriesOf, epReqDestroy, hfd]
    rw [hkept, hone, if_neg hgone] at hzero
    cases hzero

end Requests

/-- As long as every registered request is posted and none is destroyed after the
disconnect, the entries of the table are those of the outstanding requests, and a call
that fails leaves the table as it was. The first step that is not so breaks it. -/
theorem epReq_mirrored (fd ioMaxCapacity : ℤ) (c : Client)
    (h : Reaches Client.step Client.Orderly (Client.start fd ioMaxCapacity) c) :
    c.Mirrors ∧
    (∀ category pack env, c.Orderly (.new category pack env) →
      (epReqNew c category pack env).2.1 = none →
      (epReqNew c category pack env).1.dispList = c.dispList) ∧
    ∀ act c', ¬ c.Orderly act → c.step act = some c' → ¬ c'.Mirrors := by
  have hpaired : c.Paired :=
    h.invariant (P := Client.Paired) (.start fd ioMaxCapacity) fun hc hok hstep => hc.step hok hstep
  refine ⟨hpaired.mirrors, ?_, fun act c' hok hstep => hpaired.not_mirrors hok hstep⟩
  intro category pack env hok hnone
  have hcases := epReqNew_cases c category pack env
  generalize epReqNew c category pack env = r at hcases hnone
  cases hcases with
  | refuse => rfl
  | fail hfd hsize hfree hfail => exact absurd (hok hfd hsize hfree) hfail
  | post => cases hnone

/-- A second request of the same category is refused, and a third of another is posted. -/
theorem epReq_mirrored_three :
    ∃ c, Reaches Client.step Client.Orderly (Client.start 5 4096) c ∧
      c.handles = [⟨1, 2⟩, ⟨0, 1⟩] ∧
      c.dispList = [⟨2, .reqDefaultDispatcher 1⟩, ⟨1, .reqDefaultDispatcher 0⟩] ∧ c.Mirrors := by
  have hrun : Reaches Client.step Client.Orderly (Client.start 5 4096) _ :=
    reaches_of_exec [.new 1 (some 10) ⟨true, true, 1⟩, .new 1 none ⟨true, true, 1⟩,
      .new 2 none ⟨false, true, 1⟩] rfl
  exact ⟨_, hrun, rfl, rfl, (epReq_mirrored 5 4096 _ hrun).1⟩

/-- The connection is no longer there when the frame is posted, or the client has been
disconnected when the request is destroyed: the entry of the released handle stays. -/
theorem epReq_dangling :
    (∃ c, Reaches Client.step anyStep (Client.start 5 4096) c ∧ c.handles = [] ∧
      c.dispList = [⟨1, .reqDefaultDispatcher 0⟩] ∧ ¬ c.Mirrors) ∧
    ∃ c, Reaches Client.step anyStep (Client.start 5 4096) c ∧ c.fd = -1 ∧ c.handles = [] ∧
      c.dispList = [⟨1, .reqDefaultDispatcher 0⟩] ∧ ¬ c.Mirrors := by
  refine ⟨⟨_, reaches_of_exec [.new 1 (some 10) ⟨true, true, 0⟩] rfl, rfl, rfl, ?_⟩,
    ⟨_, reaches_of_exec [.new 1 (some 10) ⟨true, true, 1⟩, .disconnect, .destroy 0] rfl, rfl, rfl,
      rfl, ?_⟩⟩
  · exact fun h => absurd (h 0) (by decide)
  · exact fun h => absurd (h 0) (by decide)

end Youmenu.Eventpack.Dispatch
