import Youmenu.Server.Table
import Youmenu.Utils.ListLoops

/-!
# The session list in memory: `session.c`

The functions of the session module with the pointers they follow: the cells of
`session_list`, what `calloc` and `free` do with them, the loops of `list.h`. They do to
the list in memory what the calls of `Table` do to the table of sessions, and read no
cell that was given back.

## Main definitions

* `SessionMem` — the module in memory.
* `SessionOp` — its calls, in memory and on the table.
* `Linked` — the table that the memory stands for.
-/

namespace Youmenu.Server

open Eventpack Transition Utils

/-! ## The source -/

/-- The cells hold `session_list_t`: its `list` is in the heap, and `ref` has the count of
its reference. -/
structure SessionMem (α : Type) where
  heap : Heap α
  session : α → Session
  ref : α → ℤ
  locked : Bool

/-- Which session is looked for: `session_ref_fd`, `session_ref_uid` or
`session_ref_token`. -/
inductive Query where
  | fd (fd : ℤ)
  | uid (uid : CString) (type : SessionType)
  | token (token : CString)

def Query.hit : Query → Session → Bool
  | .fd x, s => s.fd = x
  | .uid x type, s => s.sType = type && s.uid = x
  | .token x, s => s.sType = .token && s.token = x

namespace SessionMem

variable {α : Type} [DecidableEq α] [Zero α]

/-- `none`: the cell was given back. -/
def load (m : SessionMem α) (pos : α) : Option Session :=
  if m.heap.live pos then some (m.session pos) else none

/-- `none`: nobody else is there to unlock it. -/
def lock (m : SessionMem α) : Option (SessionMem α) :=
  if m.locked then none else some { m with locked := true }

def unlock (m : SessionMem α) : SessionMem α := { m with locked := false }

def prefGet (m : SessionMem α) (pos : α) : SessionMem α :=
  { m with ref := Function.update m.ref pos (m.ref pos + 1) }

def prefPut (m : SessionMem α) (pos : α) : SessionMem α :=
  { m with ref := Function.update m.ref pos (m.ref pos - 1) }

section Calls

variable (sessionList : α)

def sessionInit (heap : Heap α) (session : α → Session) (ref : α → ℤ) : Option (SessionMem α) :=
  (initListHead sessionList heap).map fun heap => ⟨heap, session, ref, false⟩

/-- The checks of `session_add` on one element. -/
def addBody (s : Session) (pos : α) (r : SessionMem α × Bool) :
    Option (ForInStep (SessionMem α × Bool)) := do
  let tmp ← r.1.load pos
  match s.sType with
  | .fd =>
    if tmp.fd = s.fd then return .done (r.1, true)
    if tmp.sType = .fd then
      if tmp.uid = s.uid then return .done (r.1, true)
    return .yield r
  | .token =>
    if tmp.sType = .token then
      if tmp.token = s.token then return .done (r.1, true)
    return .yield r

/-- `sess` is what `calloc` returns. -/
def sessionAdd (sess : α) (s : Session) (fuel : ℕ) (m : SessionMem α) :
    Option (Bool × SessionMem α) := do
  let m ← m.lock
  let (m, found) ← listForEachSafe (·.1.heap) sessionList (addBody s) fuel (m, false)
  if found then return (false, m.unlock)
  else
    let heap ← m.heap.malloc sess 0 0
    let m := { m with session := Function.update m.session sess s
                      ref := Function.update m.ref sess 0 }
    let heap ← listAddTail sess sessionList heap
    return (true, { m with heap }.unlock)

/-- The loops of `session_del_fd`, `session_del_token` and `session_destroy`. The wait in
`pref_release` has no end while there are references. -/
def delBody (hit : Session → Bool) (pos : α) (r : SessionMem α × ℕ) :
    Option (ForInStep (SessionMem α × ℕ)) := do
  let tmp ← r.1.load pos
  if hit tmp then
    let heap ← listDel pos r.1.heap
    if r.1.ref pos = 0 then
      let heap ← heap.free pos
      return .yield ({ r.1 with heap }, r.2 + 1)
    else none
  else return .yield r

def sessionDel (hit : Session → Bool) (fuel : ℕ) (m : SessionMem α) :
    Option (Bool × SessionMem α) := do
  let m ← m.lock
  let (m, r) ← listForEachSafe (·.1.heap) sessionList (delBody hit) fuel (m, 0)
  return (r ≠ 0, m.unlock)

def sessionDestroy (fuel : ℕ) (m : SessionMem α) : Option (SessionMem α) := do
  let (_, m) ← sessionDel sessionList (fun _ => true) fuel m
  return m

/-- The loop goes on behind a hit. -/
def refFdBody (fd : ℤ) (pos : α) (r : SessionMem α × Option α) :
    Option (ForInStep (SessionMem α × Option α)) := do
  let tmp ← r.1.load pos
  if tmp.fd = fd then return .yield (r.1.prefGet pos, some pos) else return .yield r

def refUidBody (uid : CString) (type : SessionType) (pos : α) (r : SessionMem α × Option α) :
    Option (ForInStep (SessionMem α × Option α)) := do
  let tmp ← r.1.load pos
  if tmp.sType = type ∧ tmp.uid = uid then return .done (r.1.prefGet pos, some pos)
  else return .yield r

/-- The lock is taken inside the loop. -/
def refTokenBody (token : CString) (pos : α) (r : SessionMem α × Option α) :
    Option (ForInStep (SessionMem α × Option α)) := do
  let tmp ← r.1.load pos
  if tmp.sType = .token ∧ tmp.token = token then
    let m ← r.1.lock
    return .done (m.prefGet pos, some pos)
  else return .yield r

def sessionRef (q : Query) (fuel : ℕ) (m : SessionMem α) : Option (Option α × SessionMem α) := do
  match q with
  | .fd fd =>
    let (m, session) ← listForEach (·.1.heap) sessionList (refFdBody fd) fuel (m, none)
    return (session, ← if session.isSome then m.lock else some m)
  | .uid uid type =>
    let (m, session) ← listForEach (·.1.heap) sessionList (refUidBody uid type) fuel (m, none)
    return (session, ← if session.isSome then m.lock else some m)
  | .token token =>
    let (m, session) ← listForEach (·.1.heap) sessionList (refTokenBody token) fuel (m, none)
    return (session, m)

def drefBody (session pos : α) (m : SessionMem α) : Option (ForInStep (SessionMem α)) :=
  if pos = session then some (.done (m.prefPut pos)) else some (.yield m)

def sessionDref (session : α) (fuel : ℕ) (m : SessionMem α) : Option (SessionMem α) := do
  let m ← listForEach heap sessionList (drefBody session) fuel m
  return m.unlock

/-- A session is looked for, read and given back. -/
def sessionLook (q : Query) (fuel : ℕ) (m : SessionMem α) :
    Option (Option Session × SessionMem α) := do
  let (session, m) ← sessionRef sessionList q fuel m
  match session with
  | none => return (none, m)
  | some session =>
    let found ← m.load session
    return (some found, ← sessionDref sessionList session fuel m)

end Calls

end SessionMem

/-- The same on the table. -/
def SessionMod.look (q : Query) (m : SessionMod) : Option (Option Session × SessionMod) := do
  let (session, m) ← match q with
    | .fd fd => m.refAll (m.sessionList.filter (SessionNode.hasFd fd))
    | .uid uid type => m.refAll (m.sessionList.find? (SessionNode.hasUid uid type)).toList
    | .token token => m.refToken token
  match session with
  | none => return (none, m)
  | some session =>
    let (found, m) := m.read session
    return (some found, m.dref session)

/-! ## The list behind the table -/

section Holds

variable {α : Type} [DecidableEq α]

/-- One list, with its head and its elements. -/
def only (head : α) (xs : List α) : Contents α := Function.update (fun _ => none) head (some xs)

@[simp] theorem only_self (head : α) (xs : List α) : only head xs head = some xs :=
  Function.update_self ..

@[simp] theorem update_only (head : α) (xs ys : List α) :
    Function.update (only head xs) head (some ys) = only head ys := by
  rw [only, Function.update_idem, only]

theorem in_only {head a : α} {xs : List α} : (only head xs).In a ↔ a ∈ head :: xs := by
  constructor
  · rintro ⟨h, ys, heq, ha⟩
    by_cases hh : h = head
    · subst hh
      obtain rfl : xs = ys := by simpa using heq
      exact ha
    · simp [only, Function.update_of_ne hh] at heq
  · exact fun ha => ⟨head, xs, only_self head xs, ha⟩

/-- The list has the cells `xs`, nobody refers to their sessions, and no other cell is
allocated. -/
structure Holds (head : α) (xs : List α) (m : SessionMem α) : Prop where
  rep : Represents m.heap (only head xs)
  live : ∀ a, m.heap.live a ↔ a ∈ head :: xs
  counts : ∀ a ∈ xs, m.ref a = 0

namespace Holds

variable {head x : α} {xs ys : List α} {m : SessionMem α}

theorem load (h : Holds head xs m) {a : α} (ha : a ∈ xs) : m.load a = some (m.session a) := by
  simp [SessionMem.load, (h.live a).mpr (List.mem_cons_of_mem _ ha)]

theorem unlock (h : Holds head xs m) : Holds head xs m.unlock := ⟨h.rep, h.live, h.counts⟩

theorem lock (h : Holds head xs m) : Holds head xs { m with locked := true } :=
  ⟨h.rep, h.live, h.counts⟩

variable [Zero α]

/-! ### One call on the cells -/

omit [Zero α] in
theorem addBody (h : Holds head xs m) (s : Session) {a : α} (ha : a ∈ xs) (b : Bool) :
    SessionMem.addBody s a (m, b) =
      some (if sessionConflict s ⟨0, m.session a⟩ then .done (m, true) else .yield (m, b)) := by
  simp only [SessionMem.addBody, h.load ha, Option.bind_eq_bind, Option.bind_some]
  cases htype : s.sType with
  | fd => grind [sessionConflict]
  | token => grind [sessionConflict]

omit [DecidableEq α] [Zero α] in
theorem addBody_yield {s : Session} {a : α} {r r' : SessionMem α × Bool}
    (h : SessionMem.addBody s a r = some (.yield r')) : r' = r := by
  simp only [SessionMem.addBody, Option.bind_eq_bind] at h
  obtain ⟨tmp, -, h⟩ := Option.bind_eq_some_iff.mp h
  cases htype : s.sType with
  | fd => grind
  | token => grind

theorem sessionAdd (h : Holds head xs m) (hunlocked : m.locked = false) {a : α}
    (ha : ¬ m.heap.live a) (s : Session) {fuel : ℕ} (hfuel : xs.length < fuel) :
    (xs.any (fun x => sessionConflict s ⟨0, m.session x⟩) = true ∧
        m.sessionAdd head a s fuel = some (false, m)) ∨
      (xs.any (fun x => sessionConflict s ⟨0, m.session x⟩) = false ∧
        ∃ m', m.sessionAdd head a s fuel = some (true, m') ∧ Holds head (xs ++ [a]) m' ∧
          m'.session = Function.update m.session a s ∧ m'.locked = false) := by
  have hloop : listForEachSafe (·.1.heap) head (SessionMem.addBody s) fuel
      ({ m with locked := true }, false) = some ((xs.find? fun x =>
        sessionConflict s ⟨0, m.session x⟩).elim ({ m with locked := true }, false)
          fun _ => ({ m with locked := true }, true)) := by
    refine Eq.trans (h.lock.rep.listForEachSafe_eq rfl (only_self head xs) (fun hrun => ?_) hfuel)
      (forIn_find fun x hx => h.lock.addBody s hx false)
    exact .inl (by rw [addBody_yield hrun])
  have hunlock : SessionMem.unlock { m with locked := true } = m := by
    rw [SessionMem.unlock, ← hunlocked]
  simp only [SessionMem.sessionAdd, SessionMem.lock, hunlocked, Bool.false_eq_true, if_false,
    Option.bind_eq_bind, Option.bind_some, hloop]
  cases hfind : xs.find? fun x => sessionConflict s ⟨0, m.session x⟩ with
  | some x =>
    refine .inl ⟨?_, by simp [hunlock]⟩
    have hhit := List.find?_some hfind
    exact List.any_eq_true.mpr ⟨x, List.mem_of_find?_eq_some hfind, hhit⟩
  | none =>
    refine .inr ⟨by simpa using hfind, ?_⟩
    have hnot : ¬ (only head xs).In a := fun hin => ha ((h.live a).mpr (in_only.mp hin))
    obtain ⟨m₁, hmalloc, r₁, hlive₁⟩ := h.rep.malloc ha 0 0
    obtain ⟨m₂, hadd, r₂, hlive₂⟩ := r₁.listAddTail (by simp [hlive₁]) hnot (only_self head xs)
    simp only [Option.elim_none, Bool.false_eq_true, if_false, hmalloc, Option.bind_some, hadd]
    refine ⟨_, rfl, ⟨?_, ?_, ?_⟩, rfl, rfl⟩
    · simpa [Contents.change, SessionMem.unlock] using r₂
    · intro c
      have hlive := h.live c
      simp only [SessionMem.unlock, hlive₂, hlive₁, Function.update_apply]
      grind
    · intro c hc
      have hcount := h.counts c
      simp only [SessionMem.unlock, Function.update_apply]
      grind

theorem removes (h : Holds head (xs ++ x :: ys) m) :
    ∃ heap, Removes x m.heap heap ∧ Holds head (xs ++ ys) { m with heap } := by
  obtain ⟨heap, hremoves, r, hlive⟩ := h.rep.removes (only_self head _)
  have hnodup := (h.rep.ring (only_self head _)).nodup
  refine ⟨heap, hremoves, by simpa using r, fun c => ?_, fun c hc => ?_⟩
  · have hold := h.live c
    simp only [hlive, Function.update_apply]
    grind
  · refine h.counts c ?_
    grind

theorem delBody_yield {hit : Session → Bool} {a : α} {r r' : SessionMem α × ℕ}
    (h : SessionMem.delBody hit a r = some (.yield r')) :
    r'.1.heap = r.1.heap ∨ Removes a r.1.heap r'.1.heap := by
  obtain ⟨tmp, -, h⟩ := Option.bind_eq_some_iff.mp h
  split_ifs at h
  · obtain ⟨heap, hdel, h⟩ := Option.bind_eq_some_iff.mp h
    obtain ⟨heap', hfree, h⟩ := Option.bind_eq_some_iff.mp h
    obtain rfl := ForInStep.yield.inj (Option.some.inj h)
    exact .inr ⟨heap, hdel, hfree⟩
  · obtain ⟨heap, -, h⟩ := Option.bind_eq_some_iff.mp h
    cases h
  · obtain rfl := ForInStep.yield.inj (Option.some.inj h)
    exact .inl rfl

/-- The loop of a deletion from some element on. -/
theorem delLoop (h : Holds head (xs ++ ys) m) (hit : Session → Bool) (r : ℕ) :
    ∃ m', forIn ys (m, r) (SessionMem.delBody hit) =
        some (m', r + ys.countP fun y => hit (m.session y)) ∧
      Holds head (xs ++ ys.filter fun y => !hit (m.session y)) m' ∧
      m'.session = m.session ∧ m'.locked = m.locked := by
  induction ys generalizing xs m r with
  | nil => exact ⟨m, by simp, by simpa using h, rfl, rfl⟩
  | cons y ys ih =>
    have hload := h.load (show y ∈ xs ++ y :: ys by simp)
    cases hy : hit (m.session y) with
    | true =>
      obtain ⟨heap, ⟨heap', hdel, hfree⟩, h'⟩ := h.removes
      obtain ⟨m', hloop, hholds, hsame⟩ := ih h' (r + 1)
      refine ⟨m', ?_, by simpa [hy] using hholds, hsame⟩
      rw [List.forIn_cons]
      simp only [SessionMem.delBody, hload, hy, hdel, hfree, h.counts y (by simp), if_true,
        Option.bind_eq_bind, Option.bind_some, Option.pure_def]
      rw [hloop]
      simp [hy, Nat.add_assoc, Nat.add_comm]
    | false =>
      have hassoc : xs ++ y :: ys = (xs ++ [y]) ++ ys := by simp
      rw [hassoc] at h
      obtain ⟨m', hloop, hholds, hsame⟩ := ih h r
      refine ⟨m', ?_, by simpa [hy] using hholds, hsame⟩
      rw [List.forIn_cons]
      simp only [SessionMem.delBody, hload, hy, Bool.false_eq_true, if_false,
        Option.bind_eq_bind, Option.bind_some, Option.pure_def]
      rw [hloop]
      simp [hy]

theorem sessionDel (h : Holds head xs m) (hunlocked : m.locked = false) (hit : Session → Bool)
    {fuel : ℕ} (hfuel : xs.length < fuel) :
    ∃ m', m.sessionDel head hit fuel = some (xs.any fun x => hit (m.session x), m') ∧
      Holds head (xs.filter fun x => !hit (m.session x)) m' ∧ m'.session = m.session ∧
      m'.locked = false := by
  have hlock : Holds head ([] ++ xs) { m with locked := true } := h.lock
  obtain ⟨m', hloop, hholds, hsame, -⟩ := hlock.delLoop hit 0
  refine ⟨m'.unlock, ?_, hholds.unlock, hsame, rfl⟩
  have hsafe : listForEachSafe (·.1.heap) head (SessionMem.delBody hit) fuel
      ({ m with locked := true }, 0) = forIn xs ({ m with locked := true }, 0)
        (SessionMem.delBody hit) :=
    hlock.rep.listForEachSafe_eq rfl (only_self head xs) (fun hrun => delBody_yield hrun) hfuel
  rw [hloop] at hsafe
  simp only [SessionMem.sessionDel, SessionMem.lock, hunlocked, Bool.false_eq_true, if_false,
    Option.bind_eq_bind, Option.bind_some, hsafe, Option.pure_def]
  congr 2
  rw [Bool.eq_iff_iff]
  simp

/-! ### A session is looked for -/

/-- The module while a session is referred to. -/
def hold (m : SessionMem α) (a : α) : SessionMem α := { m.prefGet a with locked := true }

omit [Zero α] in
theorem sessionDref (h : Holds head xs m) (hunlocked : m.locked = false) {a : α} (ha : a ∈ xs)
    {fuel : ℕ} (hfuel : xs.length < fuel) : (hold m a).sessionDref head a fuel = some m := by
  have hkeep : ∀ {x : α} {s s' : SessionMem α},
      SessionMem.drefBody a x s = some (.yield s') → s'.heap = s.heap := by
    intro x s s' hrun
    simp only [SessionMem.drefBody] at hrun
    split_ifs at hrun
    · cases hrun
    · obtain rfl := ForInStep.yield.inj (Option.some.inj hrun)
      rfl
  have hfind : forIn xs (hold m a) (SessionMem.drefBody a) =
      some ((xs.find? (· = a)).elim (hold m a) fun pos => (hold m a).prefPut pos) := by
    refine forIn_find fun x hx => ?_
    by_cases hxa : x = a
    · simp [SessionMem.drefBody, hxa]
    · simp [SessionMem.drefBody, hxa]
  have hfound : xs.find? (· = a) = some a := by
    cases hx : xs.find? (· = a) with
    | none => exact absurd ha (by simpa using List.find?_eq_none.mp hx a)
    | some x => simpa using List.find?_some hx
  have hloop : listForEach SessionMem.heap head (SessionMem.drefBody a) fuel (hold m a) =
      forIn xs (hold m a) (SessionMem.drefBody a) :=
    h.rep.listForEach_eq rfl (only_self head xs) hkeep hfuel
  have hcount : Function.update (m.prefGet a).ref a ((m.prefGet a).ref a - 1) = m.ref := by
    simp [SessionMem.prefGet]
  simp only [SessionMem.sessionDref, hloop, hfind, hfound, Option.elim_some,
    Option.bind_eq_bind, Option.bind_some, Option.pure_def]
  simp only [SessionMem.unlock, SessionMem.prefPut, hold, hcount, ← hunlocked]
  rfl

omit [Zero α] in
theorem forEach (h : Holds head xs m) {β : Type} (b : β)
    {body : α → SessionMem α × β → Option (ForInStep (SessionMem α × β))}
    (hkeep : ∀ {a r r'}, body a r = some (.yield r') → r'.1.heap = r.1.heap)
    {fuel : ℕ} (hfuel : xs.length < fuel) :
    listForEach (·.1.heap) head body fuel (m, b) = forIn xs (m, b) body :=
  h.rep.listForEach_eq rfl (only_self head xs) hkeep hfuel

omit [Zero α] in
/-- A session on a connection is found once, although the loop goes on. -/
theorem refFdLoop (h : Holds head xs m) {fd : ℤ}
    (hone : xs.Pairwise fun x y => (m.session x).fd = fd → (m.session y).fd ≠ fd) :
    forIn xs (m, none) (SessionMem.refFdBody fd) =
      some ((xs.find? fun x => (m.session x).fd = fd).elim m m.prefGet,
        xs.find? fun x => (m.session x).fd = fd) := by
  cases hfind : xs.find? fun x => (m.session x).fd = fd with
  | none =>
    refine forIn_idle fun x hx => ?_
    have hmiss : (m.session x).fd ≠ fd := by simpa using List.find?_eq_none.mp hfind x hx
    simp [SessionMem.refFdBody, h.load hx, hmiss]
  | some x =>
    obtain ⟨hhit, ys, zs, rfl, hys⟩ := List.find?_eq_some_iff_append.mp hfind
    have hx : (m.session x).fd = fd := by simpa using hhit
    have hzs := (List.pairwise_cons.mp (List.pairwise_append.mp hone).2.1).1
    rw [forIn_skip]
    · rw [List.forIn_cons]
      simp only [SessionMem.refFdBody, h.load (show x ∈ ys ++ x :: zs by simp), hx, if_true,
        Option.bind_eq_bind, Option.bind_some, Option.pure_def]
      refine forIn_idle fun z hz => ?_
      have hload : (m.prefGet x).load z = some (m.session z) := h.load (by simp [hz])
      simp [SessionMem.refFdBody, hload, hzs z hz hx]
    · intro y hy
      have hmiss : (m.session y).fd ≠ fd := by simpa using hys y hy
      simp [SessionMem.refFdBody, h.load (show y ∈ ys ++ x :: zs by simp [hy]), hmiss]

omit [Zero α] in
/-- The first session that is asked for is referred to, under the lock. -/
theorem sessionRef (h : Holds head xs m) (hunlocked : m.locked = false) {q : Query}
    (hone : ∀ fd, q = .fd fd →
      xs.Pairwise fun x y => (m.session x).fd = fd → (m.session y).fd ≠ fd)
    {fuel : ℕ} (hfuel : xs.length < fuel) :
    m.sessionRef head q fuel = some (xs.find? fun x => q.hit (m.session x),
      (xs.find? fun x => q.hit (m.session x)).elim m (hold m)) := by
  cases q with
  | fd fd =>
    have hloop : listForEach (·.1.heap) head (SessionMem.refFdBody fd) fuel (m, none) =
        some ((xs.find? fun x => (m.session x).fd = fd).elim m m.prefGet,
          xs.find? fun x => (m.session x).fd = fd) := by
      rw [h.forEach none ?_ hfuel, h.refFdLoop (hone fd rfl)]
      intro a r r' hrun
      obtain ⟨tmp, -, hrun⟩ := Option.bind_eq_some_iff.mp hrun
      split_ifs at hrun <;> obtain rfl := ForInStep.yield.inj (Option.some.inj hrun) <;> rfl
    simp only [SessionMem.sessionRef, hloop, Query.hit, Option.bind_eq_bind, Option.bind_some,
      Option.pure_def]
    cases xs.find? fun x => (m.session x).fd = fd with
    | none => rfl
    | some x => simp [SessionMem.lock, SessionMem.prefGet, hunlocked, hold]
  | uid uid type =>
    have hloop : listForEach (·.1.heap) head (SessionMem.refUidBody uid type) fuel (m, none) =
        some ((xs.find? fun x => (Query.uid uid type).hit (m.session x)).elim (m, none)
          fun x => (m.prefGet x, some x)) := by
      rw [h.forEach none ?_ hfuel]
      · refine forIn_find fun x hx => ?_
        simp [SessionMem.refUidBody, h.load hx, Query.hit]
        split_ifs <;> rfl
      · intro a r r' hrun
        obtain ⟨tmp, -, hrun⟩ := Option.bind_eq_some_iff.mp hrun
        split_ifs at hrun
        · cases hrun
        · obtain rfl := ForInStep.yield.inj (Option.some.inj hrun)
          rfl
    simp only [SessionMem.sessionRef, hloop, Option.bind_eq_bind, Option.bind_some,
      Option.pure_def]
    cases xs.find? fun x => (Query.uid uid type).hit (m.session x) with
    | none => rfl
    | some x => simp [SessionMem.lock, SessionMem.prefGet, hunlocked, hold]
  | token token =>
    have hloop : listForEach (·.1.heap) head (SessionMem.refTokenBody token) fuel (m, none) =
        some ((xs.find? fun x => (Query.token token).hit (m.session x)).elim (m, none)
          fun x => (hold m x, some x)) := by
      rw [h.forEach none ?_ hfuel]
      · refine forIn_find fun x hx => ?_
        simp [SessionMem.refTokenBody, h.load hx, Query.hit, SessionMem.lock, hunlocked]
        split_ifs <;> rfl
      · intro a r r' hrun
        obtain ⟨tmp, -, hrun⟩ := Option.bind_eq_some_iff.mp hrun
        split_ifs at hrun
        · obtain ⟨n, -, hrun⟩ := Option.bind_eq_some_iff.mp hrun
          cases hrun
        · obtain rfl := ForInStep.yield.inj (Option.some.inj hrun)
          rfl
    simp only [SessionMem.sessionRef, hloop, Option.bind_eq_bind, Option.bind_some,
      Option.pure_def]
    cases xs.find? fun x => (Query.token token).hit (m.session x) <;> rfl

omit [Zero α] in
theorem sessionLook (h : Holds head xs m) (hunlocked : m.locked = false) {q : Query}
    (hone : ∀ fd, q = .fd fd →
      xs.Pairwise fun x y => (m.session x).fd = fd → (m.session y).fd ≠ fd)
    {fuel : ℕ} (hfuel : xs.length < fuel) :
    m.sessionLook head q fuel = some ((xs.map m.session).find? q.hit, m) := by
  have hfind : (xs.map m.session).find? q.hit =
      (xs.find? fun x => q.hit (m.session x)).map m.session := List.find?_map ..
  simp only [SessionMem.sessionLook, h.sessionRef hunlocked hone hfuel, Option.bind_eq_bind,
    Option.bind_some, Option.pure_def, hfind]
  cases hx : xs.find? fun x => q.hit (m.session x) with
  | none => rfl
  | some x =>
    have hmem := List.mem_of_find?_eq_some hx
    have hload : (hold m x).load x = some (m.session x) := h.load hmem
    simp only [Option.elim_some, hload, h.sessionDref hunlocked hmem hfuel, Option.bind_some,
      Option.map_some]

end Holds

end Holds

/-! ## The table -/

namespace Keyed

variable {m : SessionMod}

theorem look (h : Keyed m) {q : Query} (hq : ∀ fd, q = .fd fd → fd ≠ -1) :
    m.look q = some ((m.sessionList.map (·.session)).find? q.hit, m) := by
  have hnone : m.refAll [] = some (none, m) := rfl
  have hfound : ∀ {n : SessionNode}, n ∈ m.sessionList →
      (m.hold n.addr).read n.addr = (n.session, m.hold n.addr) ∧
        (m.hold n.addr).dref n.addr = m :=
    fun hn => ⟨h.settled.read_hold hn, h.settled.dref_hold hn⟩
  rw [List.find?_map]
  cases q with
  | fd fd =>
    have hhead : m.sessionList.find? (Query.hit (.fd fd) ∘ SessionNode.session) =
        (m.sessionList.filter (SessionNode.hasFd fd)).head? := List.head?_filter.symm
    rw [hhead]
    rcases h.settled.distinct.filter_hasFd (hq fd rfl) with hnil | ⟨n, hn, -, hone⟩
    · simp [SessionMod.look, hnil, hnone]
    · simp [SessionMod.look, hone, h.settled.refAll_single n, hfound hn]
  | uid uid type =>
    have hsame : m.sessionList.find? (Query.hit (.uid uid type) ∘ SessionNode.session) =
        m.sessionList.find? (SessionNode.hasUid uid type) := rfl
    rw [hsame]
    cases hn : m.sessionList.find? (SessionNode.hasUid uid type) with
    | none => simp [SessionMod.look, hn, hnone]
    | some n =>
      have hmem := List.mem_of_find?_eq_some hn
      simp [SessionMod.look, hn, h.settled.refAll_single n, hfound hmem]
  | token token =>
    have hsame : m.sessionList.find? (Query.hit (.token token) ∘ SessionNode.session) =
        m.sessionList.find? (SessionNode.hasToken token) := rfl
    rw [hsame]
    cases hn : m.sessionList.find? (SessionNode.hasToken token) with
    | none => simp [SessionMod.look, SessionMod.refToken, hn]
    | some n =>
      have hmem := List.mem_of_find?_eq_some hn
      simp [SessionMod.look, h.settled.refToken_some hn, hfound hmem]

end Keyed

/-! ## Runs -/

/-- A call, with the cell that `calloc` has for it, or a look at a session. -/
inductive SessionOp (α : Type) where
  | call (c : SessionCall) (sess : α)
  | look (q : Query)

/-- What a call returns. -/
abbrev SessionAnswer := Bool ⊕ Option Session

namespace SessionOp

variable {α : Type} [DecidableEq α] [Zero α]

/-- In memory. -/
def run (head : α) (fuel : ℕ) (m : SessionMem α) :
    SessionOp α → Option (SessionAnswer × SessionMem α)
  | call (.addFd s) sess =>
    (m.sessionAdd head sess (sessionForFd s) fuel).map fun r => (.inl r.1, r.2)
  | call (.addToken s) sess =>
    (m.sessionAdd head sess (sessionForToken s) fuel).map fun r => (.inl r.1, r.2)
  | call (.delFd fd) _ =>
    (m.sessionDel head (Query.hit (.fd fd)) fuel).map fun r => (.inl r.1, r.2)
  | call (.delToken uid) _ =>
    (m.sessionDel head (Query.hit (.uid uid .token)) fuel).map fun r => (.inl r.1, r.2)
  | look q => (m.sessionLook head q fuel).map fun r => (.inr r.1, r.2)

/-- On the table. -/
def spec (n : SessionMod) : SessionOp α → Option (SessionAnswer × SessionMod)
  | call c _ => (c.exec n).map fun r => (.inl r.1, r.2)
  | look q => (n.look q).map fun r => (.inr r.1, r.2)

/-- The asserts on the arguments, and `calloc` has a cell that is not in use. -/
def Allowed (m : SessionMem α) : SessionOp α → Prop
  | call c sess => c.Valid ∧ ¬ m.heap.live sess
  | look (.fd fd) => fd ≠ -1
  | look _ => True

/-- The memory and the table beside each other. -/
def step (head : α) (s : SessionMem α × SessionMod) (e : SessionOp α × ℕ) :
    Option (SessionMem α × SessionMod) := do
  let (_, m) ← e.1.run head e.2 s.1
  let (_, n) ← e.1.spec s.2
  return (m, n)

end SessionOp

/-- The cells `xs` are behind the sessions of the table. -/
structure Linked {α : Type} [DecidableEq α] (head : α) (xs : List α) (m : SessionMem α)
    (n : SessionMod) : Prop where
  holds : Holds head xs m
  unlocked : m.locked = false
  sessions : xs.map m.session = n.sessionList.map (·.session)
  keyed : Keyed n

namespace Linked

variable {α : Type} [DecidableEq α] {head : α} {xs : List α} {m : SessionMem α} {n : SessionMod}

theorem length_eq (h : Linked head xs m n) : xs.length = n.sessionList.length := by
  simpa using congrArg List.length h.sessions

theorem any_eq (h : Linked head xs m n) (p : Session → Bool) :
    (xs.any fun x => p (m.session x)) = n.sessionList.any fun n => p n.session := by
  have hany := congrArg (List.any · p) h.sessions
  simpa [List.any_map, Function.comp_def] using hany

theorem filter_eq (h : Linked head xs m n) (p : Session → Bool) :
    (xs.filter fun x => p (m.session x)).map m.session =
      (n.sessionList.filter fun n => p n.session).map (·.session) := by
  have hfilter := congrArg (List.filter p) h.sessions
  simpa [List.filter_map, Function.comp_def] using hfilter

theorem one_fd (h : Linked head xs m n) {fd : ℤ} (hfd : fd ≠ -1) :
    xs.Pairwise fun x y => (m.session x).fd = fd → (m.session y).fd ≠ fd := by
  have hdistinct : (n.sessionList.map (·.session)).Pairwise
      fun s s' => s.fd = s'.fd → s.fd = -1 := List.pairwise_map.mpr h.keyed.settled.distinct
  rw [← h.sessions] at hdistinct
  refine (List.pairwise_map.mp hdistinct).imp fun hxy hx hy => hfd ?_
  rw [← hx, hxy (hx.trans hy.symm)]

variable [Zero α]

theorem add (h : Linked head xs m n) {s : Session} {sess : α} (hsess : ¬ m.heap.live sess)
    (hfd : s.sType = .fd → 0 ≤ s.fd) (htoken : s.sType = .token → s.fd = -1) {fuel : ℕ}
    (hfuel : xs.length < fuel) :
    ∃ b m' n' xs', m.sessionAdd head sess s fuel = some (b, m') ∧ n.add s = some (b, n') ∧
      Linked head xs' m' n' := by
  have hany := h.any_eq fun x => sessionConflict s ⟨0, x⟩
  have hconflict : (n.sessionList.any fun n => sessionConflict s ⟨0, n.session⟩) =
      n.sessionList.any (sessionConflict s) := rfl
  rcases h.holds.sessionAdd h.unlocked hsess s hfuel with
    ⟨hhit, hadd⟩ | ⟨hfree, m', hadd, hholds, hsession, hunlocked⟩
  · refine ⟨false, m, n, xs, hadd, h.keyed.settled.add_conflict ?_, h⟩
    rw [← hconflict, ← hany, hhit]
  · have hnone : ∀ n' ∈ n.sessionList, sessionConflict s n' = false := by
      rw [hany, hconflict] at hfree
      simpa using hfree
    refine ⟨true, m', n.insert s, xs ++ [sess], hadd, h.keyed.settled.add_free hnone, hholds,
      hunlocked, ?_, h.keyed.insert hfd htoken hnone⟩
    have hout : sess ∉ xs := fun hin =>
      hsess ((h.holds.live sess).mpr (List.mem_cons_of_mem _ hin))
    have hold : xs.map m'.session = xs.map m.session := by
      refine List.map_congr_left fun x hx => ?_
      rw [hsession, Function.update_of_ne (ne_of_mem_of_not_mem hx hout)]
    rw [List.map_append, hold, h.sessions]
    simp [SessionMod.insert, hsession]

theorem del (h : Linked head xs m n) (hit : Session → Bool) {fuel : ℕ}
    (hfuel : xs.length < fuel) :
    ∃ b m' n' xs', m.sessionDel head hit fuel = some (b, m') ∧
      n.delAll (fun n => hit n.session) = some (b, n') ∧ Linked head xs' m' n' := by
  obtain ⟨m', hdel, hholds, hsession, hunlocked⟩ := h.holds.sessionDel h.unlocked hit hfuel
  rw [h.any_eq] at hdel
  refine ⟨_, m', _, _, hdel, h.keyed.settled.delAll _, hholds, hunlocked, ?_,
    h.keyed.remove _⟩
  rw [hsession]
  exact h.filter_eq fun s => !hit s

/-- One call returns the same in memory and on the table. -/
theorem run (h : Linked head xs m n) {op : SessionOp α} (hop : op.Allowed m) {fuel : ℕ}
    (hfuel : n.sessionList.length < fuel) :
    ∃ answer m' n' xs', op.run head fuel m = some (answer, m') ∧ op.spec n = some (answer, n') ∧
      Linked head xs' m' n' := by
  rw [← h.length_eq] at hfuel
  cases op with
  | call c sess =>
    obtain ⟨hc, hsess⟩ := hop
    cases c with
    | addFd s =>
      obtain ⟨b, m', n', xs', hrun, hspec, h'⟩ :=
        h.add (s := sessionForFd s) hsess (fun _ => hc) (by simp [sessionForFd]) hfuel
      exact ⟨.inl b, m', n', xs', by simp [SessionOp.run, hrun],
        by simp [SessionOp.spec, SessionCall.exec, hspec], h'⟩
    | addToken s =>
      obtain ⟨b, m', n', xs', hrun, hspec, h'⟩ :=
        h.add (s := sessionForToken s) hsess (by simp [sessionForToken]) (fun _ => rfl) hfuel
      exact ⟨.inl b, m', n', xs', by simp [SessionOp.run, hrun],
        by simp [SessionOp.spec, SessionCall.exec, hspec], h'⟩
    | delFd fd =>
      obtain ⟨b, m', n', xs', hrun, hspec, h'⟩ := h.del (Query.hit (.fd fd)) hfuel
      have hspec' : n.delAll (SessionNode.hasFd fd) = some (b, n') := hspec
      exact ⟨.inl b, m', n', xs', by simp [SessionOp.run, hrun],
        by simp [SessionOp.spec, SessionCall.exec, hspec'], h'⟩
    | delToken uid =>
      obtain ⟨b, m', n', xs', hrun, hspec, h'⟩ := h.del (Query.hit (.uid uid .token)) hfuel
      have hspec' : n.delAll (SessionNode.hasUid uid .token) = some (b, n') := hspec
      exact ⟨.inl b, m', n', xs', by simp [SessionOp.run, hrun],
        by simp [SessionOp.spec, SessionCall.exec, hspec'], h'⟩
  | look q =>
    have hq : ∀ fd, q = .fd fd → fd ≠ -1 := by
      rintro fd rfl
      exact hop
    have hrun := h.holds.sessionLook h.unlocked (fun fd heq => h.one_fd (hq fd heq)) hfuel
    have hspec := h.keyed.look hq
    rw [h.sessions] at hrun
    exact ⟨.inr ((n.sessionList.map (·.session)).find? q.hit), m, n, xs,
      by simp [SessionOp.run, hrun], by simp [SessionOp.spec, hspec], h⟩

end Linked

section Reachable

variable {α : Type} [DecidableEq α] [Zero α] {head : α} {heap : Heap α} {session : α → Session}
  {ref : α → ℤ} {m₀ m : SessionMem α} {freed : Session} {n : SessionMod}

omit [Zero α] in
theorem linked_init (hlive : ∀ a, heap.live a ↔ a = head)
    (hinit : SessionMem.sessionInit head heap session ref = some m₀) :
    Linked head [] m₀ (.init freed) := by
  have hnone : Represents heap fun _ => none := ⟨by simp, by simp, by simp⟩
  have hnew : ¬ Contents.Has (fun _ : α => none) head := by
    rintro ⟨h, xs, heq, -⟩
    cases heq
  obtain ⟨heap', hhead, r, hsame⟩ := hnone.initListHead ((hlive head).mpr rfl) hnew
  simp only [SessionMem.sessionInit, hhead, Option.map_some] at hinit
  obtain rfl := Option.some.inj hinit
  refine ⟨⟨r, fun a => ?_, by simp⟩, rfl, rfl, .init freed⟩
  simp [hsame, hlive]

/-- After `session_init` and any calls, whatever cells `calloc` had for them: the next call
reads no cell that was given back, needs no more rounds than there are sessions, and
returns what it returns on the table. The list in memory has the sessions of the table in
their order, no other cell is allocated, and `session_destroy` gives back all of them. -/
theorem session_list_refines (hlive : ∀ a, heap.live a ↔ a = head)
    (hinit : SessionMem.sessionInit head heap session ref = some m₀)
    (h : Reaches (SessionOp.step head)
      (fun s e => e.1.Allowed s.1 ∧ s.2.sessionList.length < e.2) (m₀, .init freed) (m, n)) :
    (∀ (op : SessionOp α) (fuel : ℕ), op.Allowed m → n.sessionList.length < fuel →
      ∃ answer m' n', op.run head fuel m = some (answer, m') ∧
        op.spec n = some (answer, n')) ∧
    (∃ xs, m.heap.links.Ring head xs ∧ xs.map m.session = n.sessionList.map (·.session) ∧
      ∀ a, m.heap.live a ↔ a = head ∨ a ∈ xs) ∧
    ∀ fuel, n.sessionList.length < fuel →
      ∃ m', m.sessionDestroy head fuel = some m' ∧ ∀ a, m'.heap.live a ↔ a = head := by
  have hlinked : ∃ xs, Linked head xs m n := by
    refine h.invariant (P := fun s => ∃ xs, Linked head xs s.1 s.2)
      ⟨[], linked_init hlive hinit⟩ ?_
    rintro ⟨m, n⟩ ⟨op, fuel⟩ s' ⟨xs, hs⟩ ⟨hop, hfuel⟩ hstep
    obtain ⟨answer, m', n', xs', hrun, hspec, hs'⟩ := hs.run hop hfuel
    simp only [SessionOp.step, hrun, hspec, Option.bind_eq_bind, Option.bind_some,
      Option.pure_def] at hstep
    obtain rfl := Option.some.inj hstep
    exact ⟨xs', hs'⟩
  obtain ⟨xs, hs⟩ := hlinked
  refine ⟨fun op fuel hop hfuel => ?_, ⟨xs, hs.holds.rep.ring (only_self head xs), hs.sessions,
    fun a => (hs.holds.live a).trans List.mem_cons⟩, fun fuel hfuel => ?_⟩
  · obtain ⟨answer, m', n', -, hrun, hspec, -⟩ := hs.run hop hfuel
    exact ⟨answer, m', n', hrun, hspec⟩
  · rw [← hs.length_eq] at hfuel
    obtain ⟨m', hdel, hholds, -, -⟩ := hs.holds.sessionDel hs.unlocked (fun _ => true) hfuel
    refine ⟨m', by simp [SessionMem.sessionDestroy, hdel], fun a => ?_⟩
    simpa using hholds.live a

/-- `ann` logs in on connection 5, and `calloc` has cell 2 for her session. -/
theorem session_list_refines_ann :
    let s : Session := ⟨accountMenu, lit "ann", 0, .fd, lit "t", 5⟩
    ∃ (m₀ m : SessionMem ℕ) (n : SessionMod),
      Reaches (SessionOp.step 1) (fun s e => e.1.Allowed s.1 ∧ s.2.sessionList.length < e.2)
        (m₀, .init s) (m, n) ∧
      n.sessionList.map (·.session) = [sessionForFd s] ∧
      ∃ xs, m.heap.links.Ring 1 xs ∧
        xs.map m.session = n.sessionList.map (·.session) ∧
        ∀ a, m.heap.live a ↔ a = 1 ∨ a ∈ xs := by
  intro s
  let heap : Heap ℕ := ⟨⟨fun _ => 0, fun _ => 0⟩, fun a => decide (a = 1)⟩
  have hlive : ∀ a, heap.live a ↔ a = 1 := by simp [heap]
  let m₀ : SessionMem ℕ :=
    ⟨⟨(heap.links.setNext 1 1).setPrev 1 1, heap.live⟩, fun _ => s, fun _ => 0, false⟩
  have hinit : SessionMem.sessionInit 1 heap (fun _ => s) (fun _ => 0) = some m₀ := rfl
  have hrun : Reaches (SessionOp.step 1)
      (fun s e => e.1.Allowed s.1 ∧ s.2.sessionList.length < e.2) (m₀, .init s) (_, _) :=
    .tail (e := (.call (.addFd s) 2, 1)) .refl
      ⟨⟨show (0 : ℤ) ≤ 5 by decide, show ¬ (false = true) by decide⟩, Nat.one_pos⟩ rfl
  exact ⟨m₀, _, _, hrun, rfl, (session_list_refines hlive hinit hrun).2.1⟩

end Reachable

end Youmenu.Server
