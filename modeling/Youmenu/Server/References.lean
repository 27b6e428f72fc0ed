import Youmenu.Lib.Transition
import Youmenu.Server.Accounts
import Mathlib.Logic.Function.Basic

/-!
# References to sessions

The handlers run one after the other on the session module with its lock and its
reference counts. A handler gives back what it took if at its end the lock is free,
all counts are as before and no session was read after it was given back.

## Main definitions

* `SessionMod`, `interp` — the session module and what each call does to it.
* `GivesBack` — what is asked of a handler.
* `Settled` — the state between two handlers.
* `Returning` — the requests on which the handlers give back what they took.
-/

namespace Youmenu.Server

open Eventpack Transition

/-! ## The source -/

/-- `usable` has the pointers that `session_ref_*` returned and that were not passed
to `session_dref` since, `staleRead` is set by a read through any other pointer,
and `freed` is what such a read may find. -/
structure SessionMod where
  sessionList : List SessionNode
  refcount : ℕ → ℤ
  next : ℕ
  locked : Bool
  usable : List ℕ
  staleRead : Bool
  freed : Session

namespace SessionMod

/-- After `session_init`. -/
def init (freed : Session) : SessionMod := ⟨[], fun _ => 0, 0, false, [], false, freed⟩

/-- `none`: nobody else is there to unlock it. -/
def lock (m : SessionMod) : Option SessionMod :=
  if m.locked then none else some { m with locked := true }

def prefGet (m : SessionMod) (addr : ℕ) : SessionMod :=
  { m with refcount := Function.update m.refcount addr (m.refcount addr + 1) }

def prefPut (m : SessionMod) (addr : ℕ) : SessionMod :=
  { m with refcount := Function.update m.refcount addr (m.refcount addr - 1) }

/-- `none`: the wait has no end. -/
def prefRelease (m : SessionMod) (addr : ℕ) : Option SessionMod :=
  if m.refcount addr = 0 then some m else none

/-- The end of `session_ref_fd` and `session_ref_uid`: references are taken on all
sessions that were found, and the last one is returned under the lock. -/
def refAll (m : SessionMod) (found : List SessionNode) : Option (Option ℕ × SessionMod) :=
  let m := found.foldl (fun m n => m.prefGet n.addr) m
  match found.getLast? with
  | none => some (none, m)
  | some n => m.lock.map fun m => (some n.addr, { m with usable := n.addr :: m.usable })

def refToken (m : SessionMod) (token : CString) : Option (Option ℕ × SessionMod) :=
  match m.sessionList.find? (SessionNode.hasToken token) with
  | none => some (none, m)
  | some n =>
    m.lock.map fun m =>
      (some n.addr, { m.prefGet n.addr with usable := n.addr :: m.usable })

def dref (m : SessionMod) (session : ℕ) : SessionMod :=
  let m := if m.sessionList.any (·.addr = session) then m.prefPut session else m
  { m with locked := false, usable := m.usable.erase session }

def read (m : SessionMod) (session : ℕ) : Session × SessionMod :=
  (((m.sessionList.find? (·.addr = session)).map (·.session)).getD m.freed,
    { m with staleRead := m.staleRead || session ∉ m.usable })

/-- The loop of `session_del_fd` and `session_del_token`. -/
def delAll (m : SessionMod) (hit : SessionNode → Bool) : Option (Bool × SessionMod) := do
  let m ← m.lock
  let found := m.sessionList.filter hit
  let m ← found.foldlM (fun m n =>
    { m with sessionList := m.sessionList.filter (·.addr ≠ n.addr) }.prefRelease n.addr) m
  return (found ≠ [], { m with locked := false })

def add (m : SessionMod) (s : Session) : Option (Bool × SessionMod) := do
  let m ← m.lock
  if m.sessionList.any (sessionConflict s) then return (false, { m with locked := false })
  else
    return (true, { m with locked := false
                           sessionList := m.sessionList ++ [⟨m.next, s⟩]
                           refcount := Function.update m.refcount m.next 0
                           next := m.next + 1 })

end SessionMod

variable {δ : Type}

/-- What each call of a handler does. -/
def interp (db : Db δ) : (e : Effect) → SessionMod × δ → Option (e.Result × (SessionMod × δ))
  | .refFd fd, (m, d) =>
    (m.refAll (m.sessionList.filter (SessionNode.hasFd fd))).map fun r => (r.1, r.2, d)
  | .refUid uid type, (m, d) =>
    (m.refAll (m.sessionList.find? (SessionNode.hasUid uid type)).toList).map fun r =>
      (r.1, r.2, d)
  | .refToken token, (m, d) => (m.refToken token).map fun r => (r.1, r.2, d)
  | .dref session, (m, d) => some ((), m.dref session, d)
  | .read session, (m, d) => some ((m.read session).1, (m.read session).2, d)
  | .delFd fd, (m, d) => (m.delAll (SessionNode.hasFd fd)).map fun r => (r.1, r.2, d)
  | .delToken uid, (m, d) =>
    (m.delAll (SessionNode.hasUid uid .token)).map fun r => (r.1, r.2, d)
  | .addFd s, (m, d) => (m.add (sessionForFd s)).map fun r => (r.1, r.2, d)
  | .addToken s, (m, d) => (m.add (sessionForToken s)).map fun r => (r.1, r.2, d)
  | .db op, (m, d) => some ((db op d).1, m, (db op d).2)

/-- A worker handles a request, or `service_event_cb` hears of a closed connection. -/
inductive ServerEvent where
  | request (r : Request)
  | disconnect (fd : ℕ)

def serverStep (db : Db δ) (s : SessionMod × δ) : ServerEvent → Option (SessionMod × δ)
  | .request r => (r.handler.exec (interp db) s).map (·.2)
  | .disconnect fd => (s.1.delAll (SessionNode.hasFd fd)).map fun r => (r.2, s.2)

/-! ## Between two handlers -/

/-- The handler returns with the lock free, all counts as they were and no read of a
session after its `session_dref`. -/
def GivesBack (db : Db δ) (s : SessionMod × δ) (h : Handler Reply) : Prop :=
  ∃ reply m' d', h.exec (interp db) s = some (reply, m', d') ∧ m'.locked = false ∧
    (∀ addr, m'.refcount addr = s.1.refcount addr) ∧ m'.staleRead = false

/-- A property of the type, the user and the administrator flag of a session. -/
abbrev LoginProp := ℤ → CString → ℤ → Prop

def LoginProp.Holds (P : LoginProp) (s : Session) : Prop := P s.aType s.uid s.admin

/-- Nothing is held, every address and every connection is there only once, and all
sessions meet `P`. -/
structure Settled (P : LoginProp) (m : SessionMod) : Prop where
  unlocked : m.locked = false
  counts : ∀ addr, m.refcount addr = 0
  unused : m.usable = []
  addrs : m.sessionList.Pairwise fun n n' => n.addr ≠ n'.addr
  old : ∀ n ∈ m.sessionList, n.addr < m.next
  distinct : Distinct m.sessionList
  sessions : ∀ n ∈ m.sessionList, P.Holds n.session

theorem Settled.init (P : LoginProp) (freed : Session) : Settled P (.init freed) :=
  ⟨rfl, fun _ => rfl, rfl, .nil, by simp [SessionMod.init], .nil, by simp [SessionMod.init]⟩

/-- The module while a handler holds one session. -/
def SessionMod.hold (m : SessionMod) (addr : ℕ) : SessionMod :=
  { m with refcount := Function.update m.refcount addr 1, locked := true, usable := [addr] }

/-- The module after a deletion that waits for nobody. -/
def SessionMod.remove (m : SessionMod) (hit : SessionNode → Bool) : SessionMod :=
  { m with sessionList := m.sessionList.filter fun n => !hit n }

/-- The module after a session was added. -/
def SessionMod.insert (m : SessionMod) (s : Session) : SessionMod :=
  { m with sessionList := m.sessionList ++ [⟨m.next, s⟩], next := m.next + 1 }

/-- The loop of a deletion drops the addresses that were found, and nothing else. -/
theorem SessionMod.delLoop_eq {found : List SessionNode} {m m' : SessionMod}
    (h : found.foldlM (fun m n =>
      { m with sessionList := m.sessionList.filter (·.addr ≠ n.addr) }.prefRelease n.addr) m =
        some m') :
    m' = { m with
      sessionList := m.sessionList.filter fun n => found.all (n.addr ≠ ·.addr) } := by
  induction found generalizing m with
  | nil =>
    obtain rfl := Option.some.inj h
    simp
  | cons n found ih =>
    obtain ⟨m₁, hfirst, hrest⟩ := Option.bind_eq_some_iff.mp h
    simp only [prefRelease] at hfirst
    split_ifs at hfirst
    obtain rfl := Option.some.inj hfirst
    rw [ih hrest]
    simp only [List.filter_filter, List.all_cons, Bool.and_comm]

theorem SessionMod.delAll_eq {m m' : SessionMod} {hit : SessionNode → Bool} {b : Bool}
    (h : m.delAll hit = some (b, m')) :
    m' = { m with sessionList :=
      m.sessionList.filter fun n => (m.sessionList.filter hit).all (n.addr ≠ ·.addr) } := by
  obtain ⟨m₁, hlock, h⟩ := Option.bind_eq_some_iff.mp h
  unfold lock at hlock
  split_ifs at hlock with hlocked
  obtain rfl := Option.some.inj hlock
  obtain ⟨m₂, hdel, heq⟩ := Option.bind_eq_some_iff.mp h
  obtain ⟨-, rfl⟩ := Prod.mk.inj (Option.some.inj heq)
  rw [delLoop_eq hdel, ← Bool.eq_false_iff.mpr hlocked]

section Calls

variable {P : LoginProp} {m : SessionMod} (hm : Settled P m)

include hm

theorem Settled.refAll_single (n : SessionNode) :
    m.refAll [n] = some (some n.addr, m.hold n.addr) := by
  simp [SessionMod.refAll, SessionMod.lock, SessionMod.prefGet, SessionMod.hold, hm.unlocked,
    hm.counts, hm.unused]

theorem Settled.refToken_some {token : CString} {n : SessionNode}
    (hn : m.sessionList.find? (SessionNode.hasToken token) = some n) :
    m.refToken token = some (some n.addr, m.hold n.addr) := by
  simp [SessionMod.refToken, hn, SessionMod.lock, SessionMod.prefGet, SessionMod.hold,
    hm.unlocked, hm.counts, hm.unused]

theorem Settled.find_addr {n : SessionNode} (hn : n ∈ m.sessionList) :
    m.sessionList.find? (·.addr = n.addr) = some n := by
  have haddrs := hm.addrs
  generalize m.sessionList = list at haddrs hn
  induction list with
  | nil => simp at hn
  | cons n' list ih =>
    obtain ⟨hne, hrest⟩ := List.pairwise_cons.mp haddrs
    rcases List.mem_cons.mp hn with rfl | hn
    · simp
    · rw [List.find?_cons_of_neg (by simpa using hne n hn)]
      exact ih hrest hn

theorem Settled.read_hold {n : SessionNode} (hn : n ∈ m.sessionList) :
    (m.hold n.addr).read n.addr = (n.session, m.hold n.addr) := by
  have hfind := hm.find_addr hn
  simp only [SessionMod.read, SessionMod.hold, hfind]
  simp

theorem Settled.read_stale {n : SessionNode} (hn : n ∈ m.sessionList) :
    m.read n.addr = (n.session, { m with staleRead := true }) := by
  have hfind := hm.find_addr hn
  simp only [SessionMod.read, hfind]
  simp [hm.unused]

theorem Settled.stale : Settled P { m with staleRead := true } :=
  ⟨hm.unlocked, hm.counts, hm.unused, hm.addrs, hm.old, hm.distinct, hm.sessions⟩

theorem Settled.dref_hold {n : SessionNode} (hn : n ∈ m.sessionList) :
    (m.hold n.addr).dref n.addr = m := by
  have hlinked : m.sessionList.any (·.addr = n.addr) = true := by
    rw [List.any_eq_true]
    exact ⟨n, hn, by simp⟩
  have hcount : Function.update m.refcount n.addr 0 = m.refcount := by
    rw [← hm.counts n.addr, Function.update_eq_self]
  simp only [SessionMod.dref, SessionMod.hold, SessionMod.prefPut, hlinked, if_true]
  simp [hcount, ← hm.unlocked, ← hm.unused]

/-- An address stands for one session. -/
theorem Settled.addr_inj {n n' : SessionNode} (hn : n ∈ m.sessionList) (hn' : n' ∈ m.sessionList)
    (haddr : n.addr = n'.addr) : n = n' := by
  have hfind := hm.find_addr hn
  rw [haddr, hm.find_addr hn'] at hfind
  exact (Option.some.inj hfind).symm

theorem Settled.remove (hit : SessionNode → Bool) : Settled P (m.remove hit) :=
  ⟨hm.unlocked, hm.counts, hm.unused, hm.addrs.filter _,
    fun n hn => hm.old n (List.mem_filter.mp hn).1, hm.distinct.filter _,
    fun n hn => hm.sessions n (List.mem_filter.mp hn).1⟩

/-- A deletion between two handlers waits for nobody. -/
theorem Settled.delAll (hit : SessionNode → Bool) :
    m.delAll hit = some (m.sessionList.any hit, m.remove hit) := by
  -- the loop drops the addresses that were found
  have hloop : ∀ (found : List SessionNode) (m : SessionMod), (∀ addr, m.refcount addr = 0) →
      found.foldlM (fun m n =>
        { m with sessionList := m.sessionList.filter (·.addr ≠ n.addr) }.prefRelease n.addr) m =
          some { m with
            sessionList := m.sessionList.filter fun n => found.all (n.addr ≠ ·.addr) } := by
    intro found
    induction found with
    | nil => exact fun m _ => by simp
    | cons n found ih =>
      intro m hcounts
      have hrest := ih { m with sessionList := m.sessionList.filter (·.addr ≠ n.addr) } hcounts
      simp only [SessionMod.prefRelease] at hrest
      rw [List.foldlM_cons]
      simp only [SessionMod.prefRelease, hcounts, if_true, Option.bind_eq_bind, Option.bind_some]
      rw [hrest]
      simp only [List.filter_filter, List.all_cons, Bool.and_comm]
  have hfound : m.sessionList.filter (fun n => (m.sessionList.filter hit).all (n.addr ≠ ·.addr)) =
      m.sessionList.filter fun n => !hit n := by
    refine List.filter_congr fun n hn => ?_
    cases hhit : hit n with
    | true =>
      rw [Bool.not_true, List.all_eq_false]
      exact ⟨n, List.mem_filter.mpr ⟨hn, hhit⟩, by simp⟩
    | false =>
      rw [Bool.not_false, List.all_eq_true]
      intro n' hn'
      obtain ⟨hmem, hhit'⟩ := List.mem_filter.mp hn'
      have hne : n.addr ≠ n'.addr := by
        intro haddr
        rw [hm.addr_inj hn hmem haddr, hhit'] at hhit
        cases hhit
      simpa using hne
  have hany : decide (m.sessionList.filter hit ≠ []) = m.sessionList.any hit := by
    rw [Bool.eq_iff_iff, decide_eq_true_eq, List.any_eq_true, ne_eq, List.filter_eq_nil_iff]
    simp
  have hrun := hloop (m.sessionList.filter hit) { m with locked := true } hm.counts
  simp only [SessionMod.delAll, SessionMod.lock, hm.unlocked, Bool.false_eq_true, if_false,
    Option.bind_eq_bind, Option.bind_some, hrun, Option.pure_def, hany]
  rw [hfound, SessionMod.remove, ← hm.unlocked]

theorem Settled.insert {s : Session} (hs : s.fd = -1 ∨
    s.sType = .fd ∧ ∀ n ∈ m.sessionList, sessionConflict s n = false) (hP : P.Holds s) :
    Settled P (m.insert s) := by
  refine ⟨hm.unlocked, hm.counts, hm.unused, ?_, ?_, hm.distinct.add hs, ?_⟩
  · exact pairwise_add hm.addrs fun n hn => (hm.old n hn).ne
  · intro n hn
    rcases List.mem_append.mp hn with hn | hn
    · exact Nat.lt_succ_of_lt (hm.old n hn)
    · rw [List.mem_singleton.mp hn]
      exact Nat.lt_succ_self _
  · exact List.forall_mem_append.mpr ⟨hm.sessions, List.forall_mem_singleton.mpr hP⟩

theorem Settled.add_free {s : Session} (h : ∀ n ∈ m.sessionList, sessionConflict s n = false) :
    m.add s = some (true, m.insert s) := by
  have hfree : m.sessionList.any (sessionConflict s) = false := by simpa using h
  have hcount : Function.update m.refcount m.next 0 = m.refcount := by
    rw [← hm.counts m.next, Function.update_eq_self]
  simp only [SessionMod.add, SessionMod.lock, hm.unlocked, Bool.false_eq_true, if_false,
    Option.bind_eq_bind, Option.bind_some, hfree, Option.pure_def, hcount]
  rw [SessionMod.insert, ← hm.unlocked]

/-- A refused session leaves the module as it was. -/
theorem Settled.add_conflict {s : Session} (h : m.sessionList.any (sessionConflict s) = true) :
    m.add s = some (false, m) := by
  simp only [SessionMod.add, SessionMod.lock, hm.unlocked, Bool.false_eq_true, if_false,
    Option.bind_eq_bind, Option.bind_some, h, if_true, Option.pure_def]
  rw [← hm.unlocked]

theorem Settled.add {s : Session} (hs : s.sType = .fd ∨ s.fd = -1) (hP : P.Holds s) :
    ∃ b m', m.add s = some (b, m') ∧ Settled P m' ∧ m'.staleRead = m.staleRead := by
  cases hconflict : m.sessionList.any (sessionConflict s) with
  | true => exact ⟨false, m, hm.add_conflict hconflict, hm, rfl⟩
  | false =>
    have hfree : ∀ n ∈ m.sessionList, sessionConflict s n = false := by simpa using hconflict
    refine ⟨true, m.insert s, hm.add_free hfree, hm.insert ?_ hP, rfl⟩
    exact hs.symm.imp_right fun htype => ⟨htype, hfree⟩

end Calls

/-! ## Calls of a handler -/

section Wp

variable {db : Db δ} {P : LoginProp} {m : SessionMod} {d : δ} {α : Type}
  {Q : α → SessionMod × δ → Prop} {k : Option ℕ → Handler α}

open Program

/-- `session_ref_fd` finds no session, or the only one of the connection. -/
theorem wp_refFd (hm : Settled P m) {fd : ℕ}
    (hnone : (∀ n ∈ m.sessionList, n.session.fd ≠ fd) → (k none).wp (interp db) Q (m, d))
    (hsome : ∀ n ∈ m.sessionList, n.session.fd = fd →
      (k (some n.addr)).wp (interp db) Q (m.hold n.addr, d)) :
    (sessionRefFd fd >>= k).wp (interp db) Q (m, d) := by
  rcases hm.distinct.filter_hasFd (show (fd : ℤ) ≠ -1 by omega) with hnil | ⟨n, hn, hfd, hone⟩
  · refine (wp_call ?_).mpr (hnone ?_)
    · simp only [interp, hnil]
      rfl
    · intro n hn hfd
      have := List.filter_eq_nil_iff.mp hnil n hn
      simp [SessionNode.hasFd, hfd] at this
  · refine (wp_call ?_).mpr (hsome n hn hfd)
    simp only [interp, hone, hm.refAll_single]
    rfl

theorem wp_refUid (hm : Settled P m) {uid : CString} {type : SessionType}
    (hnone : m.sessionList.any (SessionNode.hasUid uid type) = false →
      (k none).wp (interp db) Q (m, d))
    (hsome : ∀ n ∈ m.sessionList, n.hasUid uid type →
      (k (some n.addr)).wp (interp db) Q (m.hold n.addr, d)) :
    (sessionRefUid uid type >>= k).wp (interp db) Q (m, d) := by
  cases hn : m.sessionList.find? (SessionNode.hasUid uid type) with
  | none =>
    refine (wp_call ?_).mpr (hnone (by simpa using hn))
    simp only [interp, hn]
    rfl
  | some n =>
    refine (wp_call ?_).mpr (hsome n (List.mem_of_find?_eq_some hn) (List.find?_some hn))
    simp only [interp, hn, Option.toList_some, hm.refAll_single]
    rfl

theorem wp_refToken (hm : Settled P m) {token : CString}
    (hnone : m.sessionList.find? (SessionNode.hasToken token) = none →
      (k none).wp (interp db) Q (m, d))
    (hsome : ∀ n ∈ m.sessionList, m.sessionList.find? (SessionNode.hasToken token) = some n →
      (k (some n.addr)).wp (interp db) Q (m.hold n.addr, d)) :
    (sessionRefToken token >>= k).wp (interp db) Q (m, d) := by
  cases hn : m.sessionList.find? (SessionNode.hasToken token) with
  | none =>
    refine (wp_call ?_).mpr (hnone hn)
    simp only [interp, SessionMod.refToken, hn]
    rfl
  | some n =>
    refine (wp_call ?_).mpr (hsome n (List.mem_of_find?_eq_some hn) hn)
    simp only [interp, hm.refToken_some hn]
    rfl

theorem wp_read (hm : Settled P m) {n : SessionNode} (hn : n ∈ m.sessionList)
    {k : Session → Handler α} :
    (sessionRead n.addr >>= k).wp (interp db) Q (m.hold n.addr, d) ↔
      (k n.session).wp (interp db) Q (m.hold n.addr, d) :=
  wp_call (by simp only [interp, hm.read_hold hn])

theorem wp_read_stale (hm : Settled P m) {n : SessionNode} (hn : n ∈ m.sessionList)
    {k : Session → Handler α} :
    (sessionRead n.addr >>= k).wp (interp db) Q (m, d) ↔
      (k n.session).wp (interp db) Q ({ m with staleRead := true }, d) :=
  wp_call (by simp only [interp, hm.read_stale hn])

theorem wp_dref (hm : Settled P m) {n : SessionNode} (hn : n ∈ m.sessionList)
    {k : Unit → Handler α} :
    (sessionDref n.addr >>= k).wp (interp db) Q (m.hold n.addr, d) ↔
      (k ()).wp (interp db) Q (m, d) :=
  wp_call (by simp only [interp, hm.dref_hold hn])

theorem wp_db {op : DbOp} {k : op.Result → Handler α} :
    (Server.db op >>= k).wp (interp db) Q (m, d) ↔
      (k (db op d).1).wp (interp db) Q (m, (db op d).2) :=
  wp_call rfl

theorem wp_delFd_eq (hm : Settled P m) {fd : ℤ} {k : Bool → Handler α} :
    (sessionDelFd fd >>= k).wp (interp db) Q (m, d) ↔
      (k (m.sessionList.any (SessionNode.hasFd fd))).wp (interp db) Q
        (m.remove (SessionNode.hasFd fd), d) :=
  wp_call (by rw [interp, hm.delAll, Option.map_some])

theorem wp_delToken_eq (hm : Settled P m) {uid : CString} {k : Bool → Handler α} :
    (sessionDelToken uid >>= k).wp (interp db) Q (m, d) ↔
      (k (m.sessionList.any (SessionNode.hasUid uid .token))).wp (interp db) Q
        (m.remove (SessionNode.hasUid uid .token), d) :=
  wp_call (by rw [interp, hm.delAll, Option.map_some])

theorem wp_addFd_free (hm : Settled P m) {s : Session} {k : Bool → Handler α}
    (hfree : ∀ n ∈ m.sessionList, sessionConflict (sessionForFd s) n = false) :
    (sessionAddFd s >>= k).wp (interp db) Q (m, d) ↔
      (k true).wp (interp db) Q (m.insert (sessionForFd s), d) :=
  wp_call (by rw [interp, hm.add_free hfree, Option.map_some])

theorem wp_addToken_free (hm : Settled P m) {s : Session} {k : Bool → Handler α}
    (hfree : ∀ n ∈ m.sessionList, sessionConflict (sessionForToken s) n = false) :
    (sessionAddToken s >>= k).wp (interp db) Q (m, d) ↔
      (k true).wp (interp db) Q (m.insert (sessionForToken s), d) :=
  wp_call (by rw [interp, hm.add_free hfree, Option.map_some])

/-- The deletions of the session module keep the module settled. -/
theorem wp_delFd (hm : Settled P m) {fd : ℤ} {k : Bool → Handler α}
    (h : ∀ b m', Settled P m' → m'.staleRead = m.staleRead → (k b).wp (interp db) Q (m', d)) :
    (sessionDelFd fd >>= k).wp (interp db) Q (m, d) :=
  (wp_delFd_eq hm).mpr (h _ _ (hm.remove _) rfl)

theorem wp_delToken (hm : Settled P m) {uid : CString} {k : Bool → Handler α}
    (h : ∀ b m', Settled P m' → m'.staleRead = m.staleRead → (k b).wp (interp db) Q (m', d)) :
    (sessionDelToken uid >>= k).wp (interp db) Q (m, d) :=
  (wp_delToken_eq hm).mpr (h _ _ (hm.remove _) rfl)

theorem wp_addFd (hm : Settled P m) {s : Session} (hP : P.Holds s) {k : Bool → Handler α}
    (h : ∀ b m', Settled P m' → m'.staleRead = m.staleRead → (k b).wp (interp db) Q (m', d)) :
    (sessionAddFd s >>= k).wp (interp db) Q (m, d) := by
  obtain ⟨b, m', hadd, hm', hstale⟩ := hm.add (s := sessionForFd s) (.inl rfl) hP
  refine (wp_call ?_).mpr (h b m' hm' hstale)
  simp only [interp, hadd]
  rfl

theorem wp_addToken (hm : Settled P m) {s : Session} (hP : P.Holds s) {k : Bool → Handler α}
    (h : ∀ b m', Settled P m' → m'.staleRead = m.staleRead → (k b).wp (interp db) Q (m', d)) :
    (sessionAddToken s >>= k).wp (interp db) Q (m, d) := by
  obtain ⟨b, m', hadd, hm', hstale⟩ := hm.add (s := sessionForToken s) (.inr rfl) hP
  refine (wp_call ?_).mpr (h b m' hm' hstale)
  simp only [interp, hadd]
  rfl

/-- After it the module is settled and no read was stale. -/
def Keeps (P : LoginProp) (m : SessionMod) : α → SessionMod × δ → Prop :=
  fun _ s => Settled P s.1 ∧ s.1.staleRead = m.staleRead

def IsDb (e : Effect) : Prop := ∃ op, e = .db op

theorem only_db {op : DbOp} {k : op.Result → Handler α} (h : ∀ r, (k r).Only IsDb) :
    (Server.db op >>= k).Only IsDb :=
  ⟨⟨op, rfl⟩, h⟩

/-- What only asks the database leaves the session module alone. -/
theorem wp_of_isDb {p : Handler α} (hp : p.Only IsDb) (hm : Settled P m) :
    p.wp (interp db) (Keeps P m) (m, d) := by
  refine (hp.wp (I := fun s => s.1 = m) ?_ rfl).mono ?_
  · rintro _ ⟨op, rfl⟩ ⟨_, d⟩ rfl
    exact ⟨_, _, rfl, rfl⟩
  · rintro a ⟨_, d⟩ rfl
    exact ⟨hm, rfl⟩

/-! ## The handlers -/

theorem wp_resHeartbeat (hm : Settled P m) (fd : ℕ) :
    (resHeartbeat fd).wp (interp db) (Keeps P m) (m, d) := by
  refine wp_refFd hm (fun _ => ⟨hm, rfl⟩) fun n hn _ => ?_
  rw [wp_read hm hn, wp_dref hm hn]
  exact ⟨hm, rfl⟩

theorem wp_resAccountCheckSessionExist (hm : Settled P m) {uid : CString} {fd : ℕ}
    {k : Bool → Handler α}
    (h : ∀ b m', Settled P m' → m'.staleRead = m.staleRead → (k b).wp (interp db) Q (m', d)) :
    (resAccountCheckSessionExist uid fd >>= k).wp (interp db) Q (m, d) := by
  -- whatever the first check did, the second starts from a settled module
  have hsame : ∀ (another : Bool) m', Settled P m' → m'.staleRead = m.staleRead →
      (sessionRefFd fd >>= fun old => dropSession old >>= fun same => ret (another || same)).wp
        (interp db) (fun b s => (k b).wp (interp db) Q s) (m', d) := by
    intro another m' hm' hstale
    refine wp_refFd hm' (fun _ => h _ m' hm' hstale) fun n hn _ => ?_
    rw [dropSession, wp_bind, wp_read hm' hn, wp_dref hm' hn]
    exact wp_delFd hm' fun b m'' hm'' hstale' => h _ m'' hm'' (hstale'.trans hstale)
  rw [wp_bind]
  refine wp_refUid hm (fun _ => hsame _ m hm rfl) fun n hn _ => ?_
  rw [dropSession, wp_bind, wp_read hm hn, wp_dref hm hn]
  exact wp_delFd hm fun b m' hm' hstale => hsame _ m' hm' hstale

theorem wp_loginToken (hm : Settled P m) {s : Session} {guid : CString} (hP : P.Holds s)
    {k : Reply → Handler α}
    (h : ∀ m', Settled P m' → m'.staleRead = m.staleRead →
      (k [appendString "token" guid]).wp (interp db) Q (m', d)) :
    (loginToken s guid >>= k).wp (interp db) Q (m, d) := by
  have hadd : ∀ m', Settled P m' → m'.staleRead = m.staleRead →
      (sessionAddToken { s with sType := .token, token := guid, fd := -1 } >>= fun _ =>
        ret [appendString "token" guid]).wp (interp db)
          (fun token s => (k token).wp (interp db) Q s) (m', d) := by
    intro m' hm' hstale
    refine wp_addToken hm' ?_ fun b m'' hm'' hstale' => ?_
    · exact hP
    · exact h m'' hm'' (hstale'.trans hstale)
  rw [wp_bind]
  refine wp_refUid hm (fun _ => hadd m hm rfl) fun n hn _ => ?_
  rw [dropToken, wp_bind, wp_read hm hn, wp_dref hm hn]
  exact wp_delToken hm fun b m' hm' hstale => hadd m' hm' hstale

/-- The account whose type a login by password writes into its session: it is read
again after the user and the password were checked. -/
def loginAccount (db : Db δ) (d : δ) (p : LoginParam) : Option Account :=
  let user := db (.accountGetOne p.uid) d
  let pwd := db (.accountPwdCheck p.uid p.pwd) user.2
  if validUid p.uid && validPwd p.pwd && user.1.isSome && pwd.1 then
    (db (.accountGetOne p.uid) pwd.2).1
  else none

theorem wp_loginByPwd (hm : Settled P m) {junk : Junk} {fd : ℕ} {p : LoginParam}
    (hvalid : validUid p.uid && validPwd p.pwd)
    (hP : ∀ a, loginAccount db d p = some a → P a.type p.uid junk.admin) :
    (loginByPwd junk fd p).wp (interp db) (Keeps P m) (m, d) := by
  refine wp_db.mpr ?_
  split
  · exact ⟨hm, rfl⟩
  next user huser =>
  refine wp_db.mpr ?_
  split
  · next hpwd =>
    refine wp_resAccountCheckSessionExist hm fun conflict m₁ hm₁ hstale₁ => ?_
    refine wp_db.mpr ?_
    split
    · exact ⟨hm₁, hstale₁⟩
    · next a ha =>
      have hlogin : P.Holds ⟨a.type, p.uid, junk.admin, .fd, lit "", fd⟩ := by
        refine hP a ?_
        simp only [loginAccount, hvalid, huser, hpwd, Option.isSome_some, Bool.and_self, if_true]
        exact ha
      refine wp_addFd hm₁ hlogin fun b m₂ hm₂ hstale₂ => ?_
      have hstale := hstale₂.trans hstale₁
      split
      · exact wp_loginToken hm₂ hlogin fun m₃ hm₃ hstale₃ => ⟨hm₃, hstale₃.trans hstale⟩
      · exact ⟨hm₂, hstale⟩
  · exact ⟨hm, rfl⟩

theorem wp_loginByToken (hm : Settled P m) (fd : ℕ) (token : CString) :
    (loginByToken fd token).wp (interp db) (Keeps P m) (m, d) := by
  refine wp_refToken hm (fun _ => ⟨hm, rfl⟩) fun n hn _ => ?_
  rw [wp_read hm hn, wp_dref hm hn]
  refine wp_resAccountCheckSessionExist hm fun conflict m₁ hm₁ hstale₁ => ?_
  refine wp_addFd hm₁ ?_ fun b m₂ hm₂ hstale₂ => ?_
  · exact hm.sessions n hn
  refine wp_db.mpr ?_
  split
  · exact ⟨hm₂, hstale₂.trans hstale₁⟩
  · exact ⟨hm₂, hstale₂.trans hstale₁⟩

theorem wp_resAccountLogin (hm : Settled P m) {junk : Junk} {fd : ℕ} {pack : Pack}
    (hP : ∀ a, loginAccount db d (loginParam junk pack) = some a →
      P a.type (loginParam junk pack).uid junk.admin) :
    (resAccountLogin junk fd pack).wp (interp db) (Keeps P m) (m, d) := by
  simp only [resAccountLogin]
  split_ifs with hvalid
  · exact wp_loginByPwd hm hvalid hP
  · exact wp_loginByToken hm fd _
  · exact ⟨hm, rfl⟩

theorem wp_resAccountLogout (hm : Settled P m) (fd : ℕ) :
    (resAccountLogout fd).wp (interp db) (Keeps P m) (m, d) := by
  refine wp_refFd hm (fun _ => ⟨hm, rfl⟩) fun n hn _ => ?_
  rw [wp_dref hm hn]
  refine wp_delFd hm fun b m' hm' hstale => ?_
  exact ⟨hm', hstale⟩

theorem wp_resAccountModifyPwd (hm : Settled P m) (junk : Junk) (fd : ℕ) (pack : Pack) :
    (resAccountModifyPwd junk fd pack).wp (interp db) (Keeps P m) (m, d) := by
  simp only [resAccountModifyPwd]
  split_ifs
  · exact ⟨hm, rfl⟩
  · exact ⟨hm, rfl⟩
  · refine wp_refFd hm (fun _ => ⟨hm, rfl⟩) fun n hn _ => ?_
    refine wp_db.mpr ?_
    split
    · rw [wp_read hm hn]
      refine wp_db.mpr ?_
      rw [wp_dref hm hn]
      split
      · exact ⟨hm, rfl⟩
      · exact ⟨hm, rfl⟩
    · rw [wp_dref hm hn]
      exact ⟨hm, rfl⟩

/-- The handler checks a permission, and from then on only asks the database. -/
def Guarded (fd : ℕ) (p : Handler Reply) : Prop :=
  ∃ allowed expired denied k, p = (checkPermission fd allowed expired denied >>= k) ∧
    (∀ reply, k (some reply) = ret reply) ∧ (k none).Only IsDb

/-- The block marked `check permission` gives back what it takes. -/
theorem Guarded.wp {fd : ℕ} {p : Handler Reply} (hp : Guarded fd p) (hm : Settled P m) :
    p.wp (interp db) (Keeps P m) (m, d) := by
  obtain ⟨allowed, expired, denied, k, rfl, hreply, hnone⟩ := hp
  have h : ∀ reply, (k reply).wp (interp db) (Keeps P m) (m, d) := by
    rintro (_ | reply)
    · exact wp_of_isDb hnone hm
    · rw [hreply]
      exact ⟨hm, rfl⟩
  rw [wp_bind]
  refine wp_refFd hm (fun _ => h _) fun n hn _ => ?_
  rw [wp_read hm hn, wp_dref hm hn]
  exact h _

theorem guarded_resAccountList (fd : ℕ) : Guarded fd (resAccountList fd) := by
  refine ⟨_, _, _, _, rfl, fun _ => rfl, only_db fun accounts => ?_⟩
  split
  · trivial
  · trivial

theorem guarded_resDishFetch (fd : ℕ) (pack : Pack) : Guarded fd (resDishFetch fd pack) := by
  refine ⟨_, _, _, _, rfl, fun _ => rfl, only_db fun dishes => ?_⟩
  split
  · trivial
  · trivial

theorem guarded_resDishBook (junk : Junk) (fd : ℕ) (pack : Pack) :
    Guarded fd (resDishBook junk fd pack) := by
  refine ⟨_, _, _, _, rfl, fun _ => rfl, ?_⟩
  simp only
  split
  · trivial
  refine only_db fun dish => ?_
  split
  · trivial
  refine only_db fun seat => ?_
  split
  · trivial
  refine only_db fun added => ?_
  split
  · trivial
  · trivial

theorem guarded_resDishCancel (fd : ℕ) (pack : Pack) : Guarded fd (resDishCancel fd pack) := by
  refine ⟨_, _, _, _, rfl, fun _ => rfl, ?_⟩
  simp only
  split
  · trivial
  refine only_db fun seat => ?_
  split
  · trivial
  refine only_db fun deleted => ?_
  split
  · trivial
  · trivial

theorem guarded_resDishList (fd : ℕ) (pack : Pack) : Guarded fd (resDishList fd pack) := by
  refine ⟨_, _, _, _, rfl, fun _ => rfl, ?_⟩
  simp only
  split
  · trivial
  refine only_db fun seat => ?_
  split
  · trivial
  refine only_db fun books => ?_
  split
  · trivial
  · trivial

theorem wp_resSeatList (hm : Settled P m) (fd : ℕ) :
    (resSeatList fd).wp (interp db) (Keeps P m) (m, d) := by
  refine wp_refFd hm (fun _ => ⟨hm, rfl⟩) fun n hn _ => ?_
  rw [wp_dref hm hn]
  refine wp_of_isDb (only_db fun seats => ?_) hm
  split
  · trivial
  · trivial

theorem guarded_resCookAccept (fd : ℕ) (pack : Pack) : Guarded fd (resCookAccept fd pack) := by
  refine ⟨_, _, _, _, rfl, fun _ => rfl, ?_⟩
  simp only
  split
  · trivial
  refine only_db fun dish => ?_
  split
  · trivial
  refine only_db fun seat => ?_
  split
  · trivial
  · trivial

/-! ## The handlers that keep a session -/

theorem only_createAccount (a : Account) : (createAccount a).Only IsDb := by
  refine only_db fun account => ?_
  split
  · trivial
  refine only_db fun added => ?_
  split
  · trivial
  · trivial

/-- A session on the connection. -/
def HasSession (m : SessionMod) (fd : ℕ) : Prop := ∃ n ∈ m.sessionList, n.session.fd = fd

theorem any_hasFd {fd : ℤ} {n : SessionNode} (hn : n ∈ m.sessionList) (hfd : n.session.fd = fd) :
    m.sessionList.any (SessionNode.hasFd fd) = true :=
  List.any_eq_true.mpr ⟨n, hn, by simp [SessionNode.hasFd, hfd]⟩

/-- The session of a connection is the only one. -/
theorem Settled.session_unique (hm : Settled P m) {fd : ℕ} {n n' : SessionNode}
    (hn : n ∈ m.sessionList) (hfd : n.session.fd = fd) (hn' : n' ∈ m.sessionList)
    (hfd' : n'.session.fd = fd) : n = n' := by
  have hmem : ∀ {x}, x ∈ m.sessionList → x.session.fd = fd →
      x ∈ m.sessionList.filter (SessionNode.hasFd fd) := by
    intro x hx hxfd
    exact List.mem_filter.mpr ⟨hx, by simp [SessionNode.hasFd, hxfd]⟩
  have hn := hmem hn hfd
  have hn' := hmem hn' hfd'
  rcases hm.distinct.filter_hasFd (show (fd : ℤ) ≠ -1 by omega) with hnil | ⟨x, -, -, hone⟩
  · simp [hnil] at hn
  · rw [hone, List.mem_singleton] at hn hn'
    rw [hn, hn']

theorem wp_resAccountCreate (hm : Settled P m) {junk : Junk} {fd : ℕ} {pack : Pack}
    (h : ¬ (validAccount (createParam junk pack) ∧ HasSession m fd)) :
    (resAccountCreate junk fd pack).wp (interp db) (Keeps P m) (m, d) := by
  simp only [resAccountCreate]
  split
  · next hvalid =>
    refine wp_refFd hm (fun _ => ⟨hm, rfl⟩) fun n hn hfd => ?_
    exact (h ⟨hvalid, n, hn, hfd⟩).elim
  · exact ⟨hm, rfl⟩

/-- The second read of `s->admin` comes after `session_dref`. -/
theorem wp_resAccountCreate_stale (hm : Settled P m) {junk : Junk} {fd : ℕ} {pack : Pack}
    (hvalid : validAccount (createParam junk pack)) (h : HasSession m fd) :
    (resAccountCreate junk fd pack).wp (interp db)
      (fun _ s => Settled P s.1 ∧ s.1.staleRead = true) (m, d) := by
  obtain ⟨n, hn, hfd⟩ := h
  simp only [resAccountCreate, if_pos hvalid]
  refine wp_refFd hm (fun hnone => (hnone n hn hfd).elim) fun n' hn' _ => ?_
  rw [wp_read hm hn', wp_dref hm hn', wp_read_stale hm hn']
  split
  · exact ⟨hm.stale, rfl⟩
  · exact wp_of_isDb (only_createAccount _) hm.stale

theorem wp_resAccountModifyBasic (hm : Settled P m) {junk : Junk} {fd : ℕ} {pack : Pack}
    (h : ¬ HasSession m fd) :
    (resAccountModifyBasic junk fd pack).wp (interp db) (Keeps P m) (m, d) :=
  wp_refFd hm (fun _ => ⟨hm, rfl⟩) fun n hn hfd => (h ⟨n, hn, hfd⟩).elim

/-- The session is never given back. -/
theorem wp_resAccountModifyBasic_held (hm : Settled P m) {junk : Junk} {fd : ℕ} {pack : Pack}
    (h : HasSession m fd) :
    (resAccountModifyBasic junk fd pack).wp (interp db) (fun _ s => s.1.locked = true) (m, d) := by
  obtain ⟨n, hn, hfd⟩ := h
  refine wp_refFd hm (fun hnone => (hnone n hn hfd).elim) fun n' hn' _ => ?_
  rw [wp_read hm hn']
  refine wp_db.mpr ?_
  split
  · rw [wp_read hm hn']
    refine wp_db.mpr ?_
    split
    · rfl
    · rfl
  · rfl

/-- The last administrator stays; any other user is deleted after its sessions. -/
theorem wp_deleteOwn {Q : Reply → SessionMod × δ → Prop} (hm : Settled P m) {n : SessionNode}
    (hn : n ∈ m.sessionList) {fd : ℕ} {uid : CString}
    (hlast : ∀ d', (d' = d ∨ d' = (db .accountGet d).2) →
      Q [AccountResult.cannotDeleteLastAdmin.append] (m, d'))
    (hdel : ∀ d', (d' = d ∨ d' = (db .accountGet d).2) →
      (n.session.aType = accountAdmin → 1 < (db .accountGet d).1.countP (·.type = accountAdmin)) →
      Q (deleted (db (.accountDel uid) d').1)
        ((m.remove (SessionNode.hasFd fd)).remove (SessionNode.hasUid uid .token),
          (db (.accountDel uid) d').2)) :
    (deleteOwn fd uid n.addr).wp (interp db) Q (m.hold n.addr, d) := by
  have hrest : ∀ (last : Bool) d', (d' = d ∨ d' = (db .accountGet d).2) →
      (last = false → n.session.aType = accountAdmin →
        1 < (db .accountGet d).1.countP (·.type = accountAdmin)) → (if last then do
        sessionDref n.addr
        return [AccountResult.cannotDeleteLastAdmin.append]
      else do
        sessionDref n.addr
        let _ ← sessionDelFd fd
        let _ ← sessionDelToken uid
        return deleted (← Server.db (.accountDel uid)) : Handler Reply).wp (interp db) Q
          (m.hold n.addr, d') := by
    intro last d' hd' hcount
    split
    · rw [wp_dref hm hn]
      exact hlast d' hd'
    · next hother =>
      rw [wp_dref hm hn, wp_delFd_eq hm, wp_delToken_eq (hm.remove _)]
      exact wp_db.mpr (hdel d' hd' (hcount (by simpa using hother)))
  unfold deleteOwn
  rw [wp_read hm hn, wp_bind]
  unfold lastAdmin
  split
  · refine wp_db.mpr (hrest _ _ (.inr rfl) fun hcount _ => ?_)
    simpa using hcount
  · next hother => exact hrest _ _ (.inl rfl) fun _ htype => (hother htype).elim

theorem wp_deleteOther {Q : Reply → SessionMod × δ → Prop} (hm : Settled P m) {n : SessionNode}
    (hn : n ∈ m.sessionList) {uid : CString}
    (hrefused : n.session.admin = 0 → Q [AccountResult.noPermission.append] (m, d))
    (hdel : n.session.admin ≠ 0 →
      Q (deleted (db (.accountDel uid) d).1) (m, (db (.accountDel uid) d).2)) :
    (deleteOther uid n.addr).wp (interp db) Q (m.hold n.addr, d) := by
  unfold deleteOther
  rw [wp_read hm hn]
  split
  · next hzero =>
    rw [wp_dref hm hn]
    exact hrefused hzero
  · next hflag =>
    rw [wp_dref hm hn]
    exact wp_db.mpr (hdel hflag)

/-- The user of a session is asked for its password, and the database does not know
it. -/
def PwdRefused (db : Db δ) (m : SessionMod) (d : δ) (fd : ℕ) (oldPwd : CString) : Prop :=
  ∃ n ∈ m.sessionList, n.session.fd = fd ∧
    (db (.accountPwdCheck n.session.uid oldPwd) d).1 = false

def validDelete (p : DeleteParam) : Bool := validUid p.uid && validPwd p.oldPwd

/-- A deletion ends before it comes to the user id, or goes on with one of its two branches. -/
theorem wp_resAccountDelete_eq {Q : Reply → SessionMod × δ → Prop} (hm : Settled P m)
    {junk : Junk} {fd : ℕ} {pack : Pack}
    (hinvalid : ¬ validDelete (deleteParam junk pack) →
      Q [AccountResult.illegalParameter.append] (m, d))
    (hnone : validDelete (deleteParam junk pack) → (∀ n ∈ m.sessionList, n.session.fd ≠ fd) →
      Q [AccountResult.sessionExpired.append] (m, d))
    (hrefused : validDelete (deleteParam junk pack) → ∀ n ∈ m.sessionList, n.session.fd = fd →
      (db (.accountPwdCheck n.session.uid (deleteParam junk pack).oldPwd) d).1 = false →
        Q [AccountResult.oldPwdIncorrect.append] (m.hold n.addr,
          (db (.accountPwdCheck n.session.uid (deleteParam junk pack).oldPwd) d).2))
    (hdelete : validDelete (deleteParam junk pack) → ∀ n ∈ m.sessionList, n.session.fd = fd →
      (db (.accountPwdCheck n.session.uid (deleteParam junk pack).oldPwd) d).1 = true →
        (if n.session.uid = (deleteParam junk pack).uid then
          deleteOwn fd (deleteParam junk pack).uid n.addr
        else deleteOther (deleteParam junk pack).uid n.addr).wp (interp db) Q (m.hold n.addr,
          (db (.accountPwdCheck n.session.uid (deleteParam junk pack).oldPwd) d).2)) :
    (resAccountDelete junk fd pack).wp (interp db) Q (m, d) := by
  simp only [resAccountDelete]
  split
  · next hvalid =>
    refine wp_refFd hm (hnone hvalid) fun n hn hfd => ?_
    rw [wp_read hm hn]
    refine wp_db.mpr ?_
    split
    · next hknown =>
      rw [wp_read hm hn]
      exact hdelete hvalid n hn hfd hknown
    · next hunknown => exact hrefused hvalid n hn hfd (by simpa using hunknown)
  · next hvalid => exact hinvalid hvalid

theorem wp_resAccountDelete (hm : Settled P m) {junk : Junk} {fd : ℕ} {pack : Pack}
    (h : ¬ (validDelete (deleteParam junk pack) ∧
      PwdRefused db m d fd (deleteParam junk pack).oldPwd)) :
    (resAccountDelete junk fd pack).wp (interp db) (Keeps P m) (m, d) := by
  refine wp_resAccountDelete_eq hm (fun _ => ⟨hm, rfl⟩) (fun _ _ => ⟨hm, rfl⟩) ?_ ?_
  · intro hvalid n hn hfd hpwd
    exact (h ⟨hvalid, n, hn, hfd, hpwd⟩).elim
  · intro _ n hn _ _
    split
    · exact wp_deleteOwn hm hn (fun _ _ => ⟨hm, rfl⟩) fun _ _ _ => ⟨(hm.remove _).remove _, rfl⟩
    · exact wp_deleteOther hm hn (fun _ => ⟨hm, rfl⟩) fun _ => ⟨hm, rfl⟩

/-- The session is not given back after a wrong password. -/
theorem wp_resAccountDelete_held (hm : Settled P m) {junk : Junk} {fd : ℕ} {pack : Pack}
    (hvalid : validDelete (deleteParam junk pack))
    (h : PwdRefused db m d fd (deleteParam junk pack).oldPwd) :
    (resAccountDelete junk fd pack).wp (interp db) (fun _ s => s.1.locked = true) (m, d) := by
  obtain ⟨n, hn, hfd, hpwd⟩ := h
  refine wp_resAccountDelete_eq hm (fun hinvalid => (hinvalid hvalid).elim)
    (fun _ hnone => (hnone n hn hfd).elim) (fun _ _ _ _ _ => rfl) ?_
  intro _ n' hn' hfd' hknown
  obtain rfl := hm.session_unique hn hfd hn' hfd'
  rw [hpwd] at hknown
  cases hknown

/-! ## All requests -/

/-- The requests on which a handler gives back what it took. -/
def Returning (db : Db δ) (s : SessionMod × δ) : ServerEvent → Prop
  | .disconnect _ => True
  | .request r =>
    match r.kind with
    | .accountCreate => ¬ (validAccount (createParam r.junk r.pack) ∧ HasSession s.1 r.fd)
    | .accountModifyBasic => ¬ HasSession s.1 r.fd
    | .accountDelete => ¬ (validDelete (deleteParam r.junk r.pack) ∧
        PwdRefused db s.1 s.2 r.fd (deleteParam r.junk r.pack).oldPwd)
    | _ => True

/-- The login of a request gives its session a type, a user and a flag that meet `P`. -/
def LogsIn (P : LoginProp) (db : Db δ) (d : δ) (r : Request) : Prop :=
  r.kind = .accountLogin → ∀ a, loginAccount db d (loginParam r.junk r.pack) = some a →
    P a.type (loginParam r.junk r.pack).uid r.junk.admin

theorem Request.wp_handler (hm : Settled P m) {r : Request} (hP : LogsIn P db d r)
    (hr : Returning db (m, d) (.request r)) :
    r.handler.wp (interp db) (Keeps P m) (m, d) := by
  obtain ⟨kind, fd, pack, junk⟩ := r
  cases kind with
  | heartbeat => exact wp_resHeartbeat hm fd
  | accountLogin => exact wp_resAccountLogin hm (hP rfl)
  | accountLogout => exact wp_resAccountLogout hm fd
  | accountCreate => exact wp_resAccountCreate hm hr
  | accountModifyPwd => exact wp_resAccountModifyPwd hm junk fd pack
  | accountModifyBasic => exact wp_resAccountModifyBasic hm hr
  | accountDelete => exact wp_resAccountDelete hm hr
  | accountList => exact (guarded_resAccountList fd).wp hm
  | dishFetch => exact (guarded_resDishFetch fd pack).wp hm
  | dishBook => exact (guarded_resDishBook junk fd pack).wp hm
  | dishCancel => exact (guarded_resDishCancel fd pack).wp hm
  | dishList => exact (guarded_resDishList fd pack).wp hm
  | seatList => exact wp_resSeatList hm fd
  | cookAccept => exact (guarded_resCookAccept fd pack).wp hm

/-- Otherwise the lock stays taken, or a session was read too late. -/
theorem Request.wp_handler_not_returning (hm : Settled P m) {r : Request}
    (hr : ¬ Returning db (m, d) (.request r)) :
    r.handler.wp (interp db) (fun _ s => s.1.locked = true ∨
      Settled P s.1 ∧ s.1.staleRead = true) (m, d) := by
  obtain ⟨kind, fd, pack, junk⟩ := r
  cases kind with
  | accountCreate =>
    obtain ⟨hvalid, hsession⟩ := not_not.mp hr
    exact (wp_resAccountCreate_stale hm hvalid hsession).mono fun _ _ hs => .inr hs
  | accountModifyBasic =>
    exact (wp_resAccountModifyBasic_held hm (not_not.mp hr)).mono fun _ _ hs => .inl hs
  | accountDelete =>
    obtain ⟨hvalid, hpwd⟩ := not_not.mp hr
    exact (wp_resAccountDelete_held hm hvalid hpwd).mono fun _ _ hs => .inl hs
  | _ => exact (hr trivial).elim

/-- Every handler returns, and leaves the module settled or the lock taken. -/
theorem Request.wp_handler_settled (hm : Settled P m) {r : Request} (hP : LogsIn P db d r) :
    r.handler.wp (interp db) (fun _ s => Settled P s.1 ∨ s.1.locked = true) (m, d) := by
  by_cases hr : Returning db (m, d) (.request r)
  · exact (r.wp_handler hm hP hr).mono fun _ _ hs => .inl hs.1
  · refine (r.wp_handler_not_returning hm hr).mono fun _ _ hs => ?_
    rcases hs with hlocked | ⟨hs, -⟩
    · exact .inr hlocked
    · exact .inl hs

theorem givesBack_iff_wp (p : Handler Reply) (s : SessionMod × δ) :
    GivesBack db s p ↔ p.wp (interp db) (fun _ s' => s'.1.locked = false ∧
      (∀ addr, s'.1.refcount addr = s.1.refcount addr) ∧ s'.1.staleRead = false) s := by
  rw [wp_iff_exec]
  constructor
  · rintro ⟨reply, m', d', hexec, hs⟩
    exact ⟨reply, (m', d'), hexec, hs⟩
  · rintro ⟨reply, ⟨m', d'⟩, hexec, hs⟩
    exact ⟨reply, m', d', hexec, hs⟩

/-- Between two handlers nothing is held, and so far no session was read too late. -/
structure Quiescent (m : SessionMod) : Prop where
  settled : Settled (fun _ _ _ => True) m
  unread : m.staleRead = false

theorem Quiescent.givesBack_iff (hm : Quiescent m) (r : Request) :
    GivesBack db (m, d) r.handler ↔ Returning db (m, d) (.request r) := by
  rw [givesBack_iff_wp]
  constructor
  · intro hwp
    by_contra hr
    obtain ⟨reply, s, ⟨hunlocked, -, hunread⟩, hheld⟩ :=
      hwp.and (Request.wp_handler_not_returning hm.settled hr)
    rcases hheld with hlocked | ⟨-, hstale⟩
    · simp [hlocked] at hunlocked
    · simp [hstale] at hunread
  · intro hr
    refine (Request.wp_handler hm.settled (fun _ _ _ => trivial) hr).mono ?_
    rintro reply ⟨m', d'⟩ ⟨hm', hstale⟩
    exact ⟨hm'.unlocked, fun addr => (hm'.counts addr).trans (hm.settled.counts addr).symm,
      hstale.trans hm.unread⟩

theorem Quiescent.step (hm : Quiescent m) {e : ServerEvent} {s' : SessionMod × δ}
    (hr : Returning db (m, d) e) (hstep : serverStep db (m, d) e = some s') : Quiescent s'.1 := by
  cases e with
  | request r =>
    obtain ⟨⟨reply, s⟩, hexec, rfl⟩ := Option.map_eq_some_iff.mp hstep
    obtain ⟨hs', hstale⟩ :=
      (Request.wp_handler hm.settled (fun _ _ _ => trivial) hr).of_exec hexec
    exact ⟨hs', hstale.trans hm.unread⟩
  | disconnect fd =>
    simp only [serverStep, hm.settled.delAll] at hstep
    obtain rfl := Option.some.inj hstep
    exact ⟨hm.settled.remove _, hm.unread⟩

end Wp

theorem quiescent_of_reaches {db : Db δ} {freed : Session} {d₀ : δ} {s : SessionMod × δ}
    (h : Reaches (serverStep db) (Returning db) (.init freed, d₀) s) : Quiescent s.1 :=
  h.invariant (P := fun s => Quiescent s.1) ⟨.init _ _, rfl⟩ fun hs hr hstep => hs.step hr hstep

/-- After any run of requests and disconnects on which the handlers gave back what
they took, the next handler does so exactly if it is not one of three: the creation
of an account with valid parameters on a connection with a session, a change of the
basic data on such a connection, or a deletion there with a wrong password. -/
theorem handler_givesBack_iff {db : Db δ} {freed : Session} {d₀ : δ} {s : SessionMod × δ}
    (h : Reaches (serverStep db) (Returning db) (.init freed, d₀) s) (r : Request) :
    GivesBack db s r.handler ↔ Returning db s (.request r) :=
  (quiescent_of_reaches h).givesBack_iff r

/-- The table after `ann` has logged in on connection 5. -/
def annLoggedIn : SessionMod :=
  ⟨[⟨0, accountMenu, lit "ann", 0, .fd, lit "", 5⟩], Function.update (fun _ => 0) 0 0, 1, false, [],
    false, ⟨0, lit "", 0, .fd, lit "", 0⟩⟩

theorem reaches_annLoggedIn :
    Reaches (serverStep smallDb) (Returning smallDb)
      (.init ⟨0, lit "", 0, .fd, lit "", 0⟩, [ann], ()) (annLoggedIn, [ann], ()) :=
  .head (e := .request (loginRequest 5 "ann" "tea" noJunk)) trivial rfl .refl

theorem settled_annLoggedIn : Settled (fun _ _ _ => True) annLoggedIn :=
  (quiescent_of_reaches reaches_annLoggedIn).settled

theorem handler_givesBack_iff_heartbeat :
    HasSession annLoggedIn 5 ∧
      GivesBack smallDb (annLoggedIn, [ann], ()) (Request.handler ⟨.heartbeat, 5, none, noJunk⟩) :=
  ⟨⟨_, List.mem_singleton_self _, rfl⟩, (handler_givesBack_iff reaches_annLoggedIn _).mpr trivial⟩

/-- `ann` changes her nickname and the lock stays taken. -/
theorem modifyBasic_not_givesBack :
    ∃ s : SessionMod × List Account × Unit,
      Reaches (serverStep smallDb) anyStep (.init ⟨0, lit "", 0, .fd, lit "", 0⟩, [ann], ()) s ∧
      ¬ GivesBack smallDb s (Request.handler ⟨.accountModifyBasic, 5, none, noJunk⟩) := by
  refine ⟨_, reaches_annLoggedIn.mono fun _ _ _ => trivial, fun h => ?_⟩
  have hreturning := ((quiescent_of_reaches reaches_annLoggedIn).givesBack_iff _).mp h
  exact hreturning ⟨_, List.mem_singleton_self _, rfl⟩

end Youmenu.Server
